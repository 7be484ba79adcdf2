import Unqualify.Outline.Locals
import Unqualify.Text.Blank

/-!
# Outline of a syntax tree

Namespaces and types are declared in the file itself, in the body of a namespace or in the
body of a type.  A namespace declared for the rest of the file applies to every sibling
after it.
-/

namespace Unqualify

namespace Outline

variable (src : Source)

/-- The name of a declared namespace, without blanks; none if nothing is left. -/
def declaredName? (children : List Tree) : Option String := do
  let name ← Tree.field? "name" children
  let text := String.ofList (Text.squeeze (src.covered name.label).toList)
  if text = "" then none else some text

/-- The directives among the named trees of a list. -/
def usingsOf (trees : List Tree) : List Using :=
  (Tree.namedOnly trees).filterMap fun t =>
    if t.label.kind = "using_directive" then Using.parse? (src.covered t.label) else none

/-- The names of the variables that a field declaration declares. -/
def variableNames (children : List Tree) : List String :=
  let declarations := (Tree.namedOnly children).filter (·.label.kind == "variable_declaration")
  declarations.flatMap fun declaration =>
    let declarators :=
      (Tree.namedOnly declaration.children).filter (·.label.kind == "variable_declarator")
    declarators.filterMap fun declarator =>
      (Tree.field? "name" declarator.children).map fun name => src.covered name.label

/-- The names that one node of a type body declares as members. -/
def memberNames (tree : Tree) : List String :=
  let own := (Tree.field? "name" tree.children).toList.map fun name => src.covered name.label
  match tree.label.kind with
  | "enum_member_declaration" => own
  | "event_declaration" => own
  | "method_declaration" => own
  | "property_declaration" => own
  | "event_field_declaration" => variableNames src tree.children
  | "field_declaration" => variableNames src tree.children
  | _ => []

/-- The names of the members declared directly in the body of a type. -/
def membersOf (body : Option Tree) : List String :=
  let parts := (body.map fun b => Tree.namedOnly b.children).getD []
  (parts.filter fun t => !declaresType t.label.kind).flatMap (memberNames src)

mutual

/-- What one node declares inside a namespace and, if `outer` is not empty, inside types.
Namespaces cannot be declared inside types. -/
def ofMember (inNamespace : String) (outer : List String) : Tree → Outline
  | .node label children =>
    if label.kind = "namespace_declaration" ∧ outer = [] then
      match declaredName? src children with
      | none => {}
      | some name =>
        let full := Name.join inNamespace name
        let block := (Tree.field? "body" children).toList.map fun body =>
          { name := full, extent := label.extent, usings := usingsOf src body.children }
        { namespaces := [full], blocks := block } ++ ofBody full [] children
    else if declaresType label.kind then
      match (Tree.field? "name" children).map fun name => src.covered name.label with
      | none => {}
      | some name =>
        if name = "" then
          {}
        else
          let members := membersOf src (Tree.field? "body" children)
          { types := [{ inNamespace, outer, name, members, extent := label.extent }] } ++
            ofBody inNamespace (outer ++ [name]) children
    else
      {}

/-- What the body among the children of a declaration declares: the first child under the
field `body`. -/
def ofBody (inNamespace : String) (outer : List String) : List Tree → Outline
  | [] => {}
  | .node label children :: ts =>
    if label.field = "body" then ofMembers inNamespace outer children
    else ofBody inNamespace outer ts

/-- What the named trees of a list declare. -/
def ofMembers (inNamespace : String) (outer : List String) : List Tree → Outline
  | [] => {}
  | t :: ts =>
    (if t.label.named then ofMember inNamespace outer t else {}) ++
      ofMembers inNamespace outer ts

end

/-- What the trees directly below the root declare.  `inNamespace` is the namespace declared
for the rest of the file, and `fileEnd` is where the file ends. -/
def ofTopLevel (fileEnd : Nat) (inNamespace : String) : List Tree → Outline
  | [] => {}
  | t :: ts =>
    if !t.label.named then
      ofTopLevel fileEnd inNamespace ts
    else if t.label.kind = "using_directive" then
      { usings := (Using.parse? (src.covered t.label)).toList } ++
        ofTopLevel fileEnd inNamespace ts
    else if t.label.kind = "file_scoped_namespace_declaration" then
      match declaredName? src t.children with
      | none => ofTopLevel fileEnd inNamespace ts
      | some name =>
        let extent := { start := t.label.start, stop := fileEnd }
        { namespaces := [name], blocks := [{ name, extent, usings := [] }] } ++
          ofTopLevel fileEnd name ts
    else
      ofMember src inNamespace [] t ++ ofTopLevel fileEnd inNamespace ts

/-- The outline of a whole file. -/
def ofFile (tree : Tree) : Outline :=
  ofTopLevel src tree.label.stop "" tree.children ++ { locals := localsOf src [] tree }

end Outline

end Unqualify
