import Unqualify.Outline.Basic
import Unqualify.Source

/-!
# Local names

Every name that a method body can declare, with the range of the node in which it is visible:

* a parameter is visible in the node that owns the parameter list,
* the parameter of a lambda written without a list in the lambda,
* the variable of a `catch` in its clause and that of a `foreach` in its statement,
* any other variable, local function or pattern variable in the nearest enclosing node that
  bounds locals (`enclosingScope?`); below a type declaration that comes first it is a field
  and no local at all.
-/

namespace Unqualify

/-- Whether nodes of a kind declare a type. -/
def declaresType (kind : String) : Bool :=
  ["class_declaration", "delegate_declaration", "enum_declaration", "interface_declaration",
   "record_declaration", "struct_declaration"].contains kind

namespace Outline

/-- Whether nodes of a kind bound the locals declared directly inside them. -/
def boundsLocals (kind : String) : Bool :=
  ["anonymous_method_expression", "arrow_expression_clause", "block", "catch_clause",
   "compilation_unit", "fixed_statement", "for_statement", "foreach_statement",
   "lambda_expression", "switch_expression_arm", "switch_section",
   "using_statement"].contains kind

/-- Whether nodes of a kind introduce names through their `name` fields. -/
def isDesignation (kind : String) : Bool :=
  ["declaration_expression", "declaration_pattern", "parenthesized_variable_designation",
   "recursive_pattern", "var_pattern"].contains kind

/-- The node that bounds a local, among the nodes around its declaration, nearest first. -/
def enclosingScope? : List Label → Option Label
  | [] => none
  | l :: ls =>
    if declaresType l.kind then none
    else if boundsLocals l.kind then some l
    else enclosingScope? ls

variable (src : Source)

/-- The local that a name node declares across a scope. -/
def declare (name : Option Tree) (scope : Option Label) : List Local :=
  match name, scope with
  | some name, some scope =>
    let text := src.covered name.label
    if (name.label.kind = "identifier" ∨ name.label.kind = "implicit_parameter") ∧ text ≠ ""
    then [{ name := text, extent := scope.extent }]
    else []
  | _, _ => []

/-- The locals that one node declares by itself.  `around` lists the nodes around it, nearest
first. -/
def localsAt (around : List Label) : Tree → List Local
  | .node label children =>
    match label.kind with
    | "parameter" => declare src (Tree.field? "name" children) around.tail.head?
    | "implicit_parameter" => declare src (some (.node label children)) around.head?
    | "catch_declaration" => declare src (Tree.field? "name" children) around.head?
    | "foreach_statement" =>
      let left := (Tree.field? "left" children).filter fun t => t.label.kind == "identifier"
      declare src left (some label)
    | "local_function_statement" =>
      declare src (Tree.field? "name" children) (enclosingScope? around)
    | "variable_declarator" =>
      declare src (Tree.field? "name" children) (enclosingScope? around)
    | kind =>
      if isDesignation kind then
        (children.filter fun t => t.label.field == "name").flatMap fun name =>
          declare src (some name) (enclosingScope? around)
      else
        []

mutual

/-- The locals declared in a tree, in document order. -/
def localsOf (around : List Label) : Tree → List Local
  | .node label children =>
    localsAt src around (.node label children) ++ localsOfAll (label :: around) children

/-- The locals declared in the named trees of a list. -/
def localsOfAll (around : List Label) : List Tree → List Local
  | [] => []
  | t :: ts =>
    (if t.label.named then localsOf around t else []) ++ localsOfAll around ts

end

end Outline

end Unqualify
