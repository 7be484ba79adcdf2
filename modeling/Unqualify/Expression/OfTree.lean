import Unqualify.Expression.Basic
import Unqualify.Source
import Unqualify.Text.Search

/-!
# Expressions of a syntax tree

Only expression syntax produces member accesses: in `Foo.Bar.Baz x;` the dotted name is a type
and is left alone.  So the walk down the tree carries the position it is in, and every node
decides the position of its children (`childPosition`).

* Comments and using directives are dropped, and so is every subtree without a name in it.
* `left.name` becomes an access, unless the name is not a simple name or the operator is the
  arrow of a pointer access; then the node only keeps its children.
-/

namespace Unqualify

/-- Whether a node stands in expression syntax or in type syntax. -/
inductive Position where
  /-- Names here are evaluated. -/
  | expression
  /-- Names here denote types or are being declared. -/
  | type
  deriving DecidableEq, Repr

/-- What becomes of a node. -/
inductive Form where
  /-- Nothing, and nothing below it. -/
  | dropped
  /-- A simple name. -/
  | name
  /-- A member access whose left operand stands under the given field. -/
  | access (operand : String)
  /-- An alias-qualified name. -/
  | aliased
  /-- A node that only holds others together. -/
  | other
  deriving DecidableEq, Repr

namespace Expression

/-- Parents whose children are written in type syntax. -/
def typeContexts : List String :=
  ["array_type", "attribute", "base_list", "catch_declaration",
   "file_scoped_namespace_declaration", "namespace_declaration", "nullable_type",
   "pointer_type", "ref_type", "sizeof_expression", "tuple_element", "type_argument_list",
   "type_parameter_constraint", "typeof_expression", "using_directive"]

/-- Fields that hold a declared name or a type. -/
def typeFields : List String := ["name", "returns", "type"]

/-- Patterns after `is` that are read as a type when they spell a dotted name. -/
def typePatterns : List String :=
  ["and_pattern", "constant_pattern", "negated_pattern", "or_pattern",
   "parenthesized_pattern"]

/-- What a node of some kind becomes in a position. -/
def formOf (position : Position) (kind : String) : Form :=
  match kind, position with
  | "comment", _ => .dropped
  | "using_directive", _ => .dropped
  | "identifier", _ => .name
  | "member_access_expression", .type => .dropped
  | "member_access_expression", .expression => .access "expression"
  | "qualified_name", .expression => .access "qualifier"
  | "alias_qualified_name", .expression => .aliased
  | _, _ => .other

/-- Whether a child is the one its parent's field stands for: the first under that field.
`earlier` lists the fields of the siblings before it. -/
def leads (earlier : List String) (child : Label) (field : String) : Bool :=
  child.field == field && !earlier.contains field

/-- The right operand of `as` or `is`, or a dotted pattern after `is`. -/
def isTypeOperand (parent : String) (earlier : List String) (child : Label) : Bool :=
  match parent with
  | "as_expression" => leads earlier child "right"
  | "is_expression" => leads earlier child "right"
  | "is_pattern_expression" => leads earlier child "pattern" && typePatterns.contains child.kind
  | _ => false

/-- The position of a child of a node of kind `parent` that stands in `position`. -/
def childPosition (parent : String) (position : Position) (earlier : List String)
    (child : Label) : Position :=
  if isTypeOperand parent earlier child then .type
  else if position = .type ∧ typePatterns.contains parent then .type
  else if Text.endsWith child.kind "_expression" then .expression
  else if position = .type ∨ typeContexts.contains parent then .type
  else if typeFields.any (leads earlier child) then .type
  else .expression

variable (src : Source)

/-- The bare identifier of an `identifier` or `generic_name` node. -/
def bareName? : Tree → Option String
  | .node label children =>
    match label.kind with
    | "identifier" => some (src.covered label)
    | "generic_name" =>
      (children.find? fun t => t.label.named && t.label.kind == "identifier").map
        fun t => src.covered t.label
    | _ => none

/-- Read an `identifier` or `generic_name` node as a simple name. -/
def simpleName? (tree : Tree) : Option SimpleName :=
  match bareName? src tree with
  | none => none
  | some bare =>
    if bare = "" then
      none
    else
      some { identifier := bare, span := src.spanOf tree.label, text := src.covered tree.label }

/-- Which child is the left operand: the first under the field, or without one the first
named child. -/
def isOperand (field : String) (children : List Tree) (child : Label) : Bool :=
  if children.any fun t => t.label.field == field then child.field == field else child.named

/-- The child that holds the name of an access. -/
def nameNode? (children : List Tree) : Option Tree :=
  (Tree.field? "name" children).or (Tree.namedOnly children).getLast?

/-- The left operand and the name of an access, when it is one: the name is a simple name and
no arrow stands between the two. -/
def accessParts? (field : String) (children : List Tree) : Option (Label × SimpleName) := do
  let left ← children.find? fun t => isOperand field children t.label
  let nameNode ← nameNode? children
  let name ← simpleName? src nameNode
  let operator := Text.slice src.text left.label.stop nameNode.label.start
  if Text.occursIn "->".toList operator.toList then none else some (left.label, name)

mutual

/-- The expression of a node, if it has anything to look at. -/
def ofTree? (position : Position) : Tree → Option Expression
  | .node label children =>
    match formOf position label.kind with
    | .dropped => none
    | .name => (simpleName? src (.node label children)).map .identifier
    | .access field =>
      match accessParts? src field children with
      | none => some (.other (ofChildren label.kind .expression [] children) (src.spanOf label))
      | some (leftLabel, name) =>
        let left := (ofFirst? (isOperand field children) children).getD
          (.other [] (src.spanOf leftLabel))
        some (.access left { name, span := src.spanOf label, text := src.covered label })
    | .aliased => do
      let aliasName ← (Tree.field? "alias" children).bind (simpleName? src)
      let name ← (Tree.field? "name" children).bind (simpleName? src)
      some (.aliased aliasName name (src.spanOf label))
    | .other =>
      match ofChildren label.kind position [] children with
      | [] => none
      | es => some (.other es (src.spanOf label))

/-- The expressions of the named children of a node of kind `parent`.  `earlier` lists the
fields of the children already passed. -/
def ofChildren (parent : String) (position : Position) (earlier : List String) :
    List Tree → List Expression
  | [] => []
  | t :: ts =>
    let rest := ofChildren parent position (t.label.field :: earlier) ts
    if t.label.named then
      match ofTree? (childPosition parent position earlier t.label) t with
      | some e => e :: rest
      | none => rest
    else
      rest

/-- The expression of the first child that passes a test. -/
def ofFirst? (test : Label → Bool) : List Tree → Option Expression
  | [] => none
  | t :: ts => if test t.label then ofTree? .expression t else ofFirst? test ts

end

/-- The expression tree of a whole file.  Its root is kept even when there is nothing
below it. -/
def ofFile (tree : Tree) : Expression :=
  .other (ofChildren src tree.label.kind .expression [] tree.children) (src.spanOf tree.label)

end Expression

end Unqualify
