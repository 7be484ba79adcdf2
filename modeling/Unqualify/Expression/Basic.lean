import Unqualify.Span

/-!
# Expressions

The part of a source file that the rule looks at: names, alias-qualified names and member
accesses, kept in a tree whose remaining nodes only hold them together.
-/

namespace Unqualify

/-- A simple, possibly generic, name. -/
structure SimpleName where
  /-- The bare identifier used for lookup: `List` for `List<int>`. -/
  identifier : String
  /-- Extent of the name. -/
  span : Span
  /-- Exact source text, with any type argument list. -/
  text : String
  deriving DecidableEq, Repr

/-- The written form of a member access, without its left operand. -/
structure Access where
  /-- The name right of the last dot. -/
  name : SimpleName
  /-- Extent of the whole expression. -/
  span : Span
  /-- Exact source text of the whole expression. -/
  text : String
  deriving DecidableEq, Repr

/-- A node of the expression tree of a file. -/
inductive Expression where
  /-- A bare name such as `Foo`. -/
  | identifier (name : SimpleName)
  /-- A member access, `left.name`. -/
  | access (left : Expression) (form : Access)
  /-- A name below an alias, `alias::Name`. -/
  | aliased (aliasName name : SimpleName) (span : Span)
  /-- Anything else; it keeps the expressions below it reachable. -/
  | other (children : List Expression) (span : Span)
  deriving Repr

namespace Expression

/-- Extent of the node in the source. -/
def span : Expression → Span
  | identifier name => name.span
  | access _ form => form.span
  | aliased _ _ span => span
  | other _ span => span

/-- Direct children in document order. -/
def children : Expression → List Expression
  | identifier _ => []
  | access left _ => [left]
  | aliased .. => []
  | other children _ => children

/-- Whether the node is there only for the nodes below it. -/
def isOther : Expression → Bool
  | other .. => true
  | _ => false

mutual

/-- The nodes of an expression in document order, parents first, each with its depth below
`depth`. -/
def outline (depth : Nat) : Expression → List (Nat × Expression)
  | identifier name => [(depth, identifier name)]
  | access left form => (depth, access left form) :: outline (depth + 1) left
  | aliased aliasName name span => [(depth, aliased aliasName name span)]
  | other children span => (depth, other children span) :: outlineAll (depth + 1) children

/-- The nodes of several expressions, one expression after the other. -/
def outlineAll (depth : Nat) : List Expression → List (Nat × Expression)
  | [] => []
  | e :: es => outline depth e ++ outlineAll depth es

end

/-- The nodes of an expression in document order, parents first. -/
def preorder (e : Expression) : List Expression :=
  (outline 0 e).map (·.2)

mutual

/-- The number of nodes. -/
def size : Expression → Nat
  | identifier _ => 1
  | access left _ => left.size + 1
  | aliased .. => 1
  | other children _ => sizeAll children + 1

/-- The number of nodes of several expressions. -/
def sizeAll : List Expression → Nat
  | [] => 0
  | e :: es => e.size + sizeAll es

end

theorem sizeAll_append (es fs : List Expression) :
    sizeAll (es ++ fs) = sizeAll es + sizeAll fs := by
  induction es with
  | nil => simp [sizeAll]
  | cons e es ih => simp [sizeAll, ih]; omega

/-- A node counts one more than its children together. -/
theorem size_eq (e : Expression) : e.size = sizeAll e.children + 1 := by
  cases e <;> simp [size, children, sizeAll]

end Expression

end Unqualify
