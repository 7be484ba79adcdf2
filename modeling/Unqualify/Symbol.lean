/-!
# Symbols

How entities are described to the rule and to reports, and what can come of looking up a
short name.
-/

namespace Unqualify

/-- What a name denotes. -/
inductive SymbolKind where
  /-- A parameter or local variable. -/
  | localName
  /-- A field, method, property, event or enum member. -/
  | member
  /-- A class, struct, interface, record, enum or delegate. -/
  | namedType
  /-- A namespace. -/
  | nameSpace
  /-- Nothing that could be found. -/
  | unknown
  deriving DecidableEq, Repr

/-- The description of one entity. -/
structure Symbol where
  /-- Kind of entity. -/
  kind : SymbolKind
  /-- Full name, such as `Foo.Bar.Baz`. -/
  fullName : String
  /-- Full name of the enclosing type, if there is one. -/
  containingType : Option String
  /-- Namespace the entity lives in; empty for the global one. -/
  containingNamespace : String
  deriving DecidableEq, Repr

namespace Symbol

/-- The description of what cannot be classified. -/
def unknown : Symbol where
  kind := .unknown
  fullName := ""
  containingType := none
  containingNamespace := ""

/-- Whether a type is reached through a namespace and not through another type. -/
def isNamespacedType (s : Symbol) : Bool :=
  s.kind == .namedType && s.containingType.isNone

end Symbol

/-- What a simple name means at some place. -/
inductive Lookup where
  /-- Several candidates are visible under the name: their full names, sorted. -/
  | ambiguous (candidates : List String)
  /-- Nothing of that name is visible. -/
  | notFound
  /-- Exactly one entity is visible under the name. -/
  | unique (symbol : Symbol)
  deriving DecidableEq, Repr

end Unqualify
