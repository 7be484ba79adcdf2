import Unqualify.Expression.Basic
import Unqualify.SymbolTable.Entity

/-!
# Binding names in a file

A simple name is bound from the inside out: local names first, then the types around the
place, then each namespace level around it together with the directives written at that
level, and last the global level with the directives of the file.
-/

namespace Unqualify

/-- The meaning of names in one file: the table of the program and the scopes of the file. -/
structure Model where
  /-- The program. -/
  table : SymbolTable
  /-- The file. -/
  outline : Outline

/-- What comes of binding a simple name. -/
inductive Binding where
  /-- Several imported candidates. -/
  | ambiguous (candidates : List Entity)
  /-- A single entity. -/
  | found (entity : Entity)
  /-- Nothing. -/
  | notFound
  deriving DecidableEq, Repr

/-- One level of lookup: a namespace and the directives in force there. -/
structure Level where
  /-- Full name of the namespace; empty for the global level. -/
  name : String
  /-- Directives of the level, in document order. -/
  usings : List Using
  deriving DecidableEq, Repr

namespace Model

variable (m : Model)

/-! ### Scopes around an offset -/

/-- The block among those around a place that starts last; of two that start together, the
later one. -/
def innermost? : List NamespaceBlock → Option NamespaceBlock
  | [] => none
  | b :: bs =>
    match innermost? bs with
    | none => some b
    | some c => if b.extent.start ≤ c.extent.start then some c else some b

/-- The levels of lookup at an offset, innermost first: the innermost namespace, the
namespaces around it by name, and the global level. -/
def levels (offset : Nat) : List Level :=
  let around := m.outline.blocks.filter (·.extent.contains offset)
  let name := ((innermost? around).map (·.name)).getD ""
  let named := (Name.ancestry name).map fun level =>
    { name := level, usings := (around.filter (·.name == level)).flatMap (·.usings) }
  named ++ [{ name := "", usings := m.outline.usings }]

/-- The declarations of the types around an offset, innermost first. -/
def typesAround (offset : Nat) : List TypeDeclaration :=
  (m.outline.types.filter (·.extent.contains offset)).mergeSort
    fun a b => b.extent.start ≤ a.extent.start

/-! ### Binding -/

/-- A local name visible at an offset. -/
def bindLocal? (offset : Nat) (name : String) : Option Entity :=
  if m.outline.locals.any fun l => l.name == name && l.extent.contains offset
  then some (.localName name)
  else none

/-- A nested type or member of the types around an offset, innermost first. -/
def bindInTypes? (offset : Nat) (name : String) : Option Entity :=
  (m.typesAround offset).findSome? fun d => do
    let id ← m.table.byFullName[d.fullName]?
    m.table.memberOf? (.type id) name

/-- What an alias of that name stands for: the first alias whose path means something. -/
def bindAlias? (usings : List Using) (name : String) : Option Entity :=
  usings.findSome? fun u => (u.aliasTarget? name).bind m.table.resolvePath?

/-- What one directive imports under a name. -/
def imported? (name : String) : Using → Option Entity
  | .aliasOf .. => none
  | .types path => (m.table.topLevelType? path name).map .type
  | .members path =>
    match m.table.resolvePath? path with
    | some (.type id) => m.table.memberOf? (.type id) name
    | _ => none

/-- Bind a name through the directives of one level.  An alias goes before imports, and the
same entity imported twice counts once. -/
def bindUsings (usings : List Using) (name : String) : Binding :=
  match m.bindAlias? usings name with
  | some entity => .found entity
  | none =>
    match (usings.filterMap (m.imported? name)).eraseDups with
    | [] => .notFound
    | [entity] => .found entity
    | candidates => .ambiguous candidates

/-- Bind a name at one level: a type of the namespace, a namespace in it, then the
directives. -/
def bindLevel (name : String) (level : Level) : Binding :=
  match m.table.topLevelType? level.name name with
  | some id => .found (.type id)
  | none =>
    match m.table.childNamespace? level.name name with
    | some space => .found (.nameSpace space)
    | none => m.bindUsings level.usings name

/-- Bind a name at the first level that knows it. -/
def bindLevels (name : String) : List Level → Binding
  | [] => .notFound
  | level :: levels =>
    match m.bindLevel name level with
    | .notFound => bindLevels name levels
    | binding => binding

/-- Bind a simple name as it is bound at an offset. -/
def bind (offset : Nat) (name : String) : Binding :=
  match (m.bindLocal? offset name).or (m.bindInTypes? offset name) with
  | some entity => .found entity
  | none => m.bindLevels name (m.levels offset)

/-- The entity below an alias.  `global` is the global namespace; any other alias has to be a
directive around the place, and the innermost one counts. -/
def bindAliased? (offset : Nat) (aliasName name : String) : Option Entity := do
  let root ←
    if aliasName = "global" then
      some (.nameSpace "")
    else
      let usings := (m.levels offset).flatMap (·.usings)
      let target := usings.findSome? (·.aliasTarget? aliasName)
      target.bind m.table.resolvePath?
  m.table.memberOf? root name

/-- The entity an expression denotes. -/
def entityOf? : Expression → Option Entity
  | .identifier name =>
    match m.bind name.span.start name.identifier with
    | .found entity => some entity
    | _ => none
  | .access left form => (entityOf? left).bind (m.table.memberOf? · form.name.identifier)
  | .aliased aliasName name span =>
    m.bindAliased? span.start aliasName.identifier name.identifier
  | .other .. => none

/-! ### Answers -/

/-- Describe what an expression denotes. -/
def resolve (e : Expression) : Symbol :=
  match m.entityOf? e with
  | some entity => m.table.describe entity
  | none => .unknown

/-- Look up a simple name as it would be bound at an offset. -/
def lookup (offset : Nat) (name : String) : Lookup :=
  match m.bind offset name with
  | .ambiguous candidates =>
    .ambiguous ((candidates.map fun c => (m.table.describe c).fullName).mergeSort (· ≤ ·))
  | .found entity => .unique (m.table.describe entity)
  | .notFound => .notFound

end Model

end Unqualify
