import Unqualify.SymbolTable.Basic

/-!
# Entities

What a name can be bound to, how the members of an entity are found, and how entities are
described as symbols.
-/

namespace Unqualify

/-- What a name can be bound to. -/
inductive Entity where
  /-- A parameter or local variable. -/
  | localName (name : String)
  /-- A member of a type. -/
  | member (owner : TypeId) (name : String)
  /-- A namespace, by its full name. -/
  | nameSpace (name : String)
  /-- A type. -/
  | type (id : TypeId)
  deriving DecidableEq, Repr

namespace SymbolTable

variable (t : SymbolTable)

/-- The type declared directly in a namespace under a name. -/
def topLevelType? (inNamespace name : String) : Option TypeId := do
  let id ← t.byFullName[Name.join inNamespace name]?
  let symbol ← t.types[id]?
  if symbol.container.isNone then some id else none

/-- The namespace directly in a namespace under a name. -/
def childNamespace? (inNamespace name : String) : Option String :=
  let full := Name.join inNamespace name
  if t.namespaces.contains full then some full else none

/-- What a name means as a member of an entity.  Types go before namespaces, and nested types
before other members. -/
def memberOf? (entity : Entity) (name : String) : Option Entity :=
  match entity with
  | .nameSpace space =>
    match t.topLevelType? space name with
    | some id => some (.type id)
    | none => (t.childNamespace? space name).map .nameSpace
  | .type id => do
    let symbol ← t.types[id]?
    match symbol.nested[name]? with
    | some inner => some (.type inner)
    | none => if symbol.members.contains name then some (.member id name) else none
  | .localName _ => none
  | .member .. => none

/-- What a list of names means, each as a member of the one before. -/
def follow? (entity : Entity) : List String → Option Entity
  | [] => some entity
  | name :: names => (t.memberOf? entity name).bind (follow? · names)

/-- What a dotted path means from the global namespace. -/
def resolvePath? (path : String) : Option Entity :=
  t.follow? (.nameSpace "") (Name.segments path)

/-- The full name of a type. -/
def fullName? (id : TypeId) : Option String :=
  t.types[id]?.map (·.fullName)

/-- Describe an entity. -/
def describe : Entity → Symbol
  | .localName name =>
    { kind := .localName, fullName := name, containingType := none,
      containingNamespace := "" }
  | .nameSpace name =>
    { kind := .nameSpace, fullName := name, containingType := none,
      containingNamespace := Name.parent name }
  | .type id =>
    match t.types[id]? with
    | none => .unknown
    | some symbol =>
      { kind := .namedType
        fullName := symbol.fullName
        containingType := symbol.container.bind t.fullName?
        containingNamespace := symbol.inNamespace }
  | .member owner name =>
    match t.types[owner]? with
    | none => .unknown
    | some symbol =>
      { kind := .member
        fullName := Name.join symbol.fullName name
        containingType := some symbol.fullName
        containingNamespace := symbol.inNamespace }

end SymbolTable

end Unqualify
