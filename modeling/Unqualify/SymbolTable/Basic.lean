import Unqualify.Name
import Unqualify.Outline.Basic
import Unqualify.Symbol
import Std.Data.ExtTreeMap
import Std.Data.ExtTreeSet

/-!
# The symbol table

The namespaces and types of a whole program.  A type is known by its number and found by its
full name; declarations that spell the same full name are parts of one type.  The tables are
extensional, so two symbol tables with the same contents are equal.

* `SymbolTable.declareNamespace` adds a namespace and all namespaces around it.
* `SymbolTable.ensureType` finds a type or adds it, with the types around it.
* `SymbolTable.addFile` merges the declarations of one file.
-/

namespace Unqualify

/-- The number of a type in a symbol table. -/
abbrev TypeId := Nat

/-- A set of names. -/
abbrev NameSet := Std.ExtTreeSet String

/-- A map from names to types. -/
abbrev TypeMap := Std.ExtTreeMap String TypeId

/-- A type, merged from all its declarations. -/
structure TypeSymbol where
  /-- Namespace the type lives in. -/
  inNamespace : String
  /-- Enclosing type, if the type is nested. -/
  container : Option TypeId
  /-- Full name. -/
  fullName : String
  /-- Names of its members. -/
  members : NameSet
  /-- Nested types by simple name. -/
  nested : TypeMap

/-- The namespaces and types of a program. -/
structure SymbolTable where
  /-- All types, in the order they were added. -/
  types : Array TypeSymbol
  /-- The number of every type by full name. -/
  byFullName : TypeMap
  /-- Full names of the namespaces; with a namespace, the namespaces around it. -/
  namespaces : NameSet

namespace SymbolTable

/-- The table of an empty program. -/
def empty : SymbolTable where
  types := #[]
  byFullName := ∅
  namespaces := ∅

/-- Add a namespace and every namespace around it. -/
def declareNamespace (t : SymbolTable) (name : String) : SymbolTable :=
  { t with namespaces := (Name.withParents name).foldl (·.insert ·) t.namespaces }

/-- The full name of the type `path`, innermost name first, in a namespace. -/
def fullNameOf (inNamespace : String) (path : List String) : String :=
  Name.join inNamespace (Name.ofSegments path.reverse)

/-- Add a type below its container and give it the next number. -/
def addType (t : SymbolTable) (inNamespace fullName name : String) (container : Option TypeId) :
    SymbolTable :=
  let id := t.types.size
  let types := t.types.push
    { inNamespace, container, fullName, members := ∅, nested := ∅ }
  let types := match container with
    | none => types
    | some c => types.modify c fun s => { s with nested := s.nested.insert name id }
  { t with types, byFullName := t.byFullName.insert fullName id }

/-- Find the type with a path of simple names, innermost first, or add it together with the
types around it.  A type of that full name is taken whatever its namespace and containers
are. -/
def ensurePath (inNamespace : String) : List String → SymbolTable → Option TypeId × SymbolTable
  | [], t => (none, t)
  | name :: containers, t =>
    let fullName := fullNameOf inNamespace (name :: containers)
    match t.byFullName[fullName]? with
    | some id => (some id, t)
    | none =>
      let (container, t) := ensurePath inNamespace containers t
      (some t.types.size, t.addType inNamespace fullName name container)

/-- Find a type or add it.  `outer` lists the enclosing types, outermost first. -/
def ensureType (t : SymbolTable) (inNamespace : String) (outer : List String) (name : String) :
    Option TypeId × SymbolTable :=
  ensurePath inNamespace (name :: outer.reverse) t

/-- Add members to a type. -/
def addMembers (t : SymbolTable) (id : TypeId) (members : List String) : SymbolTable :=
  { t with
    types := t.types.modify id fun s =>
      { s with members := members.foldl (·.insert ·) s.members } }

/-- Merge one type declaration. -/
def addDeclaration (t : SymbolTable) (d : TypeDeclaration) : SymbolTable :=
  match t.ensureType d.inNamespace d.outer d.name with
  | (some id, t) => t.addMembers id d.members
  | (none, t) => t

/-- Merge the declarations of one file. -/
def addFile (t : SymbolTable) (file : Outline) : SymbolTable :=
  file.types.foldl addDeclaration (file.namespaces.foldl declareNamespace t)

end SymbolTable

end Unqualify
