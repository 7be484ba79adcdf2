import Unqualify.SymbolTable.Basic

/-!
# Library types

Types that no source file declares, written as a dotted path with `+` before each nested
type: `System.Environment+SpecialFolder`.
-/

namespace Unqualify

/-- A library type: its namespace and its simple names, outermost first. -/
structure LibraryType where
  /-- Namespace; empty for the global one. -/
  inNamespace : String
  /-- The outermost type. -/
  name : String
  /-- The types nested in it, each in the one before. -/
  nested : List String
  deriving DecidableEq, Repr

namespace LibraryType

/-- Cut a written type into its parts.  The namespace is what stands before the last dot of
the outermost type. -/
def split (entry : String) : LibraryType :=
  match Text.split '+' entry with
  | [] => { inNamespace := "", name := "", nested := [] }
  | head :: nested =>
    let parts := Name.segments head
    { inNamespace := Name.ofSegments parts.dropLast, name := parts.getLastD "", nested }

/-- The segments that have to be identifiers.  The global namespace has none of its own. -/
def parts (l : LibraryType) : List String :=
  let ofNamespace := if l.inNamespace = "" then [] else Name.segments l.inNamespace
  ofNamespace ++ l.name :: l.nested

/-- Read a written type; every segment has to be an identifier. -/
def parse? (entry : String) : Option LibraryType :=
  let l := split entry
  if l.parts.all Name.isIdentifier then some l else none

end LibraryType

namespace SymbolTable

/-- Add the types along a chain of nested types.  `outer` lists the enclosing types, outermost
first. -/
def ensureChain (inNamespace : String) (outer : List String) :
    List String → SymbolTable → SymbolTable
  | [], t => t
  | name :: inner, t =>
    ensureChain inNamespace (outer ++ [name]) inner (t.ensureType inNamespace outer name).2

/-- Add a library type, with its namespace and the types around it. -/
def addLibraryType (t : SymbolTable) (l : LibraryType) : SymbolTable :=
  ensureChain l.inNamespace [] (l.name :: l.nested) (t.declareNamespace l.inNamespace)

end SymbolTable

end Unqualify
