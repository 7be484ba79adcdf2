import Unqualify.Name
import Unqualify.Span
import Unqualify.Using

/-!
# Outlines

What one file declares, and the lexical scopes it consists of.  The declarations go into the
symbol table of the whole program; the scopes decide what a name means at an offset of this
file.
-/

namespace Unqualify

/-- A type declaration as written in one file. -/
structure TypeDeclaration where
  /-- Namespace the declaration stands in; empty for the global one. -/
  inNamespace : String
  /-- Simple names of the enclosing types, outermost first. -/
  outer : List String
  /-- Simple name. -/
  name : String
  /-- Names of the members declared directly in the body. -/
  members : List String
  /-- Range of the declaration. -/
  extent : Extent
  deriving DecidableEq, Repr

/-- The full name of a declared type. -/
def TypeDeclaration.fullName (d : TypeDeclaration) : String :=
  Name.join d.inNamespace (Name.ofSegments (d.outer ++ [d.name]))

/-- A namespace with a body, and the directives written directly in it. -/
structure NamespaceBlock where
  /-- Full name. -/
  name : String
  /-- Range the block covers. -/
  extent : Extent
  /-- Directives of the block, in document order. -/
  usings : List Using
  deriving DecidableEq, Repr

/-- A parameter, local variable, pattern variable or local function. -/
structure Local where
  /-- Declared name. -/
  name : String
  /-- Range in which the name is visible. -/
  extent : Extent
  deriving DecidableEq, Repr

/-- Everything a file declares, and its scopes, each list in document order. -/
structure Outline where
  /-- Full names of the declared namespaces, repeated as they are declared. -/
  namespaces : List String := []
  /-- Namespaces with a body. -/
  blocks : List NamespaceBlock := []
  /-- Types, outer before nested. -/
  types : List TypeDeclaration := []
  /-- Directives of the file itself. -/
  usings : List Using := []
  /-- Local names. -/
  locals : List Local := []
  deriving DecidableEq, Repr

namespace Outline

/-- Two parts of a file, one after the other. -/
def append (a b : Outline) : Outline where
  namespaces := a.namespaces ++ b.namespaces
  blocks := a.blocks ++ b.blocks
  types := a.types ++ b.types
  usings := a.usings ++ b.usings
  locals := a.locals ++ b.locals

instance : Append Outline := ⟨append⟩

@[simp] theorem namespaces_append (a b : Outline) :
    (a ++ b).namespaces = a.namespaces ++ b.namespaces := rfl

@[simp] theorem blocks_append (a b : Outline) : (a ++ b).blocks = a.blocks ++ b.blocks := rfl

@[simp] theorem types_append (a b : Outline) : (a ++ b).types = a.types ++ b.types := rfl

@[simp] theorem usings_append (a b : Outline) : (a ++ b).usings = a.usings ++ b.usings := rfl

@[simp] theorem locals_append (a b : Outline) : (a ++ b).locals = a.locals ++ b.locals := rfl

end Outline

end Unqualify
