import Unqualify.Span

/-!
# Concrete syntax trees

The tree a parser gives for one source file: every node has a kind, the field of its parent
under which it stands, a byte range and its children in document order.  Nodes that only carry
punctuation are unnamed; they matter only when a field asks for them.

A tree also comes as a flat list of entries in document order, each with the index of its
parent (`Tree.ofEntries`).
-/

namespace Unqualify

/-- What one node of a tree is, without its children. -/
structure Label where
  /-- Grammatical kind, such as `identifier`. -/
  kind : String
  /-- Field of the parent the node stands under, empty for none. -/
  field : String
  /-- Whether the grammar names the node. -/
  named : Bool
  /-- First byte. -/
  start : Nat
  /-- First byte after it. -/
  stop : Nat
  deriving DecidableEq, Repr

/-- The byte range of a node. -/
def Label.extent (l : Label) : Extent :=
  { start := l.start, stop := l.stop }

/-- A concrete syntax tree. -/
inductive Tree where
  /-- A node and its children in document order. -/
  | node (label : Label) (children : List Tree)
  deriving Repr

namespace Tree

/-- The root's label. -/
def label : Tree → Label
  | node label _ => label

/-- The root's children. -/
def children : Tree → List Tree
  | node _ children => children

/-- The first tree of a list that stands under a field, named or not. -/
def field? (field : String) (trees : List Tree) : Option Tree :=
  trees.find? fun t => t.label.field == field

/-- The named trees of a list. -/
def namedOnly (trees : List Tree) : List Tree :=
  trees.filter fun t => t.label.named

/-! ### From a flat list -/

/-- One line of a flattened tree. -/
structure Entry where
  /-- Index of the parent's entry; the root has none. -/
  parent : Option Nat
  /-- The node itself. -/
  label : Label
  deriving Repr

/-- Attach the entry with index `index` to its parent.  `waiting` holds, for every entry, the
children that were attached to it so far; later entries were attached before. -/
def attach (waiting : Array (List Tree)) (entry : Entry × Nat) : Array (List Tree) :=
  let (⟨parent, label⟩, index) := entry
  let tree := node label (waiting.getD index [])
  match parent with
  | none => waiting
  | some p => waiting.modify p (tree :: ·)

/-- The tree whose nodes are listed in document order, the root first. -/
def ofEntries : List Entry → Option Tree
  | [] => none
  | root :: rest =>
    let numbered := (rest.zipIdx 1).reverse
    let waiting := numbered.foldl attach (Array.replicate (rest.length + 1) [])
    some (node root.label (waiting.getD 0 []))

end Tree

end Unqualify
