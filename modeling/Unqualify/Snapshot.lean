import Unqualify.Analysis
import Unqualify.FileTree
import Unqualify.Json.Reader

/-!
# Workspace snapshots

A run needs the files of a project and the syntax trees of their texts.  A snapshot gives both
as one JSON object:

* `files` lists the files, each an object with a `path`, and with a `text` or a list of `bytes`;
  a `path` alone is a folder;
* `trees` lists the syntax trees, each an object with a `text` and its `nodes` in document
  order.  A node is a list of six: the index of its parent (`null` for the root), its kind, its
  field, whether the grammar names it, its first byte and the first byte after it.

Trees belong to texts and not to paths, so that two files with one text need one tree.
-/

namespace Unqualify

/-- The files of a project and the syntax trees of texts. -/
structure Snapshot where
  /-- The project's files. -/
  root : FileTree
  /-- The trees, each with its text. -/
  trees : List (String × Tree)

namespace Snapshot

/-- The parser that knows the trees of a snapshot. -/
def parser (s : Snapshot) : Parser := fun text => s.trees.lookup text

/-- A node of a flattened tree. -/
def entry? : Json → Option Tree.Entry
  | .arr [parent, .str kind, .str field, .bool named, .num start, .num stop] =>
    some { parent := parent.nat?, label := { kind, field, named, start, stop } }
  | _ => none

/-- A text with its tree. -/
def tree? (j : Json) : Option (String × Tree) := do
  let text ← (← j.get? "text").str?
  let nodes ← (← j.get? "nodes").items?
  let tree ← Tree.ofEntries (← nodes.mapM entry?)
  some (text, tree)

/-- A byte. -/
def byte? (j : Json) : Option UInt8 := do
  let n ← j.nat?
  if n < 256 then some (UInt8.ofNat n) else none

/-- Put a file or folder of the list where its path says. -/
def addItem? (root : FileTree) (j : Json) : Option FileTree := do
  let names := Path.names (← (← j.get? "path").str?)
  match j.get? "text", j.get? "bytes" with
  | some text, _ => text.str?.map fun s => FileTree.put (.file s.toUTF8) names root
  | none, some bytes => do
    let bytes ← (← bytes.items?).mapM byte?
    some (FileTree.put (.file (ByteArray.mk bytes.toArray)) names root)
  | none, none => some (FileTree.makeFolder names root)

/-- The snapshot that a JSON value describes. -/
def ofJson? (j : Json) : Option Snapshot := do
  let files ← (← j.get? "files").items?
  let trees ← (← j.get? "trees").items?
  let root ← files.foldlM addItem? (.folder [])
  let trees ← trees.mapM tree?
  some { root, trees }

/-- The snapshot that a text describes. -/
def parse? (text : String) : Option Snapshot := (Json.parse? text).bind ofJson?

end Snapshot

end Unqualify
