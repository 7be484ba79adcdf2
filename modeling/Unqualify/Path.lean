import Unqualify.Text.Search

/-!
# Paths

Paths are texts with slashes.  They are compared by components: repeated slashes and dots
inside a path do not count, while a leading dot does.
-/

namespace Unqualify.Path

/-- A component of a path.  The constructors are in the order in which they compare. -/
inductive Component where
  /-- The root directory. -/
  | root
  /-- The directory itself, at the start of a path. -/
  | here
  /-- The directory above. -/
  | up
  /-- A named entry. -/
  | name (text : String)
  deriving DecidableEq, Repr

namespace Component

/-- The place of a component's kind in the order. -/
def rank : Component → Nat
  | root => 0
  | here => 1
  | up => 2
  | name _ => 3

/-- Compare by kind, and names by their characters. -/
def compare (a b : Component) : Ordering :=
  match a, b with
  | name s, name t => Ord.compare s t
  | a, b => Ord.compare a.rank b.rank

end Component

/-- The component that a part between slashes stands for, after the first part. -/
def inner? (part : String) : Option Component :=
  if part = "" ∨ part = "." then none
  else if part = ".." then some .up
  else some (.name part)

/-- The components of a path. -/
def components (path : String) : List Component :=
  match Text.split '/' path with
  | [] => []
  | first :: rest =>
    let start : List Component :=
      if first = "" ∧ path ≠ "" then [.root]
      else if first = "." then [.here]
      else (inner? first).toList
    start ++ rest.filterMap inner?

/-- Compare two lists of components, the first difference deciding. -/
def compareComponents : List Component → List Component → Ordering
  | [], [] => .eq
  | [], _ :: _ => .lt
  | _ :: _, [] => .gt
  | a :: as, b :: bs => (a.compare b).then (compareComponents as bs)

/-- Compare two paths. -/
def compare (a b : String) : Ordering :=
  compareComponents (components a) (components b)

/-- Whether a path comes before another or is the same. -/
def le (a b : String) : Bool := compare a b != .gt

/-- Whether two paths have the same components. -/
def same (a b : String) : Bool := components a == components b

/-- The name of the file that a path leads to; a path that ends in `..` or in the root has
none. -/
def fileName? (path : String) : Option String :=
  match (components path).getLast? with
  | some (.name text) => some text
  | _ => none

/-- The part of a file name after its last dot; a dot at the start of the name does not
count. -/
def extension? (path : String) : Option String := do
  let name ← fileName? path
  let parts := Text.split '.' name
  if parts.dropLast = [] ∨ parts.dropLast = [""] then none else parts.getLast?

/-- The path of an entry of a directory. -/
def child (directory name : String) : String :=
  if Text.endsWith directory "/" then directory ++ name else directory ++ "/" ++ name

/-- Whether a part between slashes leads nowhere. -/
def isIdle (part : String) : Bool := part == "" || part == "."

/-- The parts of a path that lead somewhere. -/
def names (path : String) : List String :=
  (Text.split '/' path).filter fun part => !isIdle part

/-- A path below the working directory `.`, taken relative to it: leading and trailing idle
parts go, inner ones stay as they are written.  Any other path is kept. -/
def relative (path : String) : String :=
  match Text.split '/' path with
  | "." :: parts =>
    let parts := parts.dropWhile isIdle
    "/".intercalate (parts.reverse.dropWhile isIdle).reverse
  | _ => path

end Unqualify.Path
