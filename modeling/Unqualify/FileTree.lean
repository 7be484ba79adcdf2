import Unqualify.Text.Search

/-!
# File trees

A directory with everything below it, as a value.  Reading and writing go by the names on the
way from the top (`find?`, `write`); a written path is first resolved to such names, the way an
operating system resolves it (`locate?`).
-/

namespace Unqualify

/-- A file or a folder. -/
inductive FileTree where
  /-- A file with its bytes. -/
  | file (content : ByteArray)
  /-- A folder with its entries. -/
  | folder (entries : List (String × FileTree))

namespace FileTree

/-- Whether this is a folder. -/
def isFolder : FileTree → Bool
  | folder _ => true
  | file _ => false

/-- The entries of a folder; a file has none. -/
def entries : FileTree → List (String × FileTree)
  | folder es => es
  | file _ => []

/-- What stands under a list of names. -/
def find? (t : FileTree) : List String → Option FileTree
  | [] => some t
  | name :: names => (t.entries.lookup name).bind (find? · names)

/-- Put something under a name, in place of what stood there. -/
def setEntry (name : String) (t : FileTree) : List (String × FileTree) → List (String × FileTree)
  | [] => [(name, t)]
  | (n, u) :: es => if n = name then (n, t) :: es else (n, u) :: setEntry name t es

/-- Put something under a list of names; missing folders are made. -/
def put (new : FileTree) : List String → FileTree → FileTree
  | [], _ => new
  | name :: names, t =>
    let below := (t.entries.lookup name).getD (folder [])
    folder (setEntry name (put new names below) t.entries)

/-- Make a folder at a list of names, unless something stands there. -/
def makeFolder (names : List String) (t : FileTree) : FileTree :=
  if (t.find? names).isSome then t else put (folder []) names t

mutual

/-- Every file of a tree, with the names on the way to it. -/
def files : FileTree → List (List String × ByteArray)
  | file content => [([], content)]
  | folder es => filesOf es

/-- Every file below the entries of a folder. -/
def filesOf : List (String × FileTree) → List (List String × ByteArray)
  | [] => []
  | (name, t) :: es => t.files.map (fun (names, content) => (name :: names, content)) ++ filesOf es

end

/-- The files of `new` that are missing from `old` or have other contents there. -/
def changes (old new : FileTree) : List (List String × ByteArray) :=
  new.files.filter fun (names, content) =>
    match old.find? names with
    | some (file before) => before != content
    | _ => true

/-- Resolve the parts of a path one by one, from a place given by the names on the way
to it.  Only a folder can be entered, and nothing lies above the top. -/
def resolveFrom? (root : FileTree) (place : List String) : List String → Option (List String)
  | [] => if (root.find? place).isSome then some place else none
  | part :: parts =>
    if (root.find? place).any isFolder then
      if part = "" ∨ part = "." then resolveFrom? root place parts
      else if part = ".." then
        if place = [] then none else resolveFrom? root place.dropLast parts
      else resolveFrom? root (place ++ [part]) parts
    else
      none

/-- The greatest length of a path in bytes. -/
def maxPathLength : Nat := 4095

/-- Whether a path is too long to be followed. -/
def isTooLong (path : String) : Bool :=
  path.utf8ByteSize > maxPathLength

/-- The place that a path relative to the top leads to, if there is something.  Absolute paths
lead out of the tree, and paths that are too long lead nowhere. -/
def locate? (root : FileTree) (path : String) : Option (List String) :=
  if isTooLong path then
    none
  else
    match Text.split '/' path with
    | "" :: _ => none
    | parts => resolveFrom? root [] parts

end FileTree

end Unqualify
