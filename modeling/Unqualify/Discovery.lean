import Unqualify.Analysis
import Unqualify.FileTree
import Unqualify.Generated

/-!
# Discovery

Which files of a project are analysed: those with a supported extension below the paths asked
for, outside of build output and version control, that the configuration lets through, that
are text and that no generator wrote.  The result is in the order of paths and holds every
path once.
-/

namespace Unqualify.Discovery

/-- Names of directories that never hold sources written by hand. -/
def skippedFolders : List String := [".git", "bin", "obj"]

mutual

/-- The files below a path, with their paths.  The path itself is entered whatever its
name; a folder whose path is too long cannot be listed and is passed over. -/
def filesAt (path : String) : FileTree → List (String × ByteArray)
  | .file content => [(path, content)]
  | .folder entries => if FileTree.isTooLong path then [] else filesIn path entries

/-- The files below the entries of a folder. -/
def filesIn (path : String) : List (String × FileTree) → List (String × ByteArray)
  | [] => []
  | (name, t) :: es =>
    (if t.isFolder && skippedFolders.contains name then []
      else filesAt (Path.child path name) t) ++ filesIn path es

end

/-- Where a run starts: the working directory, or each path asked for as seen from it. -/
def starts (paths : List String) : List String :=
  if paths.isEmpty then ["."]
  else paths.map fun p => if Text.startsWith p "/" then p else Path.child "." p

/-- The source file with a path and bytes, unless it is not text or a generator wrote it. -/
def ofBytes? (path : String) (content : ByteArray) : Option SourceFile := do
  let text ← String.fromUTF8? content
  if Generated.isGenerated path text then none else some { path, text }

/-- Read the source file at a path, unless it is to be left out. -/
def read (config : Config) (found : String × ByteArray) : Except Error (Option SourceFile) :=
  let (path, content) := found
  let relative := Path.relative path
  if !Analysis.isSupported path || !config.shouldScan (Text.replaceChar '\\' '/' relative) then
    .ok none
  else if FileTree.isTooLong path then
    .error (.io "File name too long (os error 36)")
  else
    .ok (ofBytes? relative content)

/-- The source files below one start. -/
def below (root : FileTree) (config : Config) (start : String) :
    Except Error (List SourceFile) :=
  match (root.locate? start).bind root.find? with
  | none => .error (.fileNotFound start)
  | some t => do
    let found ← (filesAt start t).mapM (read config)
    .ok (found.filterMap id)

/-- Drop the files at the start of a list that have the path of the file before, and keep the
first of neighbouring files with the same path after that. -/
def dropRepeatsAfter (last : SourceFile) : List SourceFile → List SourceFile
  | [] => []
  | file :: files =>
    if Path.same last.path file.path then dropRepeatsAfter last files
    else file :: dropRepeatsAfter file files

/-- Keep the first of neighbouring files with the same path. -/
def dropRepeats : List SourceFile → List SourceFile
  | [] => []
  | file :: files => file :: dropRepeatsAfter file files

/-- The files to analyse. -/
def discover (root : FileTree) (paths : List String) (config : Config) :
    Except Error (List SourceFile) := do
  let found ← (starts paths).mapM (below root config)
  .ok (dropRepeats (found.flatten.mergeSort fun a b => Path.le a.path b.path))

end Unqualify.Discovery
