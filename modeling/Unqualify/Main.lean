import Unqualify.Command
import Unqualify.Snapshot

/-!
# The program

The arguments say what to do, and standard input holds a snapshot of the workspace
(`Snapshot`).  Reports go to standard output, complaints to standard error, and `fix` writes
the files that it changed below the working directory.
-/

namespace Unqualify

/-- Read a stream to its end. -/
partial def readAll (input : IO.FS.Stream) (front : String) : IO String := do
  let line ← input.getLine
  if line.isEmpty then return front else readAll input (front ++ line)

/-- Print what a run gives, write the files that it changed, and give the exit code. -/
def deliver (before : FileTree) (result : Outcome) : IO UInt32 := do
  IO.print result.stdout
  IO.eprint result.stderr
  for (names, content) in FileTree.changes before result.files do
    IO.FS.writeBinFile ("/".intercalate names) content
  return result.exitCode.toUInt32

end Unqualify

open Unqualify

/-- Run a command line. -/
def main (arguments : List String) : IO UInt32 := do
  match CommandLine.parse? arguments with
  | none =>
    IO.eprint CommandLine.usage
    return 2
  | some command =>
    let input ← readAll (← IO.getStdin) ""
    match Snapshot.parse? input with
    | none =>
      IO.eprintln "The workspace snapshot on standard input cannot be read."
      return 2
    | some snapshot =>
      deliver snapshot.root (Command.outcome snapshot.parser snapshot.root command)
