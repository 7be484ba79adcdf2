import Unqualify.CommandLine
import Unqualify.Discovery
import Unqualify.Edit
import Unqualify.Info
import Unqualify.Report.Data
import Unqualify.Report.Text

/-!
# Running commands

A command runs on a file tree and gives its output, its exit code and the file tree as it
leaves it.  Only `fix` changes files, and only after the whole analysis has succeeded.
-/

namespace Unqualify

/-- What a run leaves behind. -/
structure Outcome where
  /-- Exit code. -/
  exitCode : Nat
  /-- Standard output. -/
  stdout : String
  /-- Standard error. -/
  stderr : String
  /-- The files after the run. -/
  files : FileTree

/-- What fixing did to one file. -/
structure FileEdit where
  /-- Path of the file. -/
  path : String
  /-- Fixes applied. -/
  applied : Nat
  /-- Fixes skipped. -/
  skipped : Nat
  deriving DecidableEq, Repr

namespace Command

/-! ### Analysing a project -/

/-- The configuration of a project.  Without a configuration file everything is scanned. -/
def loadConfig (root : FileTree) : Except Error Config :=
  match root.find? [configFile] with
  | none => .ok {}
  | some (.folder _) => .error (.io "Is a directory (os error 21)")
  | some (.file content) =>
    match String.fromUTF8? content with
    | some text => Config.parse text
    | none => .error (.io "stream did not contain valid UTF-8")

/-- Load the configuration, find the files and analyse them. -/
def analyzeProject (parse : Parser) (root : FileTree) (paths : List String) (offerFixes : Bool) :
    Except Error (List Report) := do
  let config ← loadConfig root
  let files ← Discovery.discover root paths config
  Analysis.analyze parse files config offerFixes fun _ => .never

/-! ### Check -/

/-- What `check` prints. -/
def checkOutput (format : Format) (reports : List Report) : String :=
  match format with
  | .json => Report.renderJson reports ++ "\n"
  | .text =>
    let gap := if Report.anyFinding reports then "\n" else ""
    Report.renderText reports ++ gap ++ Report.renderSummary reports ++ "\n"

/-- Report redundant qualifications; the exit code tells whether there are any. -/
def runCheck (parse : Parser) (root : FileTree) (paths : List String) (format : Format) :
    Except Error Outcome := do
  let reports ← analyzeProject parse root paths false
  .ok
    { exitCode := if Report.anyFinding reports then 1 else 0
      stdout := checkOutput format reports
      stderr := ""
      files := root }

/-! ### Fix -/

/-- Write the fixed text of a file, if fixing changed it. -/
def writeFixed (root : FileTree) (r : Report) (edit : Edit) : FileTree :=
  if edit.skipped < r.offeredFixes.length ∧ edit.text ≠ r.text then
    match root.locate? (Path.child "." r.path) with
    | some place => FileTree.put (.file edit.text.toUTF8) place root
    | none => root
  else
    root

/-- Fix one file, if its report offers a fix. -/
def fixFile (state : FileTree × List FileEdit) (r : Report) : FileTree × List FileEdit :=
  let (root, edits) := state
  let fixes := r.offeredFixes
  if fixes.isEmpty then
    (root, edits)
  else
    let edit := Edit.apply r.text fixes
    let done :=
      { path := r.path, applied := fixes.length - edit.skipped, skipped := edit.skipped }
    (writeFixed root r edit, edits ++ [done])

/-- The number of fixes that were skipped. -/
def skippedCount (edits : List FileEdit) : Nat :=
  edits.foldl (fun n e => n + e.skipped) 0

/-- The lines on files that were fixed. -/
def fixedLines (edits : List FileEdit) : List String :=
  let lines := (edits.filter (0 < ·.applied)).map fun e =>
    let applied := e.applied
    "- " ++ e.path ++ s!" ({applied} qualifications removed)"
  if lines.isEmpty then [] else ["## Fixed", ""] ++ lines

/-- The lines on findings that remain: fixes withheld, then edits skipped. -/
def remainingLines (reports : List Report) (edits : List FileEdit) : List String :=
  let withheld := reports.flatMap fun r => r.findings.filterMap fun f =>
    f.rejection?.map fun rejection =>
      let line := f.span.line
      "- " ++ r.path ++ s!":{line}  `" ++ f.argument ++ "` (" ++ rejection.text ++ ")"
  let skipped := (edits.filter (0 < ·.skipped)).map fun e =>
    let n := e.skipped
    "- " ++ e.path ++ s!"  ({n} overlapping edits skipped)"
  let lines := withheld ++ skipped
  if lines.isEmpty then [] else ["## Not fixed", ""] ++ lines

/-- What `fix` prints. -/
def fixOutput (reports : List Report) (edits : List FileEdit) : String :=
  let fixed := fixedLines edits
  let remaining := remainingLines reports edits
  let gap := if fixed.isEmpty || remaining.isEmpty then [] else [""]
  Error.unlines (fixed ++ gap ++ remaining)

/-- Remove redundant qualifications where that is safe; the exit code tells whether any
remain. -/
def runFix (parse : Parser) (root : FileTree) (paths : List String) : Except Error Outcome := do
  let reports ← analyzeProject parse root paths true
  if !Report.anyFinding reports then
    .ok
      { exitCode := 0
        stdout := ""
        stderr := "No redundant qualifications, nothing to fix.\n"
        files := root }
  else
    let (files, edits) := reports.foldl fixFile (root, [])
    let remaining := skippedCount edits + Report.withheldCount reports
    .ok
      { exitCode := if remaining > 0 then 1 else 0
        stdout := fixOutput reports edits
        stderr := ""
        files }

/-! ### Info -/

/-- What the reference shows of a project. -/
def gatherInfo (root : FileTree) : Info :=
  { configFound := (root.find? [configFile]).isSome, config := (loadConfig root).toOption }

/-- Show the reference. -/
def runInfo (root : FileTree) (json : Bool) : Outcome :=
  let i := gatherInfo root
  { exitCode := 0
    stdout := if json then i.toJson.pretty ++ "\n" else i.markdown
    stderr := ""
    files := root }

/-! ### All commands -/

/-- Run a command. -/
def run (parse : Parser) (root : FileTree) : Command → Except Error Outcome
  | .check paths format => runCheck parse root paths format
  | .fix paths => runFix parse root paths
  | .info json => .ok (runInfo root json)

/-- What a failed run leaves behind: the files as they were. -/
def failure (root : FileTree) (e : Error) : Outcome :=
  { exitCode := 2, stdout := "", stderr := e.banner, files := root }

/-- Run a command, failures included. -/
def outcome (parse : Parser) (root : FileTree) (command : Command) : Outcome :=
  match run parse root command with
  | .ok result => result
  | .error e => failure root e

end Command

end Unqualify
