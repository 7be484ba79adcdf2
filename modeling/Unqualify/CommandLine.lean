import Unqualify.Text.Search

/-!
# The command line

`check [PATHS] [--format text|json]`, `fix [PATHS]` and `info [--json]`, each with `-v` or
`--verbose` before or after the command.  Two dashes end the options.  An option may be given
once, names are never abbreviated, and a path is not empty.
-/

namespace Unqualify

/-- Output format of `check`. -/
inductive Format where
  /-- Lines as a compiler prints them. -/
  | text
  /-- A JSON list. -/
  | json
  deriving DecidableEq, Repr

/-- What a run is asked to do. -/
inductive Command where
  /-- Report redundant qualifications. -/
  | check (paths : List String) (format : Format)
  /-- Remove redundant qualifications where that is safe. -/
  | fix (paths : List String)
  /-- Show the rules, the configuration and the exit codes. -/
  | info (json : Bool)
  deriving DecidableEq, Repr

namespace CommandLine

/-- The commands by themselves. -/
inductive Verb where
  /-- The command `check`. -/
  | check
  /-- The command `fix`. -/
  | fix
  /-- The command `info`. -/
  | info
  deriving DecidableEq, Repr

/-- What the arguments after a command say. -/
structure Given where
  /-- Whether verbosity is asked for. -/
  verbose : Bool := false
  /-- The format, if one is given. -/
  format : Option Format := none
  /-- Whether JSON is asked for. -/
  json : Bool := false
  /-- Paths, in order. -/
  paths : List String := []
  deriving DecidableEq, Repr

/-- The command of a name. -/
def verb? : String → Option Verb
  | "check" => some .check
  | "fix" => some .fix
  | "info" => some .info
  | _ => none

/-- The format of a name. -/
def format? : String → Option Format
  | "text" => some .text
  | "json" => some .json
  | _ => none

/-- Take a path; `info` has none. -/
def givePath? (verb : Verb) (g : Given) (path : String) : Option Given :=
  if verb = .info ∨ path = "" then none else some { g with paths := g.paths ++ [path] }

/-- Take a format, at most once and only for `check`. -/
def giveFormat? (verb : Verb) (g : Given) (name : String) : Option Given :=
  if verb = .check ∧ g.format = none then
    (format? name).map fun f => { g with format := some f }
  else
    none

/-- Ask for verbosity, at most once. -/
def giveVerbose? (g : Given) : Option Given :=
  if g.verbose then none else some { g with verbose := true }

/-- Ask for JSON, at most once and only for `info`. -/
def giveJson? (verb : Verb) (g : Given) : Option Given :=
  if verb = .info ∧ !g.json then some { g with json := true } else none

/-- The value that an argument gives to the option of a name: `--format=json`. -/
def valueOf? (option argument : String) : Option String :=
  ((option ++ "=").toList.isPrefixOf? argument.toList).map String.ofList

/-- Whether an argument is an option: it starts with a dash and has more than that. -/
def isOption (argument : String) : Bool :=
  Text.startsWith argument "-" && argument != "-"

/-- Read the arguments after a command. -/
def arguments? (verb : Verb) (g : Given) : List String → Option Given
  | [] => some g
  | "--" :: paths => paths.foldlM (givePath? verb) g
  | "-v" :: rest => (giveVerbose? g).bind (arguments? verb · rest)
  | "--verbose" :: rest => (giveVerbose? g).bind (arguments? verb · rest)
  | "--json" :: rest => (giveJson? verb g).bind (arguments? verb · rest)
  | ["--format"] => none
  | "--format" :: value :: rest => (giveFormat? verb g value).bind (arguments? verb · rest)
  | argument :: rest =>
    match valueOf? "--format" argument with
    | some value => (giveFormat? verb g value).bind (arguments? verb · rest)
    | none =>
      if isOption argument then none
      else (givePath? verb g argument).bind (arguments? verb · rest)

/-- The command that a verb and its arguments make. -/
def command (verb : Verb) (g : Given) : Command :=
  match verb with
  | .check => .check g.paths (g.format.getD .text)
  | .fix => .fix g.paths
  | .info => .info g.json

/-- Read a command line; what is no command is a usage error. -/
def parse? : List String → Option Command
  | [] => none
  | argument :: rest =>
    let rest := if argument = "-v" ∨ argument = "--verbose" then rest else argument :: rest
    match rest with
    | [] => none
    | name :: arguments => do
      let verb ← verb? name
      let g ← arguments? verb {} arguments
      some (command verb g)

/-- How the program is called. -/
def usage : String :=
  "Usage: unqualify [-v] check [PATHS] [--format text|json]\n" ++
  "       unqualify [-v] fix [PATHS]\n" ++
  "       unqualify [-v] info [--json]\n"

end CommandLine

end Unqualify
