import Unqualify.Rule
import Unqualify.Text.Lines

/-!
# Errors

The failures that stop a whole run, their one-line messages, and the markdown shown to the
user: what happened and how to mend it.
-/

namespace Unqualify

/-- Name of the configuration file. -/
def configFile : String := ".idiom.toml"

/-- The file extensions that are analysed. -/
def supportedExtensions : List String := ["cs"]

/-- What is wrong with a configuration file. -/
inductive ConfigFault where
  /-- The text is not TOML. -/
  | malformed
  /-- A key has a value of the wrong type. -/
  | wrongType (key : String)
  deriving DecidableEq, Repr

/-- The fault in words. -/
def ConfigFault.text : ConfigFault → String
  | malformed => "not a valid document"
  | wrongType key => "invalid type for key `" ++ key ++ "`"

/-- A failure that stops a run. -/
inductive Error where
  /-- A path given on the command line does not exist. -/
  | fileNotFound (path : String)
  /-- A source file is larger than the limit. -/
  | fileTooLarge (path : String) (size limit : Nat)
  /-- A configured library type is not a dotted path of identifiers. -/
  | invalidLibraryType (entry reason : String)
  /-- The file system failed. -/
  | io (reason : String)
  /-- A source file could not be parsed. -/
  | parseFailed (path reason : String)
  /-- The configuration file cannot be used. -/
  | badConfig (fault : ConfigFault)
  /-- The configuration names a rule that does not exist. -/
  | unknownRule (id : String)
  /-- There is no grammar for a file extension. -/
  | unsupportedLanguage (extension : String)
  deriving DecidableEq, Repr

namespace Error

/-- The message on one line. -/
def message : Error → String
  | fileNotFound path => "file not found: " ++ path
  | fileTooLarge path size limit =>
    s!"file too large ({size} bytes, max {limit}): " ++ path
  | invalidLibraryType entry reason =>
    "invalid extern type: `" ++ entry ++ "` (" ++ reason ++ ")"
  | io reason => "io: " ++ reason
  | parseFailed path reason => "parse failed: " ++ path ++ ": " ++ reason
  | badConfig fault => "toml deserialize: " ++ fault.text
  | unknownRule id => "unknown rule: `" ++ id ++ "`"
  | unsupportedLanguage ext => "no grammar for extension: ." ++ ext

/-- A text of lines, each with its line break. -/
def unlines (lines : List String) : String :=
  String.join (lines.map (· ++ "\n"))

/-- The error as markdown. -/
def markdown : Error → String
  | fileNotFound path => unlines
    ["# Error: File Not Found", "", "`" ++ path ++ "` does not exist."]
  | fileTooLarge path size limit => unlines
    ["# Error: File Too Large", "",
     "`" ++ path ++ s!"` is {size} bytes (max {limit}).", "",
     "## Fix", "",
     "Exclude it in `" ++ configFile ++ "`:", "",
     "    exclude = [\"" ++ path ++ "\"]"]
  | invalidLibraryType entry reason => unlines
    ["# Error: Invalid Extern Type", "",
     "`" ++ entry ++ "` in `" ++ configFile ++ "` is not a usable type path: " ++ reason ++ ".",
     "",
     "## Fix", "",
     "Write the fully qualified name, with `+` for nested types:", "",
     "    extern_types = [\"System.Console\", \"System.Environment+SpecialFolder\"]"]
  | io reason => unlines ["# Error: I/O", "", reason]
  | parseFailed path reason => unlines
    ["# Error: Parse Failed", "", "Could not parse `" ++ path ++ "`: " ++ reason]
  | badConfig fault => unlines
    ["# Error: Invalid TOML", "", "`" ++ configFile ++ "` could not be read:", "", fault.text]
  | unknownRule id => unlines
    ["# Error: Unknown Rule", "",
     "`[rules." ++ id ++ "]` in `" ++ configFile ++ "` does not name a known rule.", "",
     "## Known rules", "",
     "- `" ++ Rule.qualification.id ++ "`"]
  | unsupportedLanguage ext => unlines
    (["# Error: Unsupported Language", "",
      "No tree-sitter grammar for `." ++ ext ++ "` files.", "",
      "## Supported extensions", ""] ++
      supportedExtensions.map fun supported => "- `." ++ supported ++ "`")

/-- A line of markdown for a terminal, with headings in bold. -/
def forTerminal (line : String) : String :=
  match line.toList with
  | '#' :: _ => "\x1b[1m" ++ line ++ "\x1b[0m"
  | _ => line

/-- The error as it is shown on a terminal. -/
def banner (e : Error) : String :=
  unlines ((Text.lines e.markdown).map forTerminal)

end Error

end Unqualify
