import Unqualify.Config
import Unqualify.Expression.OfTree
import Unqualify.Model
import Unqualify.Outline.OfTree
import Unqualify.Path
import Unqualify.Report.Basic
import Unqualify.Scan
import Unqualify.SymbolTable.Library

/-!
# Analysis

A whole run over a set of files: prepare every file, build the symbol table, scan every file
with it.  Reports come in the order of their paths.
-/

namespace Unqualify

/-- A source file. -/
structure SourceFile where
  /-- Path relative to the project. -/
  path : String
  /-- Contents. -/
  text : String
  deriving DecidableEq, Repr

/-- A parser: the syntax tree of a text, if it has one. -/
abbrev Parser := String → Option Tree

/-- A file ready to be scanned. -/
structure Prepared where
  /-- Path relative to the project. -/
  path : String
  /-- Contents. -/
  text : String
  /-- Declarations and scopes. -/
  outline : Outline
  /-- The expressions to look at. -/
  expression : Expression

namespace Analysis

/-- The greatest size of a source file, in bytes. -/
def maxFileSize : Nat := 16 * 1024 * 1024

/-- Whether a file extension has a grammar. -/
def isSupported (path : String) : Bool :=
  (Path.extension? path).any supportedExtensions.contains

/-- The syntax tree of a file.  The extension is checked first, then the size. -/
def treeOf (parse : Parser) (file : SourceFile) : Except Error Tree :=
  if !isSupported file.path then
    .error (.unsupportedLanguage ((Path.extension? file.path).getD ""))
  else if file.text.utf8ByteSize > maxFileSize then
    .error (.fileTooLarge file.path file.text.utf8ByteSize maxFileSize)
  else
    match parse file.text with
    | some tree => .ok tree
    | none => .error (.parseFailed file.path "no syntax tree")

/-- Read the expressions and the outline of a file off its syntax tree. -/
def ofTree (file : SourceFile) (tree : Tree) : Prepared :=
  let src := Source.ofText file.text
  { path := file.path, text := file.text, outline := Outline.ofFile src tree,
    expression := Expression.ofFile src tree }

/-- Prepare a file. -/
def prepare (parse : Parser) (file : SourceFile) : Except Error Prepared :=
  (treeOf parse file).map (ofTree file)

/-- Add a configured library type to a table. -/
def addLibraryEntry (t : SymbolTable) (entry : String) : Except Error SymbolTable :=
  match LibraryType.parse? entry with
  | some l => .ok (t.addLibraryType l)
  | none => .error (.invalidLibraryType entry "segments must be identifiers")

/-- The table of a program: the library types, then the files. -/
def tableOf (libraryTypes : List String) (files : List Prepared) : Except Error SymbolTable := do
  let t ← libraryTypes.foldlM addLibraryEntry SymbolTable.empty
  .ok (files.foldl (fun t file => t.addFile file.outline) t)

/-- The oracle of a file in a program. -/
def oracleOf (t : SymbolTable) (outline : Outline) : Oracle :=
  let m : Model := { table := t, outline }
  { resolve := m.resolve, lookup := m.lookup }

/-- Scan a prepared file. -/
def scanFile (scanner : Scanner) (t : SymbolTable) (signal : Signal) (file : Prepared) :
    Report :=
  let scanned := scanner.scanTree (oracleOf t file.outline) signal file.expression
  { path := file.path, text := file.text, findings := scanned.findings }

/-- The report on a file that is not scanned. -/
def unscanned (file : Prepared) : Report :=
  { path := file.path, text := file.text, findings := [] }

/-- Analyse a set of files.  Every file has its own view of the signal that cancels the run,
given by its number. -/
def analyze (parse : Parser) (files : List SourceFile) (config : Config) (offerFixes : Bool)
    (signal : Nat → Signal) : Except Error (List Report) := do
  let prepared ← files.mapM (prepare parse)
  let t ← tableOf config.libraryTypes prepared
  let scanner : Scanner := { offerFixes }
  let reports :=
    if config.ruleEnabled scanner.rule.id scanner.rule.enabledByDefault then
      prepared.zipIdx.map fun (file, i) => scanFile scanner t (signal i) file
    else
      prepared.map unscanned
  .ok (reports.mergeSort fun a b => Path.le a.path b.path)

end Analysis

end Unqualify
