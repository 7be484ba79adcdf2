import Unqualify.Toml.Number

/-!
# TOML documents

A document is a list of statements, one to a line: a key with its value, or the header of a
table.  Arrays and tables in braces can be nested up to a fixed depth, and dotted keys have a
greatest number of parts.
-/

namespace Unqualify.Toml

/-- How deep arrays and tables in braces may be nested. -/
def maxDepth : Nat := 79

/-- How many parts a dotted key may have. -/
def maxParts : Nat := 79

/-! ### Keys -/

/-- A character of a key without quotes. -/
def isBare (c : Char) : Bool := c.isAlphanum || c == '-' || c == '_'

/-- Read one part of a key. -/
def keyPart? : Reader String := fun cs =>
  match cs with
  | '"' :: _ => shortText? cs
  | '\'' :: _ => shortText? cs
  | _ =>
    let bare := cs.takeWhile isBare
    if bare = [] then none else some (.ofList bare, cs.dropWhile isBare)

/-- Read the parts of a dotted key, with spaces around them; `fuel` bounds their number. -/
def keyParts? : Nat → Reader (List String)
  | 0, _ => none
  | fuel + 1, cs => do
    let (part, rest) ← keyPart? (skipSpace cs)
    match skipSpace rest with
    | '.' :: rest =>
      let (parts, rest) ← keyParts? fuel rest
      some (part :: parts, rest)
    | rest => some ([part], rest)

/-- A dotted key: the parts before the last, and the last. -/
structure Key where
  /-- The tables on the way. -/
  path : List String
  /-- The key itself. -/
  last : String
  deriving DecidableEq, Repr

/-- Read a dotted key. -/
def key? : Reader Key := fun cs => do
  let (parts, rest) ← keyParts? maxParts cs
  some ({ path := parts.dropLast, last := parts.getLastD "" }, rest)

/-! ### Values -/

/-- Read the values of an array and its closing bracket; `fuel` bounds their number. -/
def items? (value? : Reader Value) : Nat → Reader (List Value)
  | 0, _ => none
  | fuel + 1, cs =>
    match skipFiller false cs with
    | ']' :: rest => some ([], rest)
    | cs => do
      let (v, rest) ← value? cs
      match skipFiller false rest with
      | ',' :: rest =>
        let (vs, rest) ← items? value? fuel rest
        some (v :: vs, rest)
      | ']' :: rest => some ([v], rest)
      | _ => none

/-- Read a key with its value, in braces. -/
def pair? (value? : Reader Value) : Reader (Key × Value) := fun cs => do
  let (key, rest) ← key? cs
  let rest ← char? '=' rest
  let (v, rest) ← value? (skipSpace rest)
  some ((key, v), skipSpace rest)

/-- Read the pairs of a table in braces and its closing brace; `fuel` bounds their number.
There is no comma after the last pair. -/
def pairs? (value? : Reader Value) : Nat → Reader (List (Key × Value))
  | 0, _ => none
  | fuel + 1, cs => do
    let (pair, rest) ← pair? value? cs
    match rest with
    | ',' :: rest =>
      let (more, rest) ← pairs? value? fuel rest
      some (pair :: more, rest)
    | '\x7d' :: rest => some ([pair], rest)
    | _ => none

/-- Add a pair to a table. -/
def addPair? (entries : Entries) (pair : Key × Value) : Option Entries :=
  Entries.insertAt? pair.1.last pair.2 pair.1.path entries

/-- The table of a list of pairs. -/
def inline? (pairs : List (Key × Value)) : Option Value :=
  (pairs.foldlM addPair? []).map .inline

/-- Read a value that holds no other values. -/
def scalar? : Reader Value := fun cs =>
  match cs with
  | '"' :: _ => (text? cs).map fun (s, rest) => (.string s, rest)
  | '\'' :: _ => (text? cs).map fun (s, rest) => (.string s, rest)
  | 't' :: 'r' :: 'u' :: 'e' :: rest => some (.boolean true, rest)
  | 'f' :: 'a' :: 'l' :: 's' :: 'e' :: rest => some (.boolean false, rest)
  | _ => number? cs

/-- Read a value with at most `depth` levels of arrays and tables; `fuel` bounds the number of
items of each. -/
def value? (fuel : Nat) : Nat → Reader Value
  | 0, cs =>
    match cs with
    | '[' :: _ => none
    | '\x7b' :: _ => none
    | _ => scalar? cs
  | depth + 1, cs =>
    match cs with
    | '[' :: rest =>
      (items? (value? fuel depth) fuel rest).map fun (vs, rest) => (.array vs, rest)
    | '\x7b' :: rest =>
      match skipSpace rest with
      | '\x7d' :: rest => some (.inline [], rest)
      | _ => do
        let (pairs, rest) ← pairs? (value? fuel depth) fuel rest
        let table ← inline? pairs
        some (table, rest)
    | _ => scalar? cs

/-! ### Statements -/

/-- One statement of a document. -/
inductive Statement where
  /-- A key with its value. -/
  | entry (key : Key) (value : Value)
  /-- The header of a table. -/
  | table (key : Key)
  /-- The header of a table in an array of tables. -/
  | element (key : Key)
  deriving Repr

/-- Read a statement with the rest of its line. -/
def statement? (fuel : Nat) : Reader Statement := fun cs =>
  match cs with
  | '[' :: '[' :: rest => do
    let (key, rest) ← key? rest
    let rest ← char? ']' rest
    let rest ← char? ']' rest
    let rest ← endOfLine? rest
    some (.element key, rest)
  | '[' :: rest => do
    let (key, rest) ← key? rest
    let rest ← char? ']' rest
    let rest ← endOfLine? rest
    some (.table key, rest)
  | _ => do
    let (key, rest) ← key? cs
    let rest ← char? '=' rest
    let (v, rest) ← value? fuel maxDepth (skipSpace rest)
    let rest ← endOfLine? rest
    some (.entry key v, rest)

/-- Read the statements of a document; `fuel` bounds the items of a value and `lines` the
number of lines. -/
def statements? (fuel : Nat) : Nat → List Char → Option (List Statement)
  | 0, _ => none
  | lines + 1, cs =>
    match skipSpace cs with
    | [] => some []
    | '#' :: rest => do
      let rest ← endOfLine? ('#' :: rest)
      statements? fuel lines rest
    | cs =>
      match newline? cs with
      | some rest => statements? fuel lines rest
      | none => do
        let (s, rest) ← statement? fuel cs
        let more ← statements? fuel lines rest
        some (s :: more)

/-! ### Documents -/

/-- A document in the middle of being built. -/
structure Document where
  /-- The entries of the root table. -/
  root : Entries
  /-- The path of the table that the last header opened. -/
  current : List String

/-- Carry out a statement. -/
def Document.step? (d : Document) : Statement → Option Document
  | .entry key v => do
    let root ← d.root.descend? (addPair? · (key, v)) d.current
    some { d with root }
  | .table key => do
    let root ← d.root.define? key.path key.last
    some { root, current := key.path ++ [key.last] }
  | .element key => do
    let root ← d.root.append? key.path key.last
    some { root, current := key.path ++ [key.last] }

/-- The root table of a document.  A byte order mark at the start does not count.  Every item
and every line takes a character, so the length of the text is fuel enough. -/
def parse? (text : String) : Option Entries := do
  let cs := match text.toList with
    | '\ufeff' :: cs => cs
    | cs => cs
  let fuel := cs.length + 1
  let statements ← statements? fuel fuel cs
  let document ← statements.foldlM Document.step? { root := [], current := [] }
  some document.root

end Unqualify.Toml
