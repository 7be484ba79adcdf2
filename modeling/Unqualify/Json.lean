/-!
# JSON

JSON values, without fractions, and their text over several lines: two blanks for each level,
one item or field to a line, and nothing between the brackets of an empty list or object.
Characters outside ASCII stand as themselves.
-/

namespace Unqualify

/-- A JSON value. -/
inductive Json where
  /-- The value `null`. -/
  | null
  /-- A boolean. -/
  | bool (b : Bool)
  /-- A natural number. -/
  | num (n : Nat)
  /-- A string. -/
  | str (s : String)
  /-- A list. -/
  | arr (items : List Json)
  /-- An object; its fields are written in this order. -/
  | obj (fields : List (String × Json))
  deriving Repr

namespace Json

/-- A hexadecimal digit in lower case. -/
def hexDigit (n : Nat) : Char :=
  if n < 10 then Char.ofNat ('0'.toNat + n) else Char.ofNat ('a'.toNat + (n - 10))

/-- How a character is written inside a string. -/
def escape (c : Char) : List Char :=
  match c with
  | '"' => ['\\', '"']
  | '\\' => ['\\', '\\']
  | '\n' => ['\\', 'n']
  | '\r' => ['\\', 'r']
  | '\t' => ['\\', 't']
  | '\x08' => ['\\', 'b']
  | '\x0c' => ['\\', 'f']
  | c =>
    if c.toNat < 0x20 then
      ['\\', 'u', '0', '0', hexDigit (c.toNat / 16), hexDigit (c.toNat % 16)]
    else
      [c]

/-- A string with its quotes. -/
def quote (s : String) : List Char :=
  '"' :: (s.toList.flatMap escape ++ ['"'])

/-- The start of a line at some level. -/
def lineStart (level : Nat) : List Char :=
  '\n' :: List.replicate (2 * level) ' '

mutual

/-- The text of a value at some level. -/
def prettyAt (level : Nat) : Json → List Char
  | null => "null".toList
  | bool b => if b then "true".toList else "false".toList
  | num n => Nat.toDigits 10 n
  | str s => quote s
  | arr [] => ['[', ']']
  | arr (item :: items) =>
    '[' :: (lineStart (level + 1) ++ (prettyAt (level + 1) item ++
      (prettyItems (level + 1) items ++ (lineStart level ++ [']']))))
  | obj [] => ['\x7b', '\x7d']
  | obj ((key, value) :: fields) =>
    '\x7b' :: (lineStart (level + 1) ++ (quote key ++ (':' :: ' ' :: (prettyAt (level + 1) value ++
      (prettyFields (level + 1) fields ++ (lineStart level ++ ['\x7d']))))))

/-- The text of the further items of a list. -/
def prettyItems (level : Nat) : List Json → List Char
  | [] => []
  | item :: items =>
    ',' :: (lineStart level ++ (prettyAt level item ++ prettyItems level items))

/-- The text of the further fields of an object. -/
def prettyFields (level : Nat) : List (String × Json) → List Char
  | [] => []
  | (key, value) :: fields =>
    ',' :: (lineStart level ++ (quote key ++ (':' :: ' ' :: (prettyAt level value ++
      prettyFields level fields))))

end

/-- The text of a value. -/
def pretty (j : Json) : String := String.ofList (prettyAt 0 j)

end Json

end Unqualify
