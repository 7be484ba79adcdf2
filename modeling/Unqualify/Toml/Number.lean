import Unqualify.Toml.Lexical
import Unqualify.Toml.Value

/-!
# Numbers and dates of TOML

Integers fit into 64 bits with a sign.  A positive float has to be a finite number in double
precision; whether it is, is decided exactly from its digits (`overflows`).  Days are checked
against their month.
-/

namespace Unqualify.Toml

/-! ### Integers -/

/-- Read a digit. -/
def digit? (isDigit : Char → Bool) : Reader Char
  | c :: cs => if isDigit c then some (c, cs) else none
  | [] => none

/-- The further digits of a number, with single underscores between them left out. -/
def moreDigits (isDigit : Char → Bool) : List Char → List Char × List Char
  | '_' :: c :: cs =>
    if isDigit c then
      let (ds, rest) := moreDigits isDigit cs
      (c :: ds, rest)
    else
      ([], '_' :: c :: cs)
  | c :: cs =>
    if isDigit c then
      let (ds, rest) := moreDigits isDigit cs
      (c :: ds, rest)
    else
      ([], c :: cs)
  | [] => ([], [])

/-- Read one or more digits with single underscores between them. -/
def digits? (isDigit : Char → Bool) : Reader (List Char) := fun cs => do
  let (c, cs) ← digit? isDigit cs
  let (ds, rest) := moreDigits isDigit cs
  some (c :: ds, rest)

/-- The number that digits spell in a base.  It stops growing once it needs more than 64
bits: what is beyond them is told apart nowhere. -/
def ofDigits (base : Nat) (ds : List Char) : Nat :=
  ds.foldl (fun n d => if 0xffffffffffffffff < n then n else base * n + (hexDigit? d).getD 0) 0

/-- Read a sign: whether it is a minus. -/
def sign : List Char → Bool × List Char
  | '-' :: cs => (true, cs)
  | '+' :: cs => (false, cs)
  | cs => (false, cs)

/-- Read a decimal integer: its sign and digits.  Only zero starts with a zero. -/
def decimal? : Reader (Bool × List Char) := fun cs =>
  match sign cs with
  | (negative, '0' :: rest) => some ((negative, ['0']), rest)
  | (negative, rest) => (digits? Char.isDigit rest).map fun (ds, rest) => ((negative, ds), rest)

/-- Whether a number fits into 64 bits with a sign. -/
def fits (n : Int) : Bool := -0x8000000000000000 ≤ n && n ≤ 0x7fffffffffffffff

/-- Whether a character is a digit of a base. -/
def isDigitOf (base : Nat) (c : Char) : Bool :=
  (hexDigit? c).any (· < base)

/-- Read an integer, decimal or with a base. -/
def integer? : Reader Value := fun cs =>
  let based (base : Nat) (cs : List Char) : Option (Value × List Char) := do
    let (ds, rest) ← digits? (isDigitOf base) cs
    let n : Int := ofDigits base ds
    if fits n then some (.integer n, rest) else none
  match cs with
  | '0' :: 'x' :: cs => based 16 cs
  | '0' :: 'o' :: cs => based 8 cs
  | '0' :: 'b' :: cs => based 2 cs
  | cs => do
    let ((negative, ds), rest) ← decimal? cs
    let n : Int := ofDigits 10 ds
    let n := if negative then -n else n
    if fits n then some (.integer n, rest) else none

/-! ### Floats -/

/-- The digits of the least number too large for double precision: half a unit above the
greatest double, `(2 ^ 53 - 1) * 2 ^ 971`. -/
def overflowDigits : List Char := Nat.toDigits 10 ((Nat.pow 2 54 - 1) * Nat.pow 2 970)

/-- Whether a fraction is less than another, both given by their digits after the point. -/
def fractionLess : List Char → List Char → Bool
  | [], bs => bs.any (· != '0')
  | _ :: _, [] => false
  | a :: as, b :: bs => if a = b then fractionLess as bs else a < b

/-- Whether the number that `digits` spell, times ten to the power `exponent`, is too large for
double precision.  Without leading zeros, the places before the point decide unless they are
those of the limit. -/
def overflows (digits : List Char) (exponent : Int) : Bool :=
  let significant := digits.dropWhile (· == '0')
  let places : Int := significant.length + exponent
  let limitPlaces : Int := overflowDigits.length
  if significant.isEmpty || places < limitPlaces then false
  else places > limitPlaces || !fractionLess significant overflowDigits

/-- Read a fraction: the digits after a point. -/
def fraction? : Reader (List Char)
  | '.' :: cs => digits? Char.isDigit cs
  | _ => none

/-- Read an exponent. -/
def exponent? : Reader Int := fun cs =>
  match cs with
  | c :: cs =>
    if c = 'e' ∨ c = 'E' then do
      let (negative, cs) := sign cs
      let (ds, rest) ← digits? Char.isDigit cs
      let n : Int := ofDigits 10 ds
      some (if negative then -n else n, rest)
    else
      none
  | [] => none

/-- Read a decimal float: an integer with a fraction, an exponent or both. -/
def decimalFloat? : Reader Value := fun cs => do
  let ((negative, whole), rest) ← decimal? cs
  let (fraction, exponent, rest) ←
    match fraction? rest with
    | some (ds, rest) =>
      match exponent? rest with
      | some (e, rest) => some (ds, e, rest)
      | none => some (ds, 0, rest)
    | none => (exponent? rest).map fun (e, rest) => ([], e, rest)
  let tooLarge := overflows (whole ++ fraction) (exponent - fraction.length)
  if !negative && tooLarge then none else some (.float, rest)

/-- Read an infinity or a value that is not a number. -/
def specialFloat? : Reader Value := fun cs =>
  match (sign cs).2 with
  | 'i' :: 'n' :: 'f' :: rest => some (.float, rest)
  | 'n' :: 'a' :: 'n' :: rest => some (.float, rest)
  | _ => none

/-! ### Dates and times -/

/-- Read a number of exactly so many digits within bounds. -/
def field? (digits least greatest : Nat) : Reader Nat := fun cs =>
  let ds := cs.take digits
  let n := ofDigits 10 ds
  if ds.length = digits ∧ ds.all Char.isDigit ∧ least ≤ n ∧ n ≤ greatest
  then some (n, cs.drop digits)
  else none

/-- Read one given character. -/
def char? (c : Char) : List Char → Option (List Char)
  | d :: cs => if d = c then some cs else none
  | [] => none

/-- The number of days of a month. -/
def daysIn (year month : Nat) : Nat :=
  match month with
  | 2 => if year % 4 = 0 ∧ (year % 100 ≠ 0 ∨ year % 400 = 0) then 29 else 28
  | 4 => 30
  | 6 => 30
  | 9 => 30
  | 11 => 30
  | _ => 31

/-- Read a date. -/
def date? (cs : List Char) : Option (List Char) := do
  let (year, cs) ← field? 4 0 9999 cs
  let cs ← char? '-' cs
  let (month, cs) ← field? 2 1 12 cs
  let cs ← char? '-' cs
  let (_, cs) ← field? 2 1 (daysIn year month) cs
  some cs

/-- Read a time of day, maybe with a fraction of a second. -/
def time? (cs : List Char) : Option (List Char) := do
  let (_, cs) ← field? 2 0 23 cs
  let cs ← char? ':' cs
  let (_, cs) ← field? 2 0 59 cs
  let cs ← char? ':' cs
  let (_, cs) ← field? 2 0 60 cs
  match cs with
  | '.' :: d :: rest => if d.isDigit then some (rest.dropWhile Char.isDigit) else some cs
  | _ => some cs

/-- Read an offset from universal time. -/
def offset? (cs : List Char) : Option (List Char) :=
  match cs with
  | c :: rest =>
    if c = 'Z' ∨ c = 'z' then
      some rest
    else if c = '+' ∨ c = '-' then do
      let (_, rest) ← field? 2 0 23 rest
      let rest ← char? ':' rest
      let (_, rest) ← field? 2 0 59 rest
      some rest
    else
      none
  | [] => none

/-- Read what may follow a date: a time of day, maybe with an offset. -/
def timeAfterDate (cs : List Char) : List Char :=
  match cs with
  | c :: rest =>
    if c = 'T' ∨ c = 't' ∨ c = ' ' then
      match time? rest with
      | some rest => (offset? rest).getD rest
      | none => cs
    else
      cs
  | [] => []

/-- Read a date, a time or both. -/
def datetime? : Reader Value := fun cs =>
  match date? cs with
  | some rest => some (.datetime, timeAfterDate rest)
  | none => (time? cs).map fun rest => (.datetime, rest)

/-- Read a number or a date. -/
def number? : Reader Value := fun cs =>
  (datetime? cs).or ((decimalFloat? cs).or ((specialFloat? cs).or (integer? cs)))

end Unqualify.Toml
