import Unqualify.Json

/-!
# Reading JSON

The reader for the values that `Json` has: every number is a natural number, so fractions,
exponents and signs are refused.  Blanks may stand between tokens, and a character outside the
basic plane may be written as two escaped halves.

`Json.parse?` reads a whole text; the functions before it read one part and give the rest.
-/

namespace Unqualify

namespace Json

/-! ### Blanks and numbers -/

/-- Whether a character may stand between tokens. -/
def isBlank (c : Char) : Bool :=
  c == ' ' || c == '\n' || c == '\r' || c == '\t'

/-- Drop the blanks at the front. -/
def skipBlanks (cs : List Char) : List Char := cs.dropWhile isBlank

/-- The number that decimal digits write. -/
def ofDigits (ds : List Char) : Nat :=
  ds.foldl (fun n d => 10 * n + (d.toNat - '0'.toNat)) 0

/-- Read a natural number.  Only zero itself starts with a zero. -/
def readNat? (cs : List Char) : Option (Nat × List Char) :=
  let ds := cs.takeWhile Char.isDigit
  if ds = [] ∨ (ds.head? = some '0' ∧ ds ≠ ['0']) then none
  else some (ofDigits ds, cs.dropWhile Char.isDigit)

/-! ### Strings -/

/-- The value of a hexadecimal digit in either case. -/
def hexValue? (c : Char) : Option Nat :=
  if c.isDigit then some (c.toNat - '0'.toNat)
  else if 'a' ≤ c ∧ c ≤ 'f' then some (c.toNat - 'a'.toNat + 10)
  else if 'A' ≤ c ∧ c ≤ 'F' then some (c.toNat - 'A'.toNat + 10)
  else none

/-- Read four hexadecimal digits. -/
def readUnit? : List Char → Option (Nat × List Char)
  | a :: b :: c :: d :: cs => do
    let a ← hexValue? a
    let b ← hexValue? b
    let c ← hexValue? c
    let d ← hexValue? d
    some (((a * 16 + b) * 16 + c) * 16 + d, cs)
  | _ => none

/-- Read the second half of a character whose first half is `high`. -/
def readLowHalf? (high : Nat) : List Char → Option (Char × List Char)
  | '\\' :: 'u' :: cs =>
    match readUnit? cs with
    | some (low, rest) =>
      if 0xdc00 ≤ low ∧ low ≤ 0xdfff then
        some (Char.ofNat (0x10000 + (high - 0xd800) * 0x400 + (low - 0xdc00)), rest)
      else
        none
    | none => none
  | _ => none

/-- Read what follows a backslash. -/
def readEscape? : List Char → Option (Char × List Char)
  | '"' :: cs => some ('"', cs)
  | '\\' :: cs => some ('\\', cs)
  | '/' :: cs => some ('/', cs)
  | 'b' :: cs => some ('\x08', cs)
  | 'f' :: cs => some ('\x0c', cs)
  | 'n' :: cs => some ('\n', cs)
  | 'r' :: cs => some ('\r', cs)
  | 't' :: cs => some ('\t', cs)
  | 'u' :: cs =>
    match readUnit? cs with
    | some (unit, rest) =>
      if unit < 0xd800 ∨ 0xdfff < unit then some (Char.ofNat unit, rest)
      else if unit < 0xdc00 then readLowHalf? unit rest
      else none
    | none => none
  | _ => none

theorem readUnit?_length_lt {cs rest : List Char} {n : Nat}
    (h : readUnit? cs = some (n, rest)) : rest.length < cs.length := by
  unfold readUnit? at h
  split at h
  · simp only [bind, Option.bind_eq_some_iff, Option.some.injEq, Prod.mk.injEq] at h
    obtain ⟨_, _, _, _, _, _, _, _, _, rfl⟩ := h
    simp only [List.length_cons]
    omega
  · simp at h

theorem readLowHalf?_length_lt {high : Nat} {cs rest : List Char} {c : Char}
    (h : readLowHalf? high cs = some (c, rest)) : rest.length < cs.length := by
  unfold readLowHalf? at h
  split at h
  · split at h
    · rename_i hu
      split at h
      · have := readUnit?_length_lt hu
        simp only [Option.some.injEq, Prod.mk.injEq] at h
        obtain ⟨_, rfl⟩ := h
        simp only [List.length_cons]
        omega
      · simp at h
    · simp at h
  · simp at h

/-- An escape takes at least one character. -/
theorem readEscape?_length_lt {cs rest : List Char} {c : Char}
    (h : readEscape? cs = some (c, rest)) : rest.length < cs.length := by
  unfold readEscape? at h
  split at h
  case h_9 =>
    split at h
    · rename_i hu
      have := readUnit?_length_lt hu
      split at h
      · simp only [Option.some.injEq, Prod.mk.injEq] at h
        obtain ⟨_, rfl⟩ := h
        simp only [List.length_cons]
        omega
      · split at h
        · have := readLowHalf?_length_lt h
          simp only [List.length_cons]
          omega
        · simp at h
    · simp at h
  all_goals simp_all

/-- Read the rest of a string after its first quote; `front` is what was read, in reverse. -/
def readString? (front cs : List Char) : Option (String × List Char) :=
  match cs with
  | [] => none
  | '"' :: cs => some (String.ofList front.reverse, cs)
  | '\\' :: cs =>
    match h : readEscape? cs with
    | none => none
    | some (c, rest) =>
      have := readEscape?_length_lt h
      readString? (c :: front) rest
  | c :: cs => if c.toNat < 0x20 then none else readString? (c :: front) cs
termination_by cs.length
decreasing_by
  all_goals simp only [List.length_cons]; omega

/-! ### Values -/

mutual

/-- Read a value.  The fuel bounds the number of steps. -/
def readValue? (fuel : Nat) (cs : List Char) : Option (Json × List Char) :=
  match fuel with
  | 0 => none
  | fuel + 1 =>
    match skipBlanks cs with
    | 'n' :: 'u' :: 'l' :: 'l' :: cs => some (null, cs)
    | 't' :: 'r' :: 'u' :: 'e' :: cs => some (bool true, cs)
    | 'f' :: 'a' :: 'l' :: 's' :: 'e' :: cs => some (bool false, cs)
    | '"' :: cs => (readString? [] cs).map fun (s, cs) => (str s, cs)
    | '[' :: cs =>
      match skipBlanks cs with
      | ']' :: cs => some (arr [], cs)
      | cs => readItems? fuel [] cs
    | '\x7b' :: cs =>
      match skipBlanks cs with
      | '\x7d' :: cs => some (obj [], cs)
      | cs => readFields? fuel [] cs
    | cs => (readNat? cs).map fun (n, cs) => (num n, cs)

/-- Read the items of a list to its end; `front` is what was read, in reverse. -/
def readItems? (fuel : Nat) (front : List Json) (cs : List Char) : Option (Json × List Char) :=
  match fuel with
  | 0 => none
  | fuel + 1 =>
    match readValue? fuel cs with
    | none => none
    | some (item, cs) =>
      match skipBlanks cs with
      | ',' :: cs => readItems? fuel (item :: front) cs
      | ']' :: cs => some (arr (item :: front).reverse, cs)
      | _ => none

/-- Read the fields of an object to its end; `front` is what was read, in reverse. -/
def readFields? (fuel : Nat) (front : List (String × Json)) (cs : List Char) :
    Option (Json × List Char) :=
  match fuel with
  | 0 => none
  | fuel + 1 =>
    match skipBlanks cs with
    | '"' :: cs =>
      match readString? [] cs with
      | none => none
      | some (key, cs) =>
        match skipBlanks cs with
        | ':' :: cs =>
          match readValue? fuel cs with
          | none => none
          | some (value, cs) =>
            match skipBlanks cs with
            | ',' :: cs => readFields? fuel ((key, value) :: front) cs
            | '\x7d' :: cs => some (obj ((key, value) :: front).reverse, cs)
            | _ => none
        | _ => none
    | _ => none

end

/-- The value that a whole text writes.  Every step but one takes a character, and a step into
a value takes none, so twice the length is fuel enough. -/
def parse? (text : String) : Option Json :=
  let cs := text.toList
  match readValue? (2 * cs.length + 2) cs with
  | some (j, rest) => if skipBlanks rest = [] then some j else none
  | none => none

/-! ### Parts of a value -/

/-- The value of an object's field. -/
def get? (j : Json) (key : String) : Option Json :=
  match j with
  | obj fields => fields.lookup key
  | _ => none

/-- The items of a list. -/
def items? : Json → Option (List Json)
  | arr items => some items
  | _ => none

/-- The text of a string. -/
def str? : Json → Option String
  | str s => some s
  | _ => none

/-- The value of a number. -/
def nat? : Json → Option Nat
  | num n => some n
  | _ => none

end Json

end Unqualify
