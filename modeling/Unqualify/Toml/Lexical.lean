/-!
# Lexical grammar of TOML

Blanks, comments and strings.  A reader takes the characters still to be read and gives what
it read together with the rest, or nothing if the text does not fit.
-/

namespace Unqualify.Toml

/-- A reader: what it read and the characters after it. -/
abbrev Reader (α : Type) := List Char → Option (α × List Char)

/-- A space or a tab. -/
def isSpace (c : Char) : Bool := c == ' ' || c == '\t'

/-- A character that may stand in a comment. -/
def isPrintable (c : Char) : Bool :=
  c == '\t' || (0x20 ≤ c.toNat && c.toNat ≤ 0x7e) || 0x80 ≤ c.toNat

/-- A character that may stand as itself in a string between double quotes. -/
def isPlain (c : Char) : Bool := isPrintable c && c != '"' && c != '\\'

/-- A character that may stand in a string between single quotes. -/
def isLiteral (c : Char) : Bool := isPrintable c && c != '\''

/-- Skip spaces and tabs. -/
def skipSpace (cs : List Char) : List Char := cs.dropWhile isSpace

/-- Read a line break. -/
def newline? : List Char → Option (List Char)
  | '\n' :: cs => some cs
  | '\r' :: '\n' :: cs => some cs
  | _ => none

/-- Skip a comment, if there is one, up to the end of its line. -/
def skipComment : List Char → List Char
  | '#' :: cs => cs.dropWhile isPrintable
  | cs => cs

/-- Skip blanks and line breaks. -/
def skipBlank : List Char → List Char
  | ' ' :: cs => skipBlank cs
  | '\t' :: cs => skipBlank cs
  | '\n' :: cs => skipBlank cs
  | '\r' :: '\n' :: cs => skipBlank cs
  | cs => cs

/-- Skip blanks, line breaks and comments.  `inComment` says whether a comment has begun; it
has to end with a line break. -/
def skipFiller (inComment : Bool) : List Char → List Char
  | [] => []
  | '\n' :: cs => skipFiller false cs
  | '\r' :: '\n' :: cs => skipFiller false cs
  | c :: cs =>
    if inComment then (if isPrintable c then skipFiller true cs else c :: cs)
    else if isSpace c then skipFiller false cs
    else if c = '#' then skipFiller true cs
    else c :: cs

/-- Read the rest of a line: spaces, maybe a comment, then a line break or the end. -/
def endOfLine? (cs : List Char) : Option (List Char) :=
  match skipComment (skipSpace cs) with
  | [] => some []
  | rest => newline? rest

/-! ### Strings -/

/-- The value of a hexadecimal digit. -/
def hexDigit? (c : Char) : Option Nat :=
  if c.isDigit then some (c.toNat - '0'.toNat)
  else if 'a' ≤ c ∧ c ≤ 'f' then some (c.toNat - 'a'.toNat + 10)
  else if 'A' ≤ c ∧ c ≤ 'F' then some (c.toNat - 'A'.toNat + 10)
  else none

/-- Read the code point of an escape with a number of hexadecimal digits; it has to be a
character. -/
def codePoint? (digits : Nat) : Reader Char := fun cs => do
  let hex ← (cs.take digits).mapM hexDigit?
  let n := hex.foldl (fun n d => 16 * n + d) 0
  if hex.length = digits ∧ n.isValidChar then
    some (Char.ofNat n, cs.drop digits)
  else
    none

/-- Read an escape, after its backslash. -/
def escape? : Reader Char
  | 'b' :: cs => some ('\x08', cs)
  | 't' :: cs => some ('\t', cs)
  | 'n' :: cs => some ('\n', cs)
  | 'f' :: cs => some ('\x0c', cs)
  | 'r' :: cs => some ('\r', cs)
  | '"' :: cs => some ('"', cs)
  | '\\' :: cs => some ('\\', cs)
  | 'u' :: cs => codePoint? 4 cs
  | 'U' :: cs => codePoint? 8 cs
  | _ => none

theorem codePoint?_length_le {digits : Nat} {cs rest : List Char} {c : Char}
    (h : codePoint? digits cs = some (c, rest)) : rest.length ≤ cs.length := by
  simp only [codePoint?, Option.bind_eq_bind, Option.bind_eq_some_iff] at h
  obtain ⟨hex, -, h⟩ := h
  split at h
  · simp only [Option.some.injEq, Prod.mk.injEq] at h
    obtain ⟨-, rfl⟩ := h
    simp
  · cases h

/-- An escape takes at least one character. -/
theorem escape?_length_lt {cs rest : List Char} {c : Char} (h : escape? cs = some (c, rest)) :
    rest.length < cs.length := by
  unfold escape? at h
  split at h
  case h_8 => simpa using Nat.lt_succ_of_le (codePoint?_length_le h)
  case h_9 => simpa using Nat.lt_succ_of_le (codePoint?_length_le h)
  all_goals simp_all

/-- Read the rest of a string between double quotes; `front` is what was read, in reverse. -/
def basicString? (front : List Char) (cs : List Char) : Option (List Char × List Char) :=
  match cs with
  | [] => none
  | '"' :: cs => some (front.reverse, cs)
  | '\\' :: cs =>
    match h : escape? cs with
    | none => none
    | some (c, rest) =>
      have := escape?_length_lt h
      basicString? (c :: front) rest
  | c :: cs => if isPlain c then basicString? (c :: front) cs else none
termination_by cs.length
decreasing_by
  all_goals simp only [List.length_cons]; omega

/-- Read the rest of a string between single quotes. -/
def literalString? : Reader (List Char) := fun cs =>
  match cs.dropWhile isLiteral with
  | '\'' :: rest => some (cs.takeWhile isLiteral, rest)
  | _ => none

/-- Read what stands at a quote inside a string with threefold quotes: one or two quotes are
text, three end the string, and up to two more before those are text. -/
def quotes? (quote : Char) (cs : List Char) : Option (List Char × Bool × List Char) :=
  let run := cs.takeWhile (· == quote)
  let rest := cs.dropWhile (· == quote)
  if run.length ≤ 2 then some (run, false, rest)
  else if run.length ≤ 5 then some (run.drop 3, true, rest)
  else none

theorem newline?_length_lt {cs rest : List Char} (h : newline? cs = some rest) :
    rest.length < cs.length := by
  unfold newline? at h
  split at h
  · cases h
    simp
  · cases h
    simp only [List.length_cons]
    omega
  · cases h

theorem skipSpace_length_le (cs : List Char) : (skipSpace cs).length ≤ cs.length :=
  (List.dropWhile_sublist isSpace).length_le

theorem skipBlank_length_le (cs : List Char) : (skipBlank cs).length ≤ cs.length := by
  fun_induction skipBlank cs <;> simp_all <;> omega

/-- At a quote, at least that quote is read. -/
theorem quotes?_length_lt {quote : Char} {cs text rest : List Char} {ended : Bool}
    (h : quotes? quote (quote :: cs) = some (text, ended, rest)) :
    rest.length < (quote :: cs).length := by
  have hrest : rest = cs.dropWhile (· == quote) := by
    simp only [quotes?, List.dropWhile_cons, beq_self_eq_true, if_true] at h
    split at h
    · simp_all
    · split at h
      · simp_all
      · cases h
  have := (List.dropWhile_sublist (· == quote) (l := cs)).length_le
  simp only [hrest, List.length_cons]
  omega

/-- Read the rest of a string between threefold double quotes; `front` is what was read, in
reverse.  A backslash at the end of a line swallows the blanks and line breaks after it. -/
def longString? (front : List Char) (cs : List Char) : Option (List Char × List Char) :=
  match cs with
  | [] => none
  | '"' :: cs =>
    match h : quotes? '"' ('"' :: cs) with
    | none => none
    | some (text, true, rest) => some (front.reverse ++ text, rest)
    | some (text, false, rest) =>
      have := quotes?_length_lt h
      longString? (text.reverse ++ front) rest
  | '\\' :: cs =>
    match hl : newline? (skipSpace cs) with
    | some rest =>
      have := newline?_length_lt hl
      have := skipSpace_length_le cs
      have := skipBlank_length_le rest
      longString? front (skipBlank rest)
    | none =>
      match he : escape? cs with
      | none => none
      | some (c, rest) =>
        have := escape?_length_lt he
        longString? (c :: front) rest
  | c :: cs =>
    match h : newline? (c :: cs) with
    | some rest =>
      have := newline?_length_lt h
      longString? ('\n' :: front) rest
    | none => if isPlain c then longString? (c :: front) cs else none
termination_by cs.length
decreasing_by
  all_goals simp only [List.length_cons] at *; omega

/-- Read the rest of a string between threefold single quotes; `front` is what was read, in
reverse. -/
def longLiteral? (front : List Char) (cs : List Char) : Option (List Char × List Char) :=
  match cs with
  | [] => none
  | '\'' :: cs =>
    match h : quotes? '\'' ('\'' :: cs) with
    | none => none
    | some (text, true, rest) => some (front.reverse ++ text, rest)
    | some (text, false, rest) =>
      have := quotes?_length_lt h
      longLiteral? (text.reverse ++ front) rest
  | c :: cs =>
    match h : newline? (c :: cs) with
    | some rest =>
      have := newline?_length_lt h
      longLiteral? ('\n' :: front) rest
    | none => if isLiteral c then longLiteral? (c :: front) cs else none
termination_by cs.length
decreasing_by
  all_goals simp only [List.length_cons] at *; omega

/-- Read a string of one line. -/
def shortText? : Reader String
  | '"' :: cs => (basicString? [] cs).map fun (text, rest) => (.ofList text, rest)
  | '\'' :: cs => (literalString? cs).map fun (text, rest) => (.ofList text, rest)
  | _ => none

/-- Read a string of any kind.  A line break right after threefold quotes does not count. -/
def text? : Reader String
  | '"' :: '"' :: '"' :: cs =>
    let body := (newline? cs).getD cs
    (longString? [] body).map fun (text, rest) => (.ofList text, rest)
  | '\'' :: '\'' :: '\'' :: cs =>
    let body := (newline? cs).getD cs
    (longLiteral? [] body).map fun (text, rest) => (.ofList text, rest)
  | cs => shortText? cs

end Unqualify.Toml
