import Unqualify.Json.Reader
import Mathlib.Data.List.Forall2

/-!
# Well-formed JSON

The grammar of JSON, as a relation between values and the texts that write them.  A value has many
texts: blanks may stand around values and keys, and a character of a string may be written as
itself, by a letter, by its number, or by the numbers of its two halves.

* `Json.WrittenChar` and `Json.WrittenString` say how a character and a string are written;
* `Json.Written` says how a value is written, without the blanks around it, and what stands between
  the brackets of a list or an object;
* `Json.Denotes` is the relation for a whole text.

The text that `Json.pretty` gives is one of those that write the value (`Json.denotes_pretty`).
-/

namespace Unqualify

namespace Json

/-! ### The grammar -/

/-- Only blanks. -/
def Blank (cs : List Char) : Prop := ∀ c ∈ cs, isBlank c = true

/-- Four hexadecimal digits, in either case, and their number. -/
inductive WrittenUnit : Nat → List Char → Prop
  /-- The first digit counts most. -/
  | digits {a b c d : Char} {i j k l : Nat} (ha : hexValue? a = some i) (hb : hexValue? b = some j)
      (hc : hexValue? c = some k) (hd : hexValue? d = some l) :
      WrittenUnit (((i * 16 + j) * 16 + k) * 16 + l) [a, b, c, d]

/-- The letters that stand for a character after a backslash. -/
def letters : List (Char × Char) :=
  [('"', '"'), ('\\', '\\'), ('/', '/'), ('b', '\x08'), ('f', '\x0c'), ('n', '\n'), ('r', '\r'),
    ('t', '\t')]

/-- A character inside a string. -/
inductive WrittenChar : Char → List Char → Prop
  /-- As itself, if it is no quote, no backslash and no control character. -/
  | itself {c : Char} (hquote : c ≠ '"') (hbackslash : c ≠ '\\') (hcontrol : 0x20 ≤ c.toNat) :
      WrittenChar c [c]
  /-- By a letter. -/
  | letter {letter c : Char} (h : (letter, c) ∈ letters) : WrittenChar c ['\\', letter]
  /-- By its number. -/
  | number {c : Char} {ds : List Char} (h : WrittenUnit c.toNat ds) :
      WrittenChar c ('\\' :: 'u' :: ds)
  /-- By the numbers of its halves, if it lies outside the basic plane. -/
  | halves {c : Char} {high low : Nat} {ds ds' : List Char} (h : WrittenUnit high ds)
      (h' : WrittenUnit low ds') (hhigh : 0xd800 ≤ high ∧ high ≤ 0xdbff)
      (hlow : 0xdc00 ≤ low ∧ low ≤ 0xdfff)
      (hc : c.toNat = 0x10000 + (high - 0xd800) * 0x400 + (low - 0xdc00)) :
      WrittenChar c ('\\' :: 'u' :: (ds ++ '\\' :: 'u' :: ds'))

/-- A string with its quotes, written character by character. -/
def WrittenString (s : String) (cs : List Char) : Prop :=
  ∃ parts, List.Forall₂ WrittenChar s.toList parts ∧ cs = '"' :: (parts.flatten ++ ['"'])

/-- A value, or what stands between brackets if anything does. -/
inductive Part where
  /-- A value. -/
  | value (j : Json)
  /-- The items of a list. -/
  | items (items : List Json)
  /-- The fields of an object. -/
  | fields (fields : List (String × Json))

/-- **The grammar of values.** -/
inductive Written : Part → List Char → Prop
  | null : Written (.value null) ['n', 'u', 'l', 'l']
  | true : Written (.value (bool true)) ['t', 'r', 'u', 'e']
  | false : Written (.value (bool false)) ['f', 'a', 'l', 's', 'e']
  /-- A number has no sign, no fraction and no leading zero. -/
  | num (n : Nat) : Written (.value (num n)) (Nat.toDigits 10 n)
  | str {s : String} {cs : List Char} (h : WrittenString s cs) : Written (.value (str s)) cs
  | emptyList {b : List Char} (hb : Blank b) : Written (.value (arr [])) ('[' :: (b ++ [']']))
  | list {items : List Json} {cs : List Char} (h : Written (.items items) cs) :
      Written (.value (arr items)) ('[' :: (cs ++ [']']))
  | emptyObject {b : List Char} (hb : Blank b) :
      Written (.value (obj [])) ('\x7b' :: (b ++ ['\x7d']))
  | object {fields : List (String × Json)} {cs : List Char} (h : Written (.fields fields) cs) :
      Written (.value (obj fields)) ('\x7b' :: (cs ++ ['\x7d']))
  /-- The last item. -/
  | item {j : Json} {b cs b' : List Char} (hb : Blank b) (h : Written (.value j) cs)
      (hb' : Blank b') : Written (.items [j]) (b ++ (cs ++ b'))
  /-- An item before others. -/
  | items {j : Json} {items : List Json} {b cs b' rest : List Char} (hb : Blank b)
      (h : Written (.value j) cs) (hb' : Blank b') (hrest : Written (.items items) rest) :
      Written (.items (j :: items)) (b ++ (cs ++ (b' ++ ',' :: rest)))
  /-- The last field. -/
  | field {key : String} {j : Json} {b₁ ks b₂ b₃ cs b₄ : List Char} (h₁ : Blank b₁)
      (hkey : WrittenString key ks) (h₂ : Blank b₂) (h₃ : Blank b₃) (h : Written (.value j) cs)
      (h₄ : Blank b₄) :
      Written (.fields [(key, j)]) (b₁ ++ (ks ++ (b₂ ++ ':' :: (b₃ ++ (cs ++ b₄)))))
  /-- A field before others. -/
  | fields {key : String} {j : Json} {fields : List (String × Json)}
      {b₁ ks b₂ b₃ cs b₄ rest : List Char} (h₁ : Blank b₁) (hkey : WrittenString key ks)
      (h₂ : Blank b₂) (h₃ : Blank b₃) (h : Written (.value j) cs) (h₄ : Blank b₄)
      (hrest : Written (.fields fields) rest) :
      Written (.fields ((key, j) :: fields))
        (b₁ ++ (ks ++ (b₂ ++ ':' :: (b₃ ++ (cs ++ (b₄ ++ ',' :: rest))))))

/-- The whole text writes a value, with blanks around it. -/
def Denotes (text : String) (j : Json) : Prop :=
  ∃ b cs b', text.toList = b ++ (cs ++ b') ∧ Blank b ∧ Written (.value j) cs ∧ Blank b'

/-! ### The printer writes it -/

theorem blank_nil : Blank [] := by simp [Blank]

theorem blank_space : Blank [' '] := by simp [Blank, isBlank]

theorem blank_lineStart (level : Nat) : Blank (lineStart level) := by
  intro c hc
  rcases List.mem_cons.1 hc with rfl | hc
  · rfl
  · rw [(List.mem_replicate.1 hc).2]
    rfl

theorem hexValue?_hexDigit {n : Nat} (h : n < 16) : hexValue? (hexDigit n) = some n := by
  revert h n
  decide

/-- A control character is written by its number, which two digits are enough for. -/
theorem writtenUnit_control {c : Char} (h : c.toNat < 0x20) :
    WrittenUnit c.toNat ['0', '0', hexDigit (c.toNat / 16), hexDigit (c.toNat % 16)] := by
  have hunit := WrittenUnit.digits (show hexValue? '0' = some 0 from rfl)
    (show hexValue? '0' = some 0 from rfl) (hexValue?_hexDigit (n := c.toNat / 16) (by omega))
    (hexValue?_hexDigit (n := c.toNat % 16) (by omega))
  have hsum : ((0 * 16 + 0) * 16 + c.toNat / 16) * 16 + c.toNat % 16 = c.toNat := by omega
  rwa [hsum] at hunit

theorem writtenChar_escape (c : Char) : WrittenChar c (escape c) := by
  unfold escape
  split
  case h_8 hquote hbackslash _ _ _ _ _ =>
    split_ifs with hcontrol
    · exact .number (writtenUnit_control hcontrol)
    · exact .itself hquote hbackslash (by omega)
  all_goals exact .letter (by decide)

theorem writtenString_quote (s : String) : WrittenString s (quote s) := by
  refine ⟨s.toList.map escape, ?_, by rw [quote, List.flatMap_def]⟩
  rw [List.forall₂_map_right_iff, List.forall₂_same]
  exact fun c _ => writtenChar_escape c

mutual

theorem written_prettyAt (level : Nat) : (j : Json) → Written (.value j) (prettyAt level j)
  | null => .null
  | bool true => .true
  | bool false => .false
  | num n => .num n
  | str s => .str (writtenString_quote s)
  | arr [] => .emptyList blank_nil
  | arr (item :: items) => by
    have hitems := written_prettyItems (level + 1) (blank_lineStart level) items
      (blank_lineStart (level + 1)) (written_prettyAt (level + 1) item)
    rw [prettyAt]
    simpa using hitems.list
  | obj [] => .emptyObject blank_nil
  | obj ((key, value) :: fields) => by
    have hfields := written_prettyFields (level + 1) (blank_lineStart level) fields
      (blank_lineStart (level + 1)) key (written_prettyAt (level + 1) value)
    rw [prettyAt]
    simpa using hfields.object

theorem written_prettyItems (level : Nat) {b' : List Char} (hb' : Blank b') :
    (items : List Json) → ∀ {b cs : List Char} {j : Json}, Blank b → Written (.value j) cs →
      Written (.items (j :: items)) (b ++ (cs ++ (prettyItems level items ++ b')))
  | [], _, _, _, hb, h => .item hb h hb'
  | item :: items, _, _, _, hb, h => by
    have hrest := written_prettyItems level hb' items (blank_lineStart level)
      (written_prettyAt level item)
    rw [prettyItems]
    simpa using Written.items hb h blank_nil hrest

theorem written_prettyFields (level : Nat) {b' : List Char} (hb' : Blank b') :
    (fields : List (String × Json)) → ∀ {b cs : List Char} {j : Json}, Blank b → (key : String) →
      Written (.value j) cs → Written (.fields ((key, j) :: fields))
        (b ++ (quote key ++ (':' :: ' ' :: (cs ++ (prettyFields level fields ++ b')))))
  | [], _, _, _, hb, key, h => .field hb (writtenString_quote key) blank_nil blank_space h hb'
  | (key', value) :: fields, _, _, _, hb, key, h => by
    have hrest := written_prettyFields level hb' fields (blank_lineStart level) key'
      (written_prettyAt level value)
    rw [prettyFields]
    simpa using Written.fields hb (writtenString_quote key) blank_nil blank_space h blank_nil hrest

end

/-- **Printed JSON is well formed.** -/
theorem denotes_pretty (j : Json) : Denotes j.pretty j :=
  ⟨[], prettyAt 0 j, [], by simp [pretty], blank_nil, written_prettyAt 0 j, blank_nil⟩

end Json

end Unqualify
