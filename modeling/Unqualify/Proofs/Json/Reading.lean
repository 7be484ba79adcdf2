import Unqualify.Proofs.Json.Written

/-!
# Reading well-formed JSON

The reader accepts every text of the grammar and gives the value that the text writes
(`Json.parse?_of_denotes`), so a text writes one value at most, and a printed value is read back
(`Json.parse?_pretty`).

Each part of the grammar is followed by something: what is left of the text.  A part is read off the
front and the rest is given back as it was, whatever it is; only a number needs to know that no
digit follows.  The fuel for a part is counted in its own characters, so that it does not depend on
the rest.
-/

namespace Unqualify

namespace Json

variable {b cs rest : List Char} {fuel : Nat}

/-! ### Blanks -/

theorem skipBlanks_append (hb : Blank b) (cs : List Char) :
    skipBlanks (b ++ cs) = skipBlanks cs :=
  List.dropWhile_append_of_pos hb

theorem skipBlanks_eq_nil (hb : Blank b) : skipBlanks b = [] := by
  rw [← List.append_nil b, skipBlanks_append hb]
  rfl

theorem skipBlanks_cons {c : Char} (hc : isBlank c = false) (cs : List Char) :
    skipBlanks (c :: cs) = c :: cs := by
  rw [skipBlanks, List.dropWhile_cons_of_neg (by simp [hc])]

/-- Blanks in front of a mark. -/
theorem skipBlanks_mark (hb : Blank b) {c : Char} (hc : isBlank c = false) (cs : List Char) :
    skipBlanks (b ++ c :: cs) = c :: cs := by
  rw [skipBlanks_append hb, skipBlanks_cons hc]

/-! ### Numbers -/

/-- What follows a number is no digit. -/
def NoDigit (cs : List Char) : Prop := ∀ c ∈ cs.head?, c.isDigit = false

/-- Only zero itself starts with a zero. -/
theorem toDigits_of_head?_eq {n : Nat} (h : (Nat.toDigits 10 n).head? = some '0') :
    Nat.toDigits 10 n = ['0'] := by
  induction n using Nat.strongRecOn with
  | ind n ih =>
    by_cases hn : n < 10
    · rw [Nat.toDigits_of_lt_base hn] at h ⊢
      simpa using h
    · rw [Nat.toDigits_of_base_le (by decide) (by omega),
        List.head?_append_of_ne_nil _ Nat.toDigits_ne_nil] at h
      have hzero := congrArg (Nat.ofDigitChars 10 · 0) (ih (n / 10) (by omega) h)
      rw [Nat.ofDigitChars_ten_toDigits] at hzero
      have hdiv : n / 10 = 0 := hzero
      omega

theorem ofDigits_toDigits (n : Nat) : ofDigits (Nat.toDigits 10 n) = n :=
  Nat.ofDigitChars_ten_toDigits

theorem isDigit_of_mem_toDigits {n : Nat} : ∀ c ∈ Nat.toDigits 10 n, c.isDigit = true :=
  fun _ hc => Nat.isDigit_of_mem_toDigits (by decide) (by decide) hc

theorem exists_toDigits_eq (n : Nat) :
    ∃ d ds, Nat.toDigits 10 n = d :: ds ∧ d.isDigit = true := by
  obtain ⟨d, ds, hds⟩ := List.exists_cons_of_ne_nil (Nat.toDigits_ne_nil (n := n) (b := 10))
  refine ⟨d, ds, hds, isDigit_of_mem_toDigits (n := n) d ?_⟩
  rw [hds]
  exact List.mem_cons_self

/-- Digits are read up to what follows them. -/
theorem readNat?_toDigits (n : Nat) (hrest : NoDigit rest) :
    readNat? (Nat.toDigits 10 n ++ rest) = some (n, rest) := by
  have htake : (Nat.toDigits 10 n ++ rest).takeWhile Char.isDigit = Nat.toDigits 10 n := by
    rw [List.takeWhile_append_of_pos isDigit_of_mem_toDigits]
    cases rest with
    | nil => simp
    | cons c rest => simp [hrest c rfl]
  have hdrop : (Nat.toDigits 10 n ++ rest).dropWhile Char.isDigit = rest := by
    rw [List.dropWhile_append_of_pos isDigit_of_mem_toDigits]
    cases rest with
    | nil => rfl
    | cons c rest => simp [hrest c rfl]
  rw [readNat?, htake, hdrop, if_neg, ofDigits_toDigits]
  rintro (hnil | ⟨hzero, hne⟩)
  · exact Nat.toDigits_ne_nil hnil
  · exact hne (toDigits_of_head?_eq hzero)

/-! ### Strings -/

theorem readUnit?_of_written {n : Nat} {ds : List Char} (h : WrittenUnit n ds) (rest : List Char) :
    readUnit? (ds ++ rest) = some (n, rest) := by
  obtain ⟨ha, hb, hc, hd⟩ := h
  simp [readUnit?, ha, hb, hc, hd]

theorem readEscape?_of_letter {letter c : Char} (h : (letter, c) ∈ letters) (rest : List Char) :
    readEscape? (letter :: rest) = some (c, rest) := by
  simp only [letters, List.mem_cons, Prod.mk.injEq, List.not_mem_nil, or_false] at h
  rcases h with ⟨rfl, rfl⟩ | ⟨rfl, rfl⟩ | ⟨rfl, rfl⟩ | ⟨rfl, rfl⟩ | ⟨rfl, rfl⟩ | ⟨rfl, rfl⟩ |
    ⟨rfl, rfl⟩ | ⟨rfl, rfl⟩ <;> rfl

theorem readEscape?_of_number {c : Char} {ds : List Char} (h : WrittenUnit c.toNat ds)
    (rest : List Char) : readEscape? ('u' :: (ds ++ rest)) = some (c, rest) := by
  have hvalid : c.toNat < 0xd800 ∨ 0xdfff < c.toNat := by
    rcases c.valid with hlow | ⟨hhigh, -⟩
    · exact Or.inl hlow
    · exact Or.inr hhigh
  simp only [readEscape?, readUnit?_of_written h, hvalid, if_true, Char.ofNat_toNat]

theorem readEscape?_of_halves {c : Char} {high low : Nat} {ds ds' : List Char}
    (h : WrittenUnit high ds) (h' : WrittenUnit low ds') (hhigh : 0xd800 ≤ high ∧ high ≤ 0xdbff)
    (hlow : 0xdc00 ≤ low ∧ low ≤ 0xdfff)
    (hc : c.toNat = 0x10000 + (high - 0xd800) * 0x400 + (low - 0xdc00)) (rest : List Char) :
    readEscape? ('u' :: (ds ++ '\\' :: 'u' :: (ds' ++ rest))) = some (c, rest) := by
  have hbasic : ¬ (high < 0xd800 ∨ 0xdfff < high) := by omega
  have hfirst : high < 0xdc00 := by omega
  simp only [readEscape?, readUnit?_of_written h, if_neg hbasic, if_pos hfirst, readLowHalf?,
    readUnit?_of_written h', if_pos hlow, ← hc, Char.ofNat_toNat]

theorem readString?_backslash {front cs rest : List Char} {c : Char}
    (h : readEscape? cs = some (c, rest)) :
    readString? front ('\\' :: cs) = readString? (c :: front) rest := by
  rw [readString?]
  split
  · next hnone =>
    rw [h] at hnone
    cases hnone
  · next hsome =>
    rw [h] at hsome
    cases hsome
    rfl

/-- One character of a string is read, however it is written. -/
theorem readString?_of_writtenChar {c : Char} (h : WrittenChar c cs) (front rest : List Char) :
    readString? front (cs ++ rest) = readString? (c :: front) rest := by
  cases h with
  | itself hquote hbackslash hcontrol =>
    rw [List.singleton_append, readString?, if_neg (by omega)]
    · exact hquote
    · exact hbackslash
  | letter h => exact readString?_backslash (readEscape?_of_letter h rest)
  | number h => exact readString?_backslash (readEscape?_of_number h rest)
  | halves h h' hhigh hlow hc =>
    refine readString?_backslash ?_
    simpa using readEscape?_of_halves h h' hhigh hlow hc rest

theorem readString?_of_written {s : List Char} {parts : List (List Char)}
    (h : List.Forall₂ WrittenChar s parts) (front rest : List Char) :
    readString? front (parts.flatten ++ '"' :: rest) =
      some (String.ofList (front.reverse ++ s), rest) := by
  induction h generalizing front with
  | nil => simp [readString?]
  | cons hc _ ih =>
    rw [List.flatten_cons, List.append_assoc, readString?_of_writtenChar hc, ih]
    simp

/-- A string after blanks begins with a quote and is read to its end. -/
theorem exists_body {s : String} (hb : Blank b) (h : WrittenString s cs) (rest : List Char) :
    ∃ body, skipBlanks (b ++ (cs ++ rest)) = '"' :: body ∧
      readString? [] body = some (s, rest) := by
  obtain ⟨parts, hparts, rfl⟩ := h
  refine ⟨parts.flatten ++ '"' :: rest, ?_, ?_⟩
  · rw [List.cons_append, List.append_assoc, skipBlanks_mark hb rfl]
    rfl
  · rw [readString?_of_written hparts, List.reverse_nil, List.nil_append, String.ofList_toList]

/-! ### Values -/

theorem isBlank_of_isDigit {c : Char} (hc : c.isDigit = true) : isBlank c = false := by
  cases hb : isBlank c with
  | false => rfl
  | true =>
    simp only [isBlank, Bool.or_eq_true, beq_iff_eq] at hb
    rcases hb with ((rfl | rfl) | rfl) | rfl <;> cases hc

/-- The text begins, after blanks, with a character that ends neither a list nor an object. -/
def Begins (cs : List Char) : Prop :=
  ∃ c cs', isBlank c = false ∧ c ≠ ']' ∧ c ≠ '\x7d' ∧
    ∀ rest, skipBlanks (cs ++ rest) = c :: (cs' ++ rest)

theorem begins_cons {c : Char} (hc : isBlank c = false) (hlist : c ≠ ']') (hobject : c ≠ '\x7d')
    (cs : List Char) : Begins (c :: cs) :=
  ⟨c, cs, hc, hlist, hobject, fun _ => skipBlanks_cons hc _⟩

theorem Begins.append (h : Begins cs) (more : List Char) : Begins (cs ++ more) := by
  obtain ⟨c, cs', hc, hlist, hobject, hskip⟩ := h
  refine ⟨c, cs' ++ more, hc, hlist, hobject, fun rest => ?_⟩
  rw [List.append_assoc, hskip, List.append_assoc]

theorem Begins.blank_append (h : Begins cs) (hb : Blank b) : Begins (b ++ cs) := by
  obtain ⟨c, cs', hc, hlist, hobject, hskip⟩ := h
  refine ⟨c, cs', hc, hlist, hobject, fun rest => ?_⟩
  rw [List.append_assoc, skipBlanks_append hb, hskip]

theorem begins_toDigits (n : Nat) : Begins (Nat.toDigits 10 n) := by
  obtain ⟨d, ds, hds, hd⟩ := exists_toDigits_eq n
  rw [hds]
  refine begins_cons (isBlank_of_isDigit hd) ?_ ?_ ds <;> (rintro rfl; cases hd)

theorem begins_string {s : String} (h : WrittenString s cs) : Begins cs := by
  obtain ⟨parts, -, rfl⟩ := h
  exact begins_cons rfl (by decide) (by decide) _

theorem begins_of_written {p : Part} (h : Written p cs) : Begins cs := by
  induction h with
  | null | true | false | emptyList | list | emptyObject | object =>
    exact begins_cons rfl (by decide) (by decide) _
  | num n => exact begins_toDigits n
  | str h => exact begins_string h
  | item hb _ _ ih => exact (ih.append _).blank_append hb
  | items hb _ _ _ ih => exact (ih.append _).blank_append hb
  | field hb hkey => exact ((begins_string hkey).append _).blank_append hb
  | fields hb hkey => exact ((begins_string hkey).append _).blank_append hb

/-! #### Steps of the reader -/

theorem readValue?_congr {cs' : List Char} (h : skipBlanks cs = skipBlanks cs') :
    readValue? fuel cs = readValue? fuel cs' := by
  cases fuel with
  | zero => rfl
  | succ fuel => rw [readValue?, readValue?, h]

theorem readItems?_congr {cs' : List Char} (h : skipBlanks cs = skipBlanks cs')
    (front : List Json) : readItems? fuel front cs = readItems? fuel front cs' := by
  cases fuel with
  | zero => rfl
  | succ fuel => rw [readItems?, readItems?, readValue?_congr h]

theorem readFields?_congr {cs' : List Char} (h : skipBlanks cs = skipBlanks cs')
    (front : List (String × Json)) : readFields? fuel front cs = readFields? fuel front cs' := by
  cases fuel with
  | zero => rfl
  | succ fuel => rw [readFields?, readFields?, h]

theorem readValue?_toDigits (n : Nat) (hrest : NoDigit rest) :
    readValue? (fuel + 1) (Nat.toDigits 10 n ++ rest) = some (num n, rest) := by
  have hread := readNat?_toDigits n hrest
  obtain ⟨d, ds, hds, hd⟩ := exists_toDigits_eq n
  rw [hds, List.cons_append] at hread ⊢
  rw [readValue?, skipBlanks_cons (isBlank_of_isDigit hd)]
  split
  case h_7 => rw [hread]; rfl
  all_goals
    next heq =>
      obtain ⟨rfl, -⟩ := List.cons.inj heq
      cases hd

theorem readValue?_string {s : String} (h : WrittenString s cs) (rest : List Char) :
    readValue? (fuel + 1) (cs ++ rest) = some (str s, rest) := by
  obtain ⟨body, hquote, hstring⟩ := exists_body blank_nil h rest
  simp only [readValue?, show skipBlanks (cs ++ rest) = '"' :: body from hquote, hstring,
    Option.map_some]

theorem readValue?_emptyList (h : skipBlanks cs = ']' :: rest) :
    readValue? (fuel + 1) ('[' :: cs) = some (arr [], rest) := by
  simp only [readValue?, skipBlanks_cons (c := '[') rfl, h]

theorem readValue?_emptyObject (h : skipBlanks cs = '\x7d' :: rest) :
    readValue? (fuel + 1) ('\x7b' :: cs) = some (obj [], rest) := by
  simp only [readValue?, skipBlanks_cons (c := '\x7b') rfl, h]

theorem readValue?_list (h : Begins cs) (rest : List Char) :
    readValue? (fuel + 1) ('[' :: (cs ++ rest)) = readItems? fuel [] (cs ++ rest) := by
  obtain ⟨c, cs', hc, hlist, -, hskip⟩ := h
  simp only [readValue?, skipBlanks_cons (c := '[') rfl, hskip]
  split
  · next heq => exact absurd (List.cons.inj heq).1 hlist
  · exact readItems?_congr (by rw [skipBlanks_cons hc, hskip]) []

theorem readValue?_object (h : Begins cs) (rest : List Char) :
    readValue? (fuel + 1) ('\x7b' :: (cs ++ rest)) = readFields? fuel [] (cs ++ rest) := by
  obtain ⟨c, cs', hc, -, hobject, hskip⟩ := h
  simp only [readValue?, skipBlanks_cons (c := '\x7b') rfl, hskip]
  split
  · next heq => exact absurd (List.cons.inj heq).1 hobject
  · exact readFields?_congr (by rw [skipBlanks_cons hc, hskip]) []

section

variable {j : Json} {key : String} {ks b' : List Char}

theorem readItems?_last (h : readValue? fuel cs = some (j, b ++ ']' :: rest)) (hb : Blank b)
    (front : List Json) :
    readItems? (fuel + 1) front cs = some (arr (front.reverse ++ [j]), rest) := by
  simp only [readItems?, h, skipBlanks_mark hb (c := ']') rfl, List.reverse_cons]

theorem readItems?_comma (h : readValue? fuel cs = some (j, b ++ ',' :: rest)) (hb : Blank b)
    (front : List Json) :
    readItems? (fuel + 1) front cs = readItems? fuel (j :: front) rest := by
  simp only [readItems?, h, skipBlanks_mark hb (c := ',') rfl]

theorem readFields?_last {b'' : List Char} (hb : Blank b) (hkey : WrittenString key ks)
    (hb' : Blank b') (h : readValue? fuel cs = some (j, b'' ++ '\x7d' :: rest)) (hb'' : Blank b'')
    (front : List (String × Json)) :
    readFields? (fuel + 1) front (b ++ (ks ++ (b' ++ ':' :: cs))) =
      some (obj (front.reverse ++ [(key, j)]), rest) := by
  obtain ⟨body, hquote, hstring⟩ := exists_body hb hkey (b' ++ ':' :: cs)
  simp only [readFields?, hquote, hstring, skipBlanks_mark hb' (c := ':') rfl, h,
    skipBlanks_mark hb'' (c := '\x7d') rfl, List.reverse_cons]

theorem readFields?_comma {b'' : List Char} (hb : Blank b) (hkey : WrittenString key ks)
    (hb' : Blank b') (h : readValue? fuel cs = some (j, b'' ++ ',' :: rest)) (hb'' : Blank b'')
    (front : List (String × Json)) :
    readFields? (fuel + 1) front (b ++ (ks ++ (b' ++ ':' :: cs))) =
      readFields? fuel ((key, j) :: front) rest := by
  obtain ⟨body, hquote, hstring⟩ := exists_body hb hkey (b' ++ ':' :: cs)
  simp only [readFields?, hquote, hstring, skipBlanks_mark hb' (c := ':') rfl, h,
    skipBlanks_mark hb'' (c := ',') rfl]

end

/-! #### Every part is read -/

theorem noDigit_cons {c : Char} (hc : c.isDigit = false) (cs : List Char) : NoDigit (c :: cs) := by
  rintro _ ⟨⟩
  exact hc

theorem isDigit_of_isBlank {c : Char} (hc : isBlank c = true) : c.isDigit = false := by
  cases hd : c.isDigit with
  | false => rfl
  | true =>
    rw [isBlank_of_isDigit hd] at hc
    cases hc

theorem Blank.noDigit_append (hb : Blank b) (h : NoDigit cs) : NoDigit (b ++ cs) := by
  cases b with
  | nil => exact h
  | cons c b => exact noDigit_cons (isDigit_of_isBlank (hb c List.mem_cons_self)) _

/-- The reader reads the part off the front.  The fuel is counted in its characters. -/
def Reads : Part → List Char → Prop
  | .value j, cs => ∀ fuel rest, 2 * cs.length ≤ fuel → NoDigit rest →
      readValue? (fuel + 1) (cs ++ rest) = some (j, rest)
  | .items items, cs => ∀ fuel front rest, 2 * cs.length + 2 ≤ fuel →
      readItems? fuel front (cs ++ ']' :: rest) = some (arr (front.reverse ++ items), rest)
  | .fields fields, cs => ∀ fuel front rest, 2 * cs.length + 2 ≤ fuel →
      readFields? fuel front (cs ++ '\x7d' :: rest) = some (obj (front.reverse ++ fields), rest)

/-- A value inside a list or an object is read up to the mark that follows it. -/
theorem Reads.readValue? {j : Json} {b b' : List Char} {mark : Char} (h : Reads (.value j) cs)
    (hb : Blank b) (hb' : Blank b') (hmark : mark.isDigit = false) (rest : List Char)
    (hfuel : 2 * cs.length < fuel) :
    Json.readValue? fuel (b ++ (cs ++ (b' ++ mark :: rest))) = some (j, b' ++ mark :: rest) := by
  obtain ⟨fuel, rfl⟩ := Nat.exists_eq_add_one_of_ne_zero (Nat.ne_zero_of_lt hfuel)
  rw [readValue?_congr (skipBlanks_append hb _)]
  exact h fuel _ (Nat.lt_succ_iff.1 hfuel) (hb'.noDigit_append (noDigit_cons hmark rest))

/-- **Every part of the grammar is read.** -/
theorem reads_of_written {p : Part} (h : Written p cs) : Reads p cs := by
  induction h with
  | null | true | false =>
    intro fuel rest _ _
    rfl
  | num n =>
    intro fuel rest _ hrest
    exact readValue?_toDigits n hrest
  | str h =>
    intro fuel rest _ _
    exact readValue?_string h rest
  | emptyList hb =>
    intro fuel rest _ _
    rw [List.cons_append, List.append_assoc]
    exact readValue?_emptyList (skipBlanks_mark hb rfl rest)
  | list h ih =>
    intro fuel rest hfuel _
    rw [List.length_cons, List.length_append] at hfuel
    rw [List.cons_append, List.append_assoc, readValue?_list (begins_of_written h)]
    exact ih fuel [] rest (by omega)
  | emptyObject hb =>
    intro fuel rest _ _
    rw [List.cons_append, List.append_assoc]
    exact readValue?_emptyObject (skipBlanks_mark hb rfl rest)
  | object h ih =>
    intro fuel rest hfuel _
    rw [List.length_cons, List.length_append] at hfuel
    rw [List.cons_append, List.append_assoc, readValue?_object (begins_of_written h)]
    exact ih fuel [] rest (by omega)
  | item hb _ hb' ih =>
    rintro (_ | fuel) front rest hfuel
    · omega
    · simp only [List.length_append] at hfuel
      have hvalue := ih.readValue? hb hb' (by decide : ']'.isDigit = false) rest
        (by omega : 2 * _ < fuel)
      simp only [List.append_assoc]
      exact readItems?_last hvalue hb' front
  | @items _ _ _ _ _ more hb _ hb' _ ih ihrest =>
    rintro (_ | fuel) front rest hfuel
    · omega
    · simp only [List.length_append, List.length_cons] at hfuel
      have hvalue := ih.readValue? hb hb' (by decide : ','.isDigit = false) (more ++ ']' :: rest)
        (by omega : 2 * _ < fuel)
      simp only [List.append_assoc, List.cons_append]
      rw [readItems?_comma hvalue hb', ihrest fuel _ rest (by omega)]
      simp
  | field h₁ hkey h₂ h₃ _ h₄ ih =>
    rintro (_ | fuel) front rest hfuel
    · omega
    · simp only [List.length_append, List.length_cons] at hfuel
      have hvalue := ih.readValue? h₃ h₄ (by decide : '\x7d'.isDigit = false) rest
        (by omega : 2 * _ < fuel)
      simp only [List.append_assoc, List.cons_append]
      exact readFields?_last h₁ hkey h₂ hvalue h₄ front
  | @fields _ _ _ _ _ _ _ _ _ more h₁ hkey h₂ h₃ _ h₄ _ ih ihrest =>
    rintro (_ | fuel) front rest hfuel
    · omega
    · simp only [List.length_append, List.length_cons] at hfuel
      have hvalue := ih.readValue? h₃ h₄ (by decide : ','.isDigit = false) (more ++ '\x7d' :: rest)
        (by omega : 2 * _ < fuel)
      simp only [List.append_assoc, List.cons_append]
      rw [readFields?_comma h₁ hkey h₂ hvalue h₄, ihrest fuel _ rest (by omega)]
      simp

/-- **The reader accepts well-formed JSON** and gives the value that the text writes. -/
theorem parse?_of_denotes {text : String} {j : Json} (h : Denotes text j) :
    parse? text = some j := by
  obtain ⟨b, cs, b', htext, hb, hwritten, hb'⟩ := h
  have hlength : 2 * cs.length ≤ 2 * text.toList.length + 1 := by
    simp only [htext, List.length_append]
    omega
  have hrest : NoDigit b' := by
    rw [← List.append_nil b']
    exact hb'.noDigit_append (by simp [NoDigit])
  have hread := reads_of_written hwritten (2 * text.toList.length + 1) b' hlength hrest
  rw [parse?]
  simp only [htext] at hread ⊢
  rw [readValue?_congr (skipBlanks_append hb _), hread]
  simp [skipBlanks_eq_nil hb']

/-- **Printed JSON is read back.** -/
theorem parse?_pretty (j : Json) : parse? j.pretty = some j :=
  parse?_of_denotes (denotes_pretty j)

end Json

end Unqualify
