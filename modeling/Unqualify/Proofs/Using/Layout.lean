import Unqualify.Using
import Mathlib.Data.List.Chain
import Mathlib.Data.List.Induction

/-!
# Texts as tokens with blanks between them

A text is laid out as pieces, each a token with the blanks in front of it (`Using.Piece`,
`Using.spell`).  A token is a word or a run of punctuation, and two words that follow one another
have blanks between them, or they would be one word (`Using.Apart`).

Trimming takes away the blanks at the ends and no token (`Using.trim_spell`), squeezing leaves the
tokens (`Using.squeeze_spell`), and a word found at the beginning with a blank behind it is the
first token (`Using.token_eq_of_append_eq`).
-/

namespace Unqualify

namespace Text

/-! ### Blanks around what is not blank -/

theorem trimStart_append_of_blank {gap : List Char} (h : ∀ c ∈ gap, isBlank c = true)
    (cs : List Char) : trimStart (gap ++ cs) = trimStart cs :=
  List.dropWhile_append_of_pos h

theorem trimStart_append {token : List Char} (hne : token ≠ [])
    (h : ∀ c ∈ token, isBlank c = false) (cs : List Char) :
    trimStart (token ++ cs) = token ++ cs := by
  obtain ⟨c, token, rfl⟩ := List.exists_cons_of_ne_nil hne
  exact List.dropWhile_cons_of_neg (by simp [h c List.mem_cons_self])

theorem trimEnd_eq_reverse (cs : List Char) : trimEnd cs = (trimStart cs.reverse).reverse := rfl

theorem trimEnd_append_of_blank {gap : List Char} (h : ∀ c ∈ gap, isBlank c = true)
    (cs : List Char) : trimEnd (cs ++ gap) = trimEnd cs := by
  rw [trimEnd_eq_reverse, List.reverse_append, trimStart_append_of_blank (by simpa using h)]
  rfl

theorem trimEnd_append {token : List Char} (hne : token ≠ [])
    (h : ∀ c ∈ token, isBlank c = false) (cs : List Char) :
    trimEnd (cs ++ token) = cs ++ token := by
  rw [trimEnd_eq_reverse, List.reverse_append,
    trimStart_append (by simpa using hne) (by simpa using h), List.reverse_append,
    List.reverse_reverse, List.reverse_reverse]

theorem squeeze_append (cs ds : List Char) : squeeze (cs ++ ds) = squeeze cs ++ squeeze ds :=
  List.filter_append cs ds

theorem squeeze_of_blank {gap : List Char} (h : ∀ c ∈ gap, isBlank c = true) : squeeze gap = [] :=
  List.filter_eq_nil_iff.2 fun c hc => by simp [h c hc]

theorem squeeze_eq_self {token : List Char} (h : ∀ c ∈ token, isBlank c = false) :
    squeeze token = token :=
  List.filter_eq_self.2 fun c hc => by simp [h c hc]

theorem isBlank_of_mem_squeeze {cs : List Char} {c : Char} (h : c ∈ squeeze cs) :
    isBlank c = false := by
  simpa using List.of_mem_filter h

theorem splitFirst?_append {sep : Char} {before : List Char} (h : sep ∉ before)
    (after : List Char) : splitFirst? sep (before ++ sep :: after) = some (before, after) := by
  induction before with
  | nil => simp [splitFirst?]
  | cons c before ih =>
    obtain ⟨hc, hbefore⟩ := not_or.1 (mt List.mem_cons.2 h)
    simp [splitFirst?, ih hbefore, Ne.symm hc]

theorem splitFirst?_eq_none {sep : Char} {cs : List Char} (h : sep ∉ cs) :
    splitFirst? sep cs = none := by
  induction cs with
  | nil => rfl
  | cons c cs ih =>
    obtain ⟨hc, hcs⟩ := not_or.1 (mt List.mem_cons.2 h)
    simp [splitFirst?, ih hcs, Ne.symm hc]

end Text

namespace Using

open Text (isBlank trim trimStart trimEnd squeeze)

/-! ### Tokens -/

/-- Whether a character is punctuation. -/
def isMark (c : Char) : Bool := "[]().,:;+-*/%&|^!~=<>?".toList.contains c

/-- A word: an identifier, a keyword or a number.  All that matters is that it holds no blanks and
no punctuation. -/
def IsWord (s : String) : Prop :=
  s ≠ "" ∧ ∀ c ∈ s.toList, isBlank c = false ∧ isMark c = false

/-- A run of punctuation, such as a dot or two colons. -/
def IsPunctuation (s : String) : Prop := s ≠ "" ∧ ∀ c ∈ s.toList, isMark c = true

instance (s : String) : Decidable (IsWord s) :=
  decidable_of_iff (s ≠ "" ∧ s.toList.all (fun c => !isBlank c && !isMark c) = true)
    (by simp [IsWord])

instance (s : String) : Decidable (IsPunctuation s) :=
  decidable_of_iff (s ≠ "" ∧ s.toList.all isMark = true) (by simp [IsPunctuation])

theorem isBlank_of_isMark {c : Char} (h : isMark c = true) : isBlank c = false := by
  have hmarks : "[]().,:;+-*/%&|^!~=<>?".toList.all (!isBlank ·) = true := by decide
  simpa using List.all_eq_true.1 hmarks c (List.contains_iff_mem.1 h)

theorem IsWord.mark_not_mem {s : String} {c : Char} (h : IsWord s) (hc : isMark c = true) :
    c ∉ s.toList := by
  intro hmem
  rw [(h.2 c hmem).2] at hc
  cases hc

/-- A token and the blanks in front of it. -/
structure Piece where
  /-- The blanks, if any. -/
  gap : List Char
  /-- The token. -/
  token : String
  /-- Nothing but blanks in front. -/
  gap_blank : ∀ c ∈ gap, isBlank c = true
  /-- A token is a word or punctuation. -/
  token_sort : IsWord token ∨ IsPunctuation token

namespace Piece

/-- The characters of a piece. -/
def chars (p : Piece) : List Char := p.gap ++ p.token.toList

theorem token_ne_nil (p : Piece) : p.token.toList ≠ [] := by
  rcases p.token_sort with h | h <;> simpa using h.1

theorem isBlank_of_mem_token (p : Piece) : ∀ c ∈ p.token.toList, isBlank c = false := by
  intro c hc
  rcases p.token_sort with h | h
  · exact (h.2 c hc).1
  · exact isBlank_of_isMark (h.2 c hc)

/-- A token with a character that is no punctuation is a word. -/
theorem isWord_of_mem (p : Piece) {c : Char} (hc : c ∈ p.token.toList) (hmark : isMark c = false) :
    IsWord p.token := by
  rcases p.token_sort with h | h
  · exact h
  · rw [h.2 c hc] at hmark
    cases hmark

end Piece

/-- The text of pieces. -/
def spell (ps : List Piece) : List Char := ps.flatMap Piece.chars

@[simp] theorem spell_nil : spell [] = [] := rfl

@[simp] theorem spell_cons (p : Piece) (ps : List Piece) :
    spell (p :: ps) = p.gap ++ p.token.toList ++ spell ps := rfl

@[simp] theorem spell_append (ps qs : List Piece) : spell (ps ++ qs) = spell ps ++ spell qs :=
  List.flatMap_append

/-- The characters of tokens that stand one after the other. -/
def joined (tokens : List String) : List Char := tokens.flatMap String.toList

/-! ### Trimming and squeezing -/

theorem trimStart_spell_cons (p : Piece) (ps : List Piece) :
    trimStart (spell (p :: ps)) = p.token.toList ++ spell ps := by
  rw [spell_cons, List.append_assoc, Text.trimStart_append_of_blank p.gap_blank,
    Text.trimStart_append p.token_ne_nil p.isBlank_of_mem_token]

theorem trimEnd_append_spell {token : List Char} (hne : token ≠ [])
    (h : ∀ c ∈ token, isBlank c = false) (ps : List Piece) :
    trimEnd (token ++ spell ps) = token ++ spell ps := by
  induction ps using List.reverseRecOn with
  | nil => simpa using Text.trimEnd_append hne h []
  | append_singleton ps p _ =>
    rw [spell_append, spell_cons, spell_nil, List.append_nil, ← List.append_assoc,
      ← List.append_assoc]
    exact Text.trimEnd_append p.token_ne_nil p.isBlank_of_mem_token _

/-- Trimming takes the blanks behind the last token. -/
theorem trim_append_spell (p : Piece) (ps : List Piece) {gap : List Char}
    (hgap : ∀ c ∈ gap, isBlank c = true) :
    trim (p.token.toList ++ spell ps ++ gap) = p.token.toList ++ spell ps := by
  rw [trim, List.append_assoc, Text.trimStart_append p.token_ne_nil p.isBlank_of_mem_token,
    ← List.append_assoc, Text.trimEnd_append_of_blank hgap,
    trimEnd_append_spell p.token_ne_nil p.isBlank_of_mem_token]

/-- Trimming takes the blanks before the first and behind the last token. -/
theorem trim_spell (p : Piece) (ps : List Piece) {gap : List Char}
    (hgap : ∀ c ∈ gap, isBlank c = true) :
    trim (spell (p :: ps) ++ gap) = p.token.toList ++ spell ps := by
  have hgaps : spell (p :: ps) ++ gap = p.gap ++ (p.token.toList ++ spell ps ++ gap) := by simp
  rw [hgaps, trim, Text.trimStart_append_of_blank p.gap_blank, ← trim, trim_append_spell p ps hgap]

theorem squeeze_spell (ps : List Piece) : squeeze (spell ps) = joined (ps.map (·.token)) := by
  induction ps with
  | nil => rfl
  | cons p ps ih =>
    rw [spell_cons, Text.squeeze_append, Text.squeeze_append, Text.squeeze_of_blank p.gap_blank,
      Text.squeeze_eq_self p.isBlank_of_mem_token, ih]
    rfl

/-- A character that is no blank stands in a token. -/
theorem mem_of_mem_spell {ps : List Piece} {c : Char} (hc : c ∈ spell ps)
    (hblank : isBlank c = false) : ∃ p ∈ ps, c ∈ p.token.toList := by
  obtain ⟨p, hp, hc⟩ := List.mem_flatMap.1 hc
  rcases List.mem_append.1 hc with hgap | htoken
  · rw [p.gap_blank c hgap] at hblank
    cases hblank
  · exact ⟨p, hp, htoken⟩

/-! ### Words -/

/-- Two words that follow one another have blanks between them. -/
def Apart (p q : Piece) : Prop := IsWord p.token → IsWord q.token → q.gap ≠ []

instance : DecidableRel Apart := fun _ _ => inferInstanceAs (Decidable (_ → _ → _))

/-- Where a text of pieces does not begin with a blank, it begins with the first token. -/
theorem gap_eq_nil_of_spell_eq_cons {p : Piece} {ps : List Piece} {c : Char} {rest : List Char}
    (h : spell (p :: ps) = c :: rest) (hc : isBlank c = false) :
    p.gap = [] ∧ c ∈ p.token.toList := by
  rw [spell_cons] at h
  cases hgap : p.gap with
  | cons b gap =>
    rw [hgap] at h
    obtain rfl : b = c := (List.cons.inj h).1
    rw [p.gap_blank b (by simp [hgap])] at hc
    cases hc
  | nil =>
    obtain ⟨d, token, htoken⟩ := List.exists_cons_of_ne_nil p.token_ne_nil
    rw [hgap, htoken] at h
    obtain rfl : d = c := (List.cons.inj h).1
    exact ⟨rfl, by simp [htoken]⟩

/-- A word that a text of pieces begins with, a blank behind it, is the first token. -/
theorem token_eq_of_append_eq {p : Piece} {ps : List Piece} (hapart : (p :: ps).IsChain Apart)
    {word : String} (hword : IsWord word) {blank : Char} (hblank : isBlank blank = true)
    {rest : List Char} (h : p.token.toList ++ spell ps = word.toList ++ blank :: rest) :
    p.token = word := by
  rw [← String.toList_inj]
  rcases List.append_eq_append_iff.1 h with ⟨more, hmore, hps⟩ | ⟨more, hmore, hrest⟩
  · cases more with
    | nil => simpa using hmore.symm
    | cons c more =>
      -- the word goes on behind the token: with nothing between, another word would follow
      exfalso
      obtain ⟨hc, hmark⟩ := hword.2 c (by simp [hmore])
      obtain ⟨d, hd⟩ := List.exists_mem_of_ne_nil _ p.token_ne_nil
      have hp := p.isWord_of_mem hd (hword.2 d (by simp [hmore, hd])).2
      cases ps with
      | nil => cases hps
      | cons q qs =>
        obtain ⟨hgap, hmem⟩ := gap_eq_nil_of_spell_eq_cons hps hc
        exact (List.isChain_cons_cons.1 hapart).1 hp (q.isWord_of_mem hmem hmark) hgap
  · cases more with
    | nil => simpa using hmore
    | cons c more =>
      -- the token goes on behind the word: it would hold the blank
      exfalso
      obtain rfl : blank = c := (List.cons.inj hrest).1
      rw [p.isBlank_of_mem_token blank (by simp [hmore])] at hblank
      cases hblank

end Using

end Unqualify
