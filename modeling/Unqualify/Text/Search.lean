/-!
# Finding and splitting in texts

A text is taken as its list of characters, so that each function is a plain recursion and
has a statement about concatenation.
-/

namespace Unqualify.Text

/-- Whether `pattern` stands somewhere in a text. -/
def occursIn (pattern : List Char) : List Char → Bool
  | [] => pattern.isEmpty
  | c :: cs => pattern.isPrefixOf (c :: cs) || occursIn pattern cs

/-- The pieces of a text between the occurrences of a separator; at least one. -/
def splitAt (sep : Char) : List Char → List (List Char)
  | [] => [[]]
  | c :: cs =>
    if c = sep then
      [] :: splitAt sep cs
    else
      match splitAt sep cs with
      | [] => [[c]]
      | piece :: pieces => (c :: piece) :: pieces

/-- The text before and after the first separator, if there is one. -/
def splitFirst? (sep : Char) : List Char → Option (List Char × List Char)
  | [] => none
  | c :: cs =>
    if c = sep then
      some ([], cs)
    else
      (splitFirst? sep cs).map fun (before, after) => (c :: before, after)

/-- Replace every separator character. -/
def replaceChar (old new : Char) (s : String) : String :=
  String.ofList (s.toList.map fun c => if c = old then new else c)

/-- Split a text at a separator. -/
def split (sep : Char) (s : String) : List String :=
  (splitAt sep s.toList).map String.ofList

/-- Whether `s` starts with `beginning`. -/
def startsWith (s beginning : String) : Bool :=
  beginning.toList.isPrefixOf s.toList

/-- Whether `s` ends with `ending`. -/
def endsWith (s ending : String) : Bool :=
  ending.toList.isSuffixOf s.toList

/-! ### Splitting loses nothing -/

theorem splitAt_ne_nil (sep : Char) (cs : List Char) : splitAt sep cs ≠ [] := by
  induction cs with
  | nil => simp [splitAt]
  | cons c cs ih =>
    simp only [splitAt]
    split
    · simp
    · split <;> simp

/-- Putting the separator back between the pieces gives the text back. -/
theorem intercalate_splitAt (sep : Char) (cs : List Char) :
    [sep].intercalate (splitAt sep cs) = cs := by
  induction cs with
  | nil => simp [splitAt, List.intercalate]
  | cons c cs ih =>
    have hne := splitAt_ne_nil sep cs
    simp only [splitAt]
    split
    · next h =>
      subst h
      cases hp : splitAt c cs with
      | nil => exact absurd hp hne
      | cons piece pieces => rw [hp] at ih; simp [List.intercalate] at ih ⊢; exact ih
    · split
      · next hp => exact absurd hp hne
      · next piece pieces hp =>
        rw [hp] at ih
        cases pieces <;> simp_all [List.intercalate]

/-- No piece holds the separator. -/
theorem not_mem_of_mem_splitAt {sep : Char} {cs piece : List Char}
    (h : piece ∈ splitAt sep cs) : sep ∉ piece := by
  induction cs generalizing piece with
  | nil => simp_all [splitAt]
  | cons c cs ih =>
    simp only [splitAt] at h
    split at h
    · rcases List.mem_cons.1 h with rfl | h
      · simp
      · exact ih h
    · next hc =>
      split at h
      · next hp => exact absurd hp (splitAt_ne_nil sep cs)
      · next q qs hp =>
        rcases List.mem_cons.1 h with rfl | h
        · simp [Ne.symm hc, ih (hp ▸ List.mem_cons_self)]
        · exact ih (hp ▸ List.mem_cons_of_mem _ h)

theorem splitFirst?_eq_some {sep : Char} {cs before after : List Char}
    (h : splitFirst? sep cs = some (before, after)) :
    cs = before ++ sep :: after ∧ sep ∉ before := by
  induction cs generalizing before with
  | nil => simp [splitFirst?] at h
  | cons c cs ih =>
    simp only [splitFirst?] at h
    split at h
    · simp_all
    · next hc =>
      simp only [Option.map_eq_some_iff, Prod.exists, Prod.mk.injEq] at h
      obtain ⟨b, a, hb, rfl, rfl⟩ := h
      obtain ⟨rfl, hn⟩ := ih hb
      simp [hn, Ne.symm hc]

end Unqualify.Text
