import Unqualify.Name
import Mathlib.Data.List.Basic
import Mathlib.Data.List.Induction

/-!
# Dotted names and their segments

A text and its pieces between separators determine each other as long as no piece holds the
separator (`Text.intercalate_split`, `Text.split_intercalate`); a dotted name is cut into its
segments that way.  The namespaces around a namespace are then its beginnings, segment by segment:

* `Name.proper_of_mem_withParents`: none of them has an empty segment;
* `Name.parent_mem_withParents`: with a namespace, the one around it is among them;
* `Name.self_mem_withParents`: a name without empty segments is among them itself.

A name and a segment below it come back from the joined name, too (`Name.join_inj`).  Cut at its
dots, a name begins with the names around it and with no others (`Name.mem_ancestry`).  The segments
that can be written are the identifiers (`Name.isIdentifier_iff`).
-/

namespace Unqualify

namespace Text

/-! ### Splitting at a separator -/

theorem splitAt_of_not_mem {sep : Char} {cs : List Char} (h : sep ∉ cs) :
    splitAt sep cs = [cs] := by
  induction cs with
  | nil => rfl
  | cons c cs ih =>
    obtain ⟨hc, hcs⟩ := not_or.1 (mt List.mem_cons.2 h)
    simp [splitAt, ih hcs, Ne.symm hc]

theorem splitAt_append_cons {sep : Char} {piece : List Char} (h : sep ∉ piece)
    (rest : List Char) : splitAt sep (piece ++ sep :: rest) = piece :: splitAt sep rest := by
  induction piece with
  | nil => simp [splitAt]
  | cons c piece ih =>
    obtain ⟨hc, hp⟩ := not_or.1 (mt List.mem_cons.2 h)
    simp [splitAt, ih hp, Ne.symm hc]

/-- Pieces without the separator come back from the text they make up. -/
theorem splitAt_intercalate {sep : Char} {pieces : List (List Char)} (hne : pieces ≠ [])
    (h : ∀ p ∈ pieces, sep ∉ p) : splitAt sep ([sep].intercalate pieces) = pieces := by
  induction pieces with
  | nil => exact absurd rfl hne
  | cons p ps ih =>
    have hp := h p List.mem_cons_self
    cases ps with
    | nil => simp [List.intercalate, splitAt_of_not_mem hp]
    | cons q qs =>
      have hrest := ih (by simp) fun r hr => h r (List.mem_cons_of_mem _ hr)
      rw [List.intercalate_cons_cons, List.append_assoc, List.singleton_append,
        splitAt_append_cons hp, hrest]

theorem splitAt_append_sep (sep : Char) (cs ds : List Char) :
    splitAt sep (cs ++ sep :: ds) = splitAt sep cs ++ splitAt sep ds := by
  induction cs with
  | nil => simp [splitAt]
  | cons c cs ih =>
    rw [List.cons_append, splitAt, splitAt, ih]
    by_cases hc : c = sep
    · rw [if_pos hc, if_pos hc, List.cons_append]
    · rw [if_neg hc, if_neg hc]
      cases hcs : splitAt sep cs with
      | nil => exact absurd hcs (splitAt_ne_nil sep cs)
      | cons piece pieces => rfl

section Split

variable {sep : Char} {mark : String}

theorem split_ne_nil (sep : Char) (s : String) : split sep s ≠ [] := by
  simp [split, splitAt_ne_nil]

theorem split_of_not_mem {s : String} (h : sep ∉ s.toList) : split sep s = [s] := by
  rw [split, splitAt_of_not_mem h, List.map_singleton, String.ofList_toList]

theorem not_mem_of_mem_split {s piece : String} (h : piece ∈ split sep s) :
    sep ∉ piece.toList := by
  obtain ⟨cs, hcs, rfl⟩ := List.mem_map.1 h
  simpa using not_mem_of_mem_splitAt hcs

theorem split_append (hmark : mark.toList = [sep]) (a b : String) :
    split sep (a ++ mark ++ b) = split sep a ++ split sep b := by
  have hlist : (a ++ mark ++ b).toList = a.toList ++ sep :: b.toList := by simp [hmark]
  rw [split, hlist, splitAt_append_sep, List.map_append]
  rfl

/-- Putting the separator back between the pieces gives the text back. -/
theorem intercalate_split (hmark : mark.toList = [sep]) (s : String) :
    mark.intercalate (split sep s) = s := by
  rw [← String.toList_inj, String.toList_intercalate, hmark]
  simp [split, Function.comp_def, intercalate_splitAt]

/-- Pieces without the separator come back from the text they make up. -/
theorem split_intercalate (hmark : mark.toList = [sep]) {pieces : List String}
    (hne : pieces ≠ []) (h : ∀ p ∈ pieces, sep ∉ p.toList) :
    split sep (mark.intercalate pieces) = pieces := by
  have hsplit : splitAt sep ([sep].intercalate (pieces.map String.toList)) =
      pieces.map String.toList :=
    splitAt_intercalate (by simpa using hne) (by simpa using h)
  rw [split, String.toList_intercalate, hmark, hsplit]
  simp [Function.comp_def]

end Split

end Text

namespace Name

/-! ### Segments -/

theorem segments_ne_nil (name : String) : segments name ≠ [] :=
  Text.split_ne_nil '.' name

theorem dot_not_mem_of_mem_segments {name segment : String} (h : segment ∈ segments name) :
    '.' ∉ segment.toList :=
  Text.not_mem_of_mem_split h

theorem ofSegments_segments (name : String) : ofSegments (segments name) = name :=
  Text.intercalate_split rfl name

/-- Segments without dots come back from the name they make up. -/
theorem segments_ofSegments {xs : List String} (hne : xs ≠ [])
    (h : ∀ x ∈ xs, '.' ∉ x.toList) : segments (ofSegments xs) = xs :=
  Text.split_intercalate rfl hne h

theorem ofSegments_concat {xs : List String} (hne : xs ≠ []) (x : String) :
    ofSegments (xs ++ [x]) = ofSegments xs ++ "." ++ x := by
  simp [ofSegments, String.intercalate_append_of_ne_nil hne]

/-- The name of a path below a namespace is the name of the path without its last segment,
a dot and that segment. -/
theorem join_ofSegments_concat (space : String) {xs : List String} (hne : xs ≠ [])
    (x : String) :
    join space (ofSegments (xs ++ [x])) = join space (ofSegments xs) ++ "." ++ x := by
  rw [ofSegments_concat hne]
  by_cases hs : space = ""
  · simp [hs]
  · simp [join_of_ne hs, String.append_assoc]

theorem join_right_inj {space x y : String} : join space x = join space y ↔ x = y := by
  by_cases hs : space = ""
  · simp [hs]
  · rw [join_of_ne hs, join_of_ne hs, String.append_right_inj]

/-- Joining a segment to a name adds it to the segments of the name, if it has any. -/
theorem segments_join (space : String) {x : String} (hx : '.' ∉ x.toList) :
    segments (join space x) = (if space = "" then [] else segments space) ++ [x] := by
  have hjoin : join space x =
      ofSegments ((if space = "" then [] else segments space) ++ [x]) := by
    split_ifs with hs
    · simp [hs, ofSegments]
    · rw [join_of_ne hs, ofSegments_concat (segments_ne_nil space), ofSegments_segments]
  rw [hjoin]
  refine segments_ofSegments (by simp) fun y hy => ?_
  rcases List.mem_append.1 hy with hy | hy
  · split_ifs at hy
    · cases hy
    · exact dot_not_mem_of_mem_segments hy
  · rwa [List.mem_singleton.1 hy]

/-- A name and a segment below it come back from the name they make up. -/
theorem join_inj {space space' x y : String} (hx : '.' ∉ x.toList) (hy : '.' ∉ y.toList)
    (h : join space x = join space' y) : space = space' ∧ x = y := by
  have hsegments := congrArg segments h
  rw [segments_join space hx, segments_join space' hy] at hsegments
  obtain ⟨hspaces, hlast⟩ := List.append_inj' hsegments rfl
  refine ⟨?_, (List.cons.inj hlast).1⟩
  split_ifs at hspaces with hs hs' hs'
  · exact hs.trans hs'.symm
  · exact absurd hspaces.symm (segments_ne_nil space')
  · exact absurd hspaces (segments_ne_nil space)
  · rw [← ofSegments_segments space, hspaces, ofSegments_segments]

/-- Below a name that is not empty, joining segments one after the other joins the name that they
make up. -/
theorem foldl_join {space : String} (hspace : space ≠ "") {names : List String} (hne : names ≠ []) :
    names.foldl join space = join space (ofSegments names) := by
  induction names using List.reverseRecOn with
  | nil => exact absurd rfl hne
  | append_singleton names x ih =>
    rw [List.foldl_append, List.foldl_cons, List.foldl_nil]
    by_cases hnil : names = []
    · simp [hnil, ofSegments]
    · have hjoined : join space (ofSegments names) ≠ "" := by
        rw [join_of_ne hspace]
        simp
      rw [ih hnil, join_of_ne hjoined, join_ofSegments_concat space hnil]

/-! ### The namespaces around a namespace -/

/-- No segment of the name is empty.  The global namespace is not proper: its name is one empty
segment. -/
def Proper (name : String) : Prop := "" ∉ segments name

instance (name : String) : Decidable (Proper name) :=
  inferInstanceAs (Decidable ("" ∉ segments name))

theorem Proper.ne_empty {name : String} (h : Proper name) : name ≠ "" := by
  rintro rfl
  exact h (by decide)

/-- A segment keeps a name proper unless it is empty. -/
theorem Proper.join {space x : String} (h : Proper space) (hx : '.' ∉ x.toList) (hne : x ≠ "") :
    Proper (Name.join space x) := by
  rw [Proper, segments_join space hx, if_neg h.ne_empty, List.mem_append, List.mem_singleton]
  rintro (hmem | heq)
  · exact h hmem
  · exact hne heq.symm

theorem parent_join {space x : String} (hspace : space ≠ "") (hx : '.' ∉ x.toList) :
    parent (join space x) = space := by
  rw [parent, segments_join space hx, if_neg hspace, List.dropLast_concat, ofSegments_segments]

/-- The segments that count when a name is declared as a namespace: those that are not empty. -/
def spelled (name : String) : List String := (segments name).filter (· ≠ "")

theorem mem_withParents {name space : String} :
    space ∈ withParents name ↔
      ∃ k < (spelled name).length, ofSegments ((spelled name).take (k + 1)) = space := by
  simp [withParents, spelled]

theorem segments_take_spelled {name : String} {k : ℕ} (hk : k < (spelled name).length) :
    segments (ofSegments ((spelled name).take (k + 1))) = (spelled name).take (k + 1) := by
  apply segments_ofSegments
  · exact List.ne_nil_of_length_pos (by rw [List.length_take]; omega)
  · intro x hx
    exact dot_not_mem_of_mem_segments (List.mem_of_mem_filter (List.mem_of_mem_take hx))

theorem proper_of_mem_withParents {name space : String} (h : space ∈ withParents name) :
    Proper space := by
  obtain ⟨k, hk, rfl⟩ := mem_withParents.1 h
  rw [Proper, segments_take_spelled hk]
  intro hmem
  simpa using List.of_mem_filter (List.mem_of_mem_take hmem)

theorem parent_mem_withParents {name space : String} (h : space ∈ withParents name)
    (hlen : 1 < (segments space).length) : parent space ∈ withParents name := by
  obtain ⟨k, hk, rfl⟩ := mem_withParents.1 h
  rw [segments_take_spelled hk, List.length_take] at hlen
  rw [parent, segments_take_spelled hk]
  -- without its last segment a beginning is the beginning one shorter
  refine mem_withParents.2 ⟨k - 1, by omega, ?_⟩
  rw [List.dropLast_eq_take, List.take_take, List.length_take]
  congr 2
  omega

theorem self_mem_withParents {name : String} (h : Proper name) : name ∈ withParents name := by
  -- nothing is left out, so the name is the longest of its beginnings
  have hall : spelled name = segments name := by
    rw [spelled, List.filter_eq_self]
    intro x hx
    exact decide_eq_true fun he => h (he ▸ hx)
  have hpos := List.length_pos_of_ne_nil (segments_ne_nil name)
  refine mem_withParents.2 ⟨(segments name).length - 1, by rw [hall]; omega, ?_⟩
  rw [hall, Nat.sub_add_cancel hpos, List.take_length, ofSegments_segments]

/-! ### The names that a name begins with -/

/-- A name goes on below another one, after a dot. -/
def IsBelow (space name : String) : Prop := ∃ rest, name = space ++ "." ++ rest

theorem join_ne_empty (space : String) {name : String} (h : name ≠ "") : join space name ≠ "" := by
  by_cases hs : space = ""
  · simpa [hs] using h
  · simp [join_of_ne hs]

theorem isBelow_join {space : String} (h : space ≠ "") (name : String) :
    IsBelow space (join space name) := ⟨name, join_of_ne h name⟩

theorem IsBelow.trans {space middle name : String} (h : IsBelow space middle)
    (h' : IsBelow middle name) : IsBelow space name := by
  obtain ⟨rest, rfl⟩ := h
  obtain ⟨rest', rfl⟩ := h'
  exact ⟨rest ++ "." ++ rest', by simp only [String.append_assoc]⟩

theorem IsBelow.length_lt {space name : String} (h : IsBelow space name) :
    space.length < name.length := by
  obtain ⟨rest, rfl⟩ := h
  have hdot : ".".length = 1 := rfl
  rw [String.length_append, String.length_append]
  omega

theorem ofSegments_append {xs ys : List String} (hx : xs ≠ []) (hy : ys ≠ []) :
    ofSegments (xs ++ ys) = ofSegments xs ++ "." ++ ofSegments ys :=
  String.intercalate_append_of_ne_nil hx hy

theorem segments_append (space rest : String) :
    segments (space ++ "." ++ rest) = segments space ++ segments rest :=
  Text.split_append rfl space rest

/-- A longer beginning of a list of segments makes up a name below that of a shorter one. -/
theorem isBelow_take {xs : List String} {k l : Nat} (hkl : k < l) (hl : l < xs.length) :
    IsBelow (ofSegments (xs.take (k + 1))) (ofSegments (xs.take (l + 1))) := by
  have hparts : xs.take (l + 1) = xs.take (k + 1) ++ (xs.drop (k + 1)).take (l - k) := by
    rw [← List.take_add]
    congr 1
    omega
  refine ⟨ofSegments ((xs.drop (k + 1)).take (l - k)), ?_⟩
  rw [hparts, ofSegments_append]
  · exact List.ne_nil_of_length_pos (by rw [List.length_take]; omega)
  · exact List.ne_nil_of_length_pos (by rw [List.length_take, List.length_drop]; omega)

theorem mem_ancestry_iff {name space : String} :
    space ∈ ancestry name ↔ space ≠ "" ∧
      ∃ k < (segments name).length, ofSegments ((segments name).take (k + 1)) = space := by
  simp [ancestry, and_comm]

/-- **The names around a name** are the name itself and all that it goes on below, the empty one
apart. -/
theorem mem_ancestry {name space : String} :
    space ∈ ancestry name ↔ space ≠ "" ∧ (space = name ∨ IsBelow space name) := by
  have hpos := List.length_pos_of_ne_nil (segments_ne_nil name)
  rw [mem_ancestry_iff]
  refine and_congr_right fun _ => ⟨?_, ?_⟩
  · rintro ⟨k, hk, rfl⟩
    by_cases hlast : k + 1 = (segments name).length
    · left
      rw [hlast, List.take_length, ofSegments_segments]
    · right
      have hbelow : IsBelow (ofSegments ((segments name).take (k + 1)))
          (ofSegments ((segments name).take ((segments name).length - 1 + 1))) :=
        isBelow_take (by omega) (by omega)
      rwa [Nat.sub_add_cancel hpos, List.take_length, ofSegments_segments] at hbelow
  · rintro (rfl | ⟨rest, rfl⟩)
    · refine ⟨(segments space).length - 1, by omega, ?_⟩
      rw [Nat.sub_add_cancel hpos, List.take_length, ofSegments_segments]
    · have hspace := List.length_pos_of_ne_nil (segments_ne_nil space)
      rw [segments_append]
      refine ⟨(segments space).length - 1, by rw [List.length_append]; omega, ?_⟩
      rw [Nat.sub_add_cancel hspace, List.take_left, ofSegments_segments]

/-- The names around a name come one below the other, the longest first. -/
theorem pairwise_ancestry (name : String) :
    (ancestry name).Pairwise fun inner outer => IsBelow outer inner := by
  unfold ancestry
  refine List.Pairwise.filter _ (List.pairwise_map.2 (List.pairwise_reverse.2 ?_))
  refine List.pairwise_lt_range.imp_of_mem fun _ hl hkl => ?_
  exact isBelow_take hkl (List.mem_range.1 hl)

/-! ### Identifiers -/

/-- A letter or `_`, then letters, numbers and `_`. -/
def IsPlain (cs : List Char) : Prop :=
  ∃ first rest, cs = first :: rest ∧ (Text.isLetter first = true ∨ first = '_') ∧
    ∀ c ∈ rest, Text.isLetterOrNumber c = true ∨ c = '_'

/-- An identifier: an optional `@`, then a letter or `_`, then letters, numbers and `_`. -/
def IsIdentifier (s : String) : Prop :=
  ∃ cs, IsPlain cs ∧ (s.toList = cs ∨ s.toList = '@' :: cs)

theorem IsPlain.ne_nil {cs : List Char} (h : IsPlain cs) : cs ≠ [] := by
  obtain ⟨first, rest, rfl, -⟩ := h
  exact List.cons_ne_nil first rest

theorem IsPlain.mem {cs : List Char} (h : IsPlain cs) {c : Char} (hc : c ∈ cs) :
    Text.isLetterOrNumber c = true ∨ c = '_' := by
  obtain ⟨first, rest, rfl, hfirst, hrest⟩ := h
  rcases List.mem_cons.1 hc with rfl | hc
  · exact hfirst.imp_left fun hletter => by rw [Text.isLetterOrNumber, hletter, Bool.true_or]
  · exact hrest c hc

/-- What the test for an identifier makes of the text behind an optional `@`. -/
theorem isPlain_iff {cs : List Char} :
    (match cs with
      | [] => false
      | c :: cs => (Text.isLetter c || c == '_') &&
          cs.all fun c => Text.isLetterOrNumber c || c == '_') = true ↔ IsPlain cs := by
  cases cs with
  | nil => exact ⟨fun h => absurd h Bool.false_ne_true, fun h => absurd rfl h.ne_nil⟩
  | cons c cs =>
    simp only [IsPlain, Bool.and_eq_true, Bool.or_eq_true, beq_iff_eq, List.all_eq_true,
      List.cons.injEq]
    constructor
    · rintro ⟨hc, hcs⟩
      exact ⟨c, cs, ⟨rfl, rfl⟩, hc, hcs⟩
    · rintro ⟨first, rest, ⟨rfl, rfl⟩, hfirst, hrest⟩
      exact ⟨hfirst, hrest⟩

/-- **The test for an identifier** accepts the identifiers and nothing else. -/
theorem isIdentifier_iff {s : String} : isIdentifier s = true ↔ IsIdentifier s := by
  have hat : ¬(Text.isLetterOrNumber '@' = true ∨ '@' = '_') := by decide +kernel
  rw [isIdentifier, IsIdentifier]
  refine Iff.trans isPlain_iff ?_
  split
  · next cs hs =>
    constructor
    · intro h
      exact ⟨cs, h, Or.inr hs⟩
    · rintro ⟨cs', h, hs' | hs'⟩
      · exact absurd (h.mem (hs' ▸ hs ▸ List.mem_cons_self)) hat
      · rwa [(List.cons.inj (hs.symm.trans hs')).2]
  · next hs =>
    constructor
    · intro h
      exact ⟨s.toList, h, Or.inl rfl⟩
    · rintro ⟨cs', h, hs' | hs'⟩
      · rwa [hs']
      · exact absurd hs' (hs cs')

/-- The characters of an identifier. -/
theorem IsIdentifier.mem {s : String} (h : IsIdentifier s) {c : Char} (hc : c ∈ s.toList) :
    Text.isLetterOrNumber c = true ∨ c = '_' ∨ c = '@' := by
  obtain ⟨cs, hplain, hs | hs⟩ := h
  · exact (hplain.mem (hs ▸ hc)).imp_right Or.inl
  · rw [hs] at hc
    rcases List.mem_cons.1 hc with rfl | hc
    · exact Or.inr (Or.inr rfl)
    · exact (hplain.mem hc).imp_right Or.inl

theorem IsIdentifier.ne_empty {s : String} (h : IsIdentifier s) : s ≠ "" := by
  rintro rfl
  obtain ⟨cs, hplain, hs | hs⟩ := h
  · exact hplain.ne_nil hs.symm
  · cases hs

theorem IsIdentifier.dot_not_mem {s : String} (h : IsIdentifier s) : '.' ∉ s.toList :=
  fun hdot => absurd (h.mem hdot) (by decide +kernel)

end Name

end Unqualify
