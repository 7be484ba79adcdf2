import Unqualify.FileTree
import Mathlib.Tactic.SplitIfs

/-!
# Reading and writing files

What stands at a place of a file tree is nothing, a folder, or a file with its bytes
(`FileTree.contentAt?`).  Writing to a file changes that one place and no other
(`FileTree.contentAt?_put`).  Paths are resolved by asking which places exist and which are folders,
so trees of the same shape resolve them alike (`FileTree.SameShape.locate?_eq`).
-/

namespace Unqualify.FileTree

/-! ### Contents -/

/-- The bytes of a file; a folder has none of its own. -/
def content? : FileTree → Option ByteArray
  | file content => some content
  | folder _ => none

/-- What stands at a place: nothing, a folder (`some none`), or a file with its bytes. -/
def contentAt? (t : FileTree) (place : List String) : Option (Option ByteArray) :=
  (t.find? place).map content?

theorem contentAt?_eq_file_iff {t : FileTree} {place : List String} {content : ByteArray} :
    t.contentAt? place = some (some content) ↔ t.find? place = some (.file content) := by
  rw [contentAt?, Option.map_eq_some_iff]
  constructor
  · rintro ⟨u, hu, hcontent⟩
    cases u with
    | file c =>
      cases hcontent
      exact hu
    | folder es => cases hcontent
  · intro h
    exact ⟨_, h, rfl⟩

theorem contentAt?_cons (t : FileTree) (name : String) (names : List String) :
    t.contentAt? (name :: names) = (t.entries.lookup name).bind (·.contentAt? names) := by
  rw [contentAt?, find?]
  cases t.entries.lookup name <;> rfl

theorem lookup_setEntry (name n : String) (t : FileTree) (es : List (String × FileTree)) :
    (setEntry name t es).lookup n = if n = name then some t else es.lookup n := by
  induction es with
  | nil =>
    rw [setEntry, List.lookup_cons]
    by_cases hn : n = name
    · simp [hn]
    · rw [beq_false_of_ne hn, if_neg hn]
  | cons e es ih =>
    obtain ⟨m, u⟩ := e
    rw [setEntry]
    by_cases hm : m = name
    · rw [if_pos hm, List.lookup_cons, List.lookup_cons, hm]
      by_cases hn : n = name
      · simp [hn]
      · rw [beq_false_of_ne hn, if_neg hn]
    · rw [if_neg hm, List.lookup_cons, List.lookup_cons, ih]
      by_cases hn : n = name
      · rw [hn, beq_false_of_ne (Ne.symm hm), if_pos rfl]
      · rw [if_neg hn, if_neg hn]

/-- **Writing to a file changes that file and nothing else.** -/
theorem contentAt?_put {t : FileTree} {place : List String} {old : ByteArray}
    (h : t.contentAt? place = some (some old)) (new : ByteArray) (q : List String) :
    (put (.file new) place t).contentAt? q =
      if q = place then some (some new) else t.contentAt? q := by
  induction place generalizing t q with
  | nil =>
    obtain rfl : t = .file old := by simpa [find?] using contentAt?_eq_file_iff.1 h
    cases q with
    | nil => rfl
    | cons n ns => simp [put, contentAt?_cons, entries]
  | cons name names ih =>
    rw [contentAt?_cons, Option.bind_eq_some_iff] at h
    obtain ⟨u, hu, hold⟩ := h
    have hput : put (.file new) (name :: names) t =
        .folder (setEntry name (put (.file new) names u) t.entries) := by
      simp only [put, hu, Option.getD_some]
    rw [hput]
    cases q with
    | nil =>
      -- something stands below, so this was a folder before
      cases t with
      | file c => cases hu
      | folder es => rfl
    | cons n ns =>
      rw [contentAt?_cons, contentAt?_cons, entries, lookup_setEntry]
      by_cases hn : n = name
      · rw [if_pos hn, Option.bind_some, ih hold, hn, hu, Option.bind_some]
        simp
      · rw [if_neg hn, if_neg (by simp [hn])]

/-! ### Shapes -/

/-- Two trees have folders and files at the same places; the files may hold other bytes. -/
def SameShape (t u : FileTree) : Prop :=
  ∀ place, (t.contentAt? place).map Option.isSome = (u.contentAt? place).map Option.isSome

theorem SameShape.refl (t : FileTree) : t.SameShape t := fun _ => rfl

theorem isSome_find?_eq (t : FileTree) (place : List String) :
    (t.find? place).isSome = ((t.contentAt? place).map Option.isSome).isSome := by
  rw [contentAt?]
  cases t.find? place <;> rfl

theorem any_isFolder_find?_eq (t : FileTree) (place : List String) :
    (t.find? place).any isFolder = ((t.contentAt? place).map Option.isSome).any (!·) := by
  rw [contentAt?]
  cases t.find? place with
  | none => rfl
  | some u => cases u <;> rfl

theorem SameShape.resolveFrom?_eq {t u : FileTree} (h : t.SameShape u) (place : List String)
    (parts : List String) : t.resolveFrom? place parts = u.resolveFrom? place parts := by
  induction parts generalizing place with
  | nil =>
    rw [resolveFrom?, resolveFrom?, isSome_find?_eq, isSome_find?_eq, h place]
  | cons part parts ih =>
    rw [resolveFrom?, resolveFrom?, any_isFolder_find?_eq, any_isFolder_find?_eq, h place, ih, ih,
      ih]

/-- **Trees of the same shape resolve paths alike.** -/
theorem SameShape.locate?_eq {t u : FileTree} (h : t.SameShape u) (path : String) :
    t.locate? path = u.locate? path := by
  rw [locate?, locate?]
  split_ifs
  · rfl
  · split
    · rfl
    · exact h.resolveFrom?_eq [] _

/-! ### Resolving parts of a path -/

variable {root : FileTree}

/-- The parts of a path are resolved one after the other. -/
theorem resolveFrom?_append (place xs ys : List String) :
    root.resolveFrom? place (xs ++ ys) =
      (root.resolveFrom? place xs).bind (root.resolveFrom? · ys) := by
  fun_induction resolveFrom? root place xs with
  | case1 place hsome => rfl
  | case2 place hnone =>
    have hfind : root.find? place = none := by simpa using hnone
    cases ys <;> simp [resolveFrom?, hfind]
  | case3 place part parts hfolder hidle ih =>
    rw [List.cons_append, resolveFrom?, if_pos hfolder, if_pos hidle, ih]
  | case4 parts hfolder hidle =>
    rw [List.cons_append, resolveFrom?, if_pos hfolder, if_neg hidle, if_pos rfl, if_pos rfl]
    rfl
  | case5 place parts hfolder hne hidle ih =>
    rw [List.cons_append, resolveFrom?, if_pos hfolder, if_neg hidle, if_pos rfl, if_neg hne, ih]
  | case6 place part parts hfolder hidle hup ih =>
    rw [List.cons_append, resolveFrom?, if_pos hfolder, if_neg hidle, if_neg hup, ih]
  | case7 place part parts hfolder =>
    rw [List.cons_append, resolveFrom?, if_neg hfolder]
    rfl

end Unqualify.FileTree
