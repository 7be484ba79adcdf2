import Unqualify.Proofs.Discovery.Walk
import Mathlib.Data.List.DropRight

/-!
# Spellings of a place

A path that never goes up leads to the place that its names spell
(`FileTree.eq_names_of_locate?`), and its components are these names
(`Path.components_eq_map_names`), however many parts that lead nowhere stand between them.

The text of a path says less: its relative form keeps what stands between two names.  A path spells
a place (`Path.Spells`) if such parts stand only in front of the names, and at most a slash behind
them.  The relative form of such a path is the names with slashes between them
(`Path.Spells.relative_eq`), and a walk that starts at one comes to such paths only
(`Path.Spells.pathBelow`).
-/

namespace Unqualify

open FileTree

/-! ### Names and components -/

namespace Path

theorem isIdle_iff {part : String} : isIdle part = true ↔ part = "" ∨ part = "." := by
  simp [isIdle]

theorem isIdle_eq_false {name : String} (h : IsEntryName name) : isIdle name = false := by
  simp [isIdle, h.1, h.2.1]

theorem filterMap_inner? {parts : List String} (h : ".." ∉ parts) :
    parts.filterMap inner? = (parts.filter fun part => !isIdle part).map .name := by
  induction parts with
  | nil => rfl
  | cons part parts ih =>
    obtain ⟨hpart, hparts⟩ := not_or.1 (mt List.mem_cons.2 h)
    by_cases hidle : part = "" ∨ part = "."
    · have hnone : inner? part = none := if_pos hidle
      rw [List.filterMap_cons_none hnone, List.filter_cons_of_neg (by simp [isIdle_iff.2 hidle]),
        ih hparts]
    · have hsome : inner? part = some (.name part) := by
        rw [inner?, if_neg hidle, if_neg (Ne.symm hpart)]
      have hkept : isIdle part = false := by simpa [isIdle] using hidle
      rw [List.filterMap_cons_some hsome, List.filter_cons_of_pos (by simp [hkept]), List.map_cons,
        ih hparts]

/-- The components of a path are its names, if it starts with a name and never goes up. -/
theorem components_eq_map_names {path first : String} {rest : List String}
    (hsplit : Text.split '/' path = first :: rest) (hfirst : isIdle first = false)
    (hup : ".." ∉ first :: rest) : components path = (names path).map .name := by
  have hne : first ≠ "" ∧ first ≠ "." := by simpa [isIdle] using hfirst
  have hnames : names path = first :: rest.filter fun part => !isIdle part := by
    rw [names, hsplit, List.filter_cons_of_pos (by simp [hfirst])]
  obtain ⟨hdots, hrest⟩ := not_or.1 (mt List.mem_cons.2 hup)
  rw [components, hsplit, hnames]
  simp only [hne.1, hne.2, false_and, if_false, filterMap_inner? hrest, inner?, or_self,
    Ne.symm hdots]
  rfl

theorem filter_not_isIdle {place : List String} (h : ∀ name ∈ place, IsEntryName name) :
    (place.filter fun part => !isIdle part) = place := by
  rw [List.filter_eq_self]
  intro name hname
  simp [isIdle_eq_false (h name hname)]

theorem up_not_mem {place : List String} (hplace : ∀ name ∈ place, IsEntryName name) :
    ".." ∉ place := fun hup => (hplace _ hup).2.2.1 rfl

/-- Names with slashes between them are the components of the path that they make up. -/
theorem components_intercalate {place : List String} (hplace : ∀ name ∈ place, IsEntryName name) :
    components ("/".intercalate place) = place.map .name := by
  cases place with
  | nil => rfl
  | cons first rest =>
    have hsplit : Text.split '/' ("/".intercalate (first :: rest)) = first :: rest :=
      Text.split_intercalate toList_slash (List.cons_ne_nil _ _) fun name hname =>
        (hplace name hname).2.2.2
    have hfirst := isIdle_eq_false (hplace first List.mem_cons_self)
    rw [components_eq_map_names hsplit hfirst (up_not_mem hplace), names, hsplit,
      filter_not_isIdle hplace]

/-- The extension is read off the last component. -/
theorem extension?_congr {a b : String}
    (h : (components a).getLast? = (components b).getLast?) : extension? a = extension? b := by
  rw [extension?, extension?, fileName?, fileName?, h]

end Path

/-! ### Places -/

namespace FileTree

variable {root : FileTree}

theorem eq_append_of_resolveFrom? {place parts q : List String}
    (h : root.resolveFrom? place parts = some q) (hup : ".." ∉ parts) :
    q = place ++ parts.filter fun part => !Path.isIdle part := by
  fun_induction resolveFrom? root place parts with
  | case1 place hsome => simpa using h.symm
  | case2 => cases h
  | case3 place part parts hfolder hidle ih =>
    rw [ih h (fun hmem => hup (List.mem_cons_of_mem part hmem)),
      List.filter_cons_of_neg (by simp [Path.isIdle_iff.2 hidle])]
  | case4 => cases h
  | case5 place parts hfolder hne hidle ih => exact absurd List.mem_cons_self hup
  | case6 place part parts hfolder hidle hpart ih =>
    have hkept : Path.isIdle part = false := by simpa [Path.isIdle] using hidle
    rw [ih h (fun hmem => hup (List.mem_cons_of_mem part hmem)),
      List.filter_cons_of_pos (by simp [hkept]), List.append_assoc, List.singleton_append]
  | case7 => cases h

/-- **A path that never goes up leads to the place that its names spell.** -/
theorem eq_names_of_locate? {path : String} {place : List String}
    (h : root.locate? path = some place) (hup : ".." ∉ Text.split '/' path) :
    place = Path.names path := by
  rw [locate?] at h
  split_ifs at h
  split at h
  · cases h
  · next parts hparts => exact eq_append_of_resolveFrom? h hup

end FileTree

/-! ### Paths that never go up -/

namespace Path

theorem endsWith_slash_of_split {path : String} {parts : List String} (hne : parts ≠ [])
    (h : Text.split '/' path = parts ++ [""]) : Text.endsWith path "/" = true := by
  have hpath : path = "/".intercalate parts ++ "/" := by
    rw [← Text.intercalate_split toList_slash path, h,
      String.intercalate_append_of_ne_nil hne (by simp)]
    simp
  rw [hpath, Text.endsWith, List.isSuffixOf_iff_suffix, String.toList_append]
  exact List.suffix_append _ _

theorem not_endsWith_slash_of_split {path last : String} {parts : List String} (hne : last ≠ "")
    (h : Text.split '/' path = parts ++ [last]) : ¬ Text.endsWith path "/" = true := by
  intro hend
  obtain ⟨d, rfl⟩ := exists_of_endsWith_slash hend
  have hsplit := Text.split_append toList_slash d ""
  rw [String.append_empty, h] at hsplit
  exact hne (List.singleton_inj.1 (List.append_inj' hsplit rfl).2)

/-- A path from the top that never goes up. -/
def Descends (path : String) : Prop :=
  ∃ parts, Text.split '/' path = "." :: parts ∧ ".." ∉ parts

namespace Descends

variable {path : String}

theorem up_not_mem_split (h : Descends path) : ".." ∉ Text.split '/' path := by
  obtain ⟨parts, hparts, hup⟩ := h
  rw [hparts, List.mem_cons, not_or]
  exact ⟨by decide, hup⟩

theorem child (h : Descends path) {name : String} (hname : IsEntryName name) :
    Descends (Path.child path name) := by
  obtain ⟨parts, hparts, hup⟩ := h
  by_cases hend : Text.endsWith path "/" = true
  · obtain ⟨front, hfront, hchild⟩ := split_child_of_endsWith hend hname.2.2.2
    rw [hparts] at hfront
    cases front with
    | nil => simp at hfront
    | cons first front =>
      rw [List.cons_append, List.cons.injEq] at hfront
      obtain ⟨rfl, rfl⟩ := hfront
      refine ⟨front ++ [name], hchild, ?_⟩
      rw [List.mem_append, not_or, List.mem_singleton] at hup ⊢
      exact ⟨hup.1, Ne.symm hname.2.2.1⟩
  · refine ⟨parts ++ [name], ?_, ?_⟩
    · rw [split_child_of_not_endsWith hend hname.2.2.2, hparts, List.cons_append]
    · rw [List.mem_append, not_or, List.mem_singleton]
      exact ⟨hup, Ne.symm hname.2.2.1⟩

/-- A walk from a path that never goes up comes to such paths only. -/
theorem pathBelow (h : Descends path) {names : List String}
    (hnames : ∀ name ∈ names, IsEntryName name) : Descends (Discovery.pathBelow path names) := by
  induction names generalizing path with
  | nil => exact h
  | cons name names ih =>
    rw [List.forall_mem_cons] at hnames
    exact ih (h.child hnames.1) hnames.2

/-- The relative form of a path starts with a name, if there is one, and adds nothing. -/
theorem exists_split_relative (h : Descends path) (hne : names path ≠ []) :
    ∃ first rest, Text.split '/' (relative path) = first :: rest ∧ isIdle first = false ∧
      ".." ∉ first :: rest := by
  obtain ⟨parts, hparts, hup⟩ := h
  have hsome : parts.dropWhile isIdle ≠ [] := by
    rw [ne_eq, List.dropWhile_eq_nil_iff]
    intro hall
    refine hne ?_
    rw [names, hparts, List.filter_eq_nil_iff, List.forall_mem_cons]
    exact ⟨by decide, fun part hpart => by simp [hall part hpart]⟩
  obtain ⟨first, tail, hstart⟩ := List.exists_cons_of_ne_nil hsome
  have hfirst : isIdle first = false := by
    have := List.head_dropWhile_not isIdle hsome
    simpa [hstart] using this
  -- what is cut off at the end leaves the first name
  have hprefix := List.rdropWhile_prefix isIdle (first :: tail)
  have hkept : (first :: tail).rdropWhile isIdle ≠ [] := by
    rw [ne_eq, List.rdropWhile_eq_nil_iff]
    intro hall
    rw [hall first List.mem_cons_self] at hfirst
    cases hfirst
  obtain ⟨first', rest, hrest⟩ := List.exists_cons_of_ne_nil hkept
  rw [hrest] at hprefix
  obtain ⟨rfl, -⟩ := List.cons_prefix_cons.1 hprefix
  have hsubset : ∀ part ∈ first' :: rest, part ∈ parts := fun part hpart =>
    (List.dropWhile_suffix (l := parts) isIdle).subset (hstart ▸ hprefix.subset hpart)
  have hrelative : relative path = "/".intercalate (first' :: rest) := by
    rw [← hrest, ← hstart, relative, hparts]
    rfl
  refine ⟨first', rest, ?_, hfirst, fun hmem => hup (hsubset _ hmem)⟩
  rw [hrelative, Text.split_intercalate toList_slash (List.cons_ne_nil _ _)]
  intro part hpart
  exact Text.not_mem_of_mem_split (s := path) (hparts ▸ List.mem_cons_of_mem _ (hsubset part hpart))

end Descends

/-! ### Tidy spellings -/

/-- A path from the top spells the names on the way to a place one after the other, after parts that
lead nowhere and perhaps with a slash at its end. -/
def Spells (path : String) (place : List String) : Prop :=
  (∀ name ∈ place, IsEntryName name) ∧ ∃ idle : List String, (∀ part ∈ idle, isIdle part = true) ∧
    (Text.split '/' path = "." :: idle ++ place ∨
      Text.split '/' path = "." :: idle ++ place ++ [""])

theorem spells_here : Spells "." [] := ⟨by simp, [], by simp, Or.inl rfl⟩

namespace Spells

variable {path : String} {place : List String}

/-- The parts of a path that spells a place, with one slash at the end added to a folder. -/
theorem child (h : Spells path place) {name : String} (hname : IsEntryName name) :
    Spells (Path.child path name) (place ++ [name]) := by
  obtain ⟨hplace, idle, hidle, hsplit⟩ := h
  have hnames : ∀ n ∈ place ++ [name], IsEntryName n := by
    rw [List.forall_mem_append, List.forall_mem_singleton]
    exact ⟨hplace, hname⟩
  by_cases hend : Text.endsWith path "/" = true
  · obtain ⟨parts, hparts, hchild⟩ := split_child_of_endsWith hend hname.2.2.2
    rcases hsplit with hsplit | hsplit
    · -- the slash at the end belongs to an idle part, so there is no name yet
      obtain rfl : place = [] := by
        rcases List.eq_nil_or_concat' place with rfl | ⟨front, last, rfl⟩
        · rfl
        · rw [← List.append_assoc] at hsplit
          exact absurd hend (not_endsWith_slash_of_split (hplace last (by simp)).1 hsplit)
      rcases List.eq_nil_or_concat' idle with rfl | ⟨front, last, rfl⟩
      · have hhere : Text.split '/' path = [] ++ ["."] := hsplit
        exact absurd hend (not_endsWith_slash_of_split (by decide) hhere)
      · have hfront : parts ++ [""] = ("." :: front) ++ [last] := by
          simpa [hparts] using hsplit
        obtain ⟨rfl, -⟩ := List.append_inj' hfront rfl
        exact ⟨hnames, front, fun part hpart => hidle part (by simp [hpart]),
          Or.inl (by simpa using hchild)⟩
    · obtain ⟨rfl, -⟩ := List.append_inj' (hparts.symm.trans hsplit) rfl
      exact ⟨hnames, idle, hidle, Or.inl (by simpa using hchild)⟩
  · have hchild := split_child_of_not_endsWith hend hname.2.2.2
    rcases hsplit with hsplit | hsplit
    · exact ⟨hnames, idle, hidle, Or.inl (by simpa [hsplit] using hchild)⟩
    · exact absurd (endsWith_slash_of_split (by simp) hsplit) hend

/-- A walk from a path that spells a place comes to paths that spell the places below. -/
theorem pathBelow (h : Spells path place) {names : List String}
    (hnames : ∀ name ∈ names, IsEntryName name) :
    Spells (Discovery.pathBelow path names) (place ++ names) := by
  induction names generalizing path place with
  | nil => simpa [Discovery.pathBelow] using h
  | cons name names ih =>
    rw [List.forall_mem_cons] at hnames
    rw [List.append_cons]
    exact ih (h.child hnames.1) hnames.2

theorem descends (h : Spells path place) : Descends path := by
  obtain ⟨hplace, idle, hidle, hsplit⟩ := h
  have hparts : ".." ∉ idle ++ place := by
    rw [List.mem_append, not_or]
    exact ⟨fun hup => absurd (hidle _ hup) (by decide), up_not_mem hplace⟩
  rcases hsplit with hsplit | hsplit
  · exact ⟨_, hsplit, hparts⟩
  · refine ⟨idle ++ place ++ [""], hsplit, ?_⟩
    rw [List.mem_append, not_or]
    exact ⟨hparts, by decide⟩

theorem names_eq (h : Spells path place) : names path = place := by
  obtain ⟨hplace, idle, hidle, hsplit⟩ := h
  have hnone : idle.filter (fun part => !isIdle part) = [] := by
    rw [List.filter_eq_nil_iff]
    intro part hpart
    simp [hidle part hpart]
  have hhere : isIdle "." = true := rfl
  have hempty : isIdle "" = true := rfl
  rcases hsplit with hsplit | hsplit <;>
    simp [names, hsplit, List.filter_append, hhere, hempty, hnone, filter_not_isIdle hplace]

/-- The place that a path spells is the place that it leads to. -/
theorem eq_of_locate? {root : FileTree} {q : List String} (h : Spells path place)
    (hlocate : root.locate? path = some q) : q = place := by
  rw [eq_names_of_locate? hlocate h.descends.up_not_mem_split, h.names_eq]

/-- The relative form of a path that spells a place is the names with slashes between them. -/
theorem relative_eq (h : Spells path place) : relative path = "/".intercalate place := by
  obtain ⟨hplace, idle, hidle, hsplit⟩ := h
  have hkept : ∀ name ∈ place, isIdle name = false := fun name hname =>
    isIdle_eq_false (hplace name hname)
  have hrelative (parts : List String) (hparts : Text.split '/' path = "." :: idle ++ parts) :
      relative path =
        "/".intercalate ((parts.dropWhile isIdle).reverse.dropWhile isIdle).reverse := by
    rw [relative, hparts, List.cons_append]
    simp only [List.dropWhile_append_of_pos hidle]
  have htrim : (place.reverse.dropWhile isIdle).reverse = place := by
    rcases List.eq_nil_or_concat' place with rfl | ⟨front, last, rfl⟩
    · rfl
    · simp [hkept last (by simp)]
  have hstart (rest : List String) (hrest : place ≠ []) :
      (place ++ rest).dropWhile isIdle = place ++ rest := by
    obtain ⟨first, tail, rfl⟩ := List.exists_cons_of_ne_nil hrest
    exact List.dropWhile_cons_of_neg (by simp [hkept first])
  rcases hsplit with hsplit | hsplit
  · rw [hrelative place hsplit]
    by_cases hnil : place = []
    · rw [hnil]
      rfl
    · have := hstart [] hnil
      rw [List.append_nil] at this
      rw [this, htrim]
  · rw [hrelative (place ++ [""]) (by rw [hsplit, List.append_assoc])]
    by_cases hnil : place = []
    · rw [hnil]
      rfl
    · rw [hstart [""] hnil, List.reverse_append, List.reverse_singleton, List.singleton_append,
        List.dropWhile_cons_of_pos rfl, htrim]

/-- A path that spells a place and its relative form end in the same name. -/
theorem getLast?_components (h : Spells path place) (hne : place ≠ []) :
    (components path).getLast? = (components (relative path)).getLast? := by
  rw [h.relative_eq, components_intercalate h.1]
  have hup := h.descends.up_not_mem_split
  have hnames := h.names_eq
  obtain ⟨-, idle, -, hsplit⟩ := h
  obtain ⟨parts, hparts⟩ : ∃ parts, Text.split '/' path = "." :: parts := by
    rcases hsplit with hsplit | hsplit <;> exact ⟨_, hsplit⟩
  have hcomponents : components path = .here :: place.map .name := by
    rw [hparts] at hup
    rw [components, hparts]
    simp only [filterMap_inner? fun hmem => hup (List.mem_cons_of_mem "." hmem)]
    rw [← hnames, names, hparts]
    rfl
  rw [hcomponents]
  exact List.getLast?_cons_of_ne_nil (by simpa using hne)

end Spells

/-- Names with slashes between them spell a place. -/
theorem spells_child_intercalate {place : List String} (hplace : ∀ name ∈ place, IsEntryName name)
    (hne : place ≠ []) : Spells (child "." ("/".intercalate place)) place := by
  refine ⟨hplace, [], by simp, Or.inl ?_⟩
  rw [child_here, Text.split_append toList_slash, Text.split_intercalate toList_slash hne
    fun name hname => (hplace name hname).2.2.2]
  rfl

end Path

end Unqualify
