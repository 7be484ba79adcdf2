import Unqualify.Proofs.Discovery

/-!
# The files of a walk

A walk that starts at a path comes to the files below it by their names, one folder after the other
(`Discovery.pathBelow`).  It passes over folders with certain names and over folders whose path is
too long to be listed, and comes to every other file (`Discovery.mem_filesAt_iff`).

Discovery walks from every start, sorts what can be read by path and keeps the first of neighbours
with the same path.  In the sorted list files with the same path are neighbours, so the paths of the
files that are kept come strictly one after the other, and each file that was read has a kept one
with its path (`Discovery.discovered_of_discover`).  When every start leads somewhere, only a file
that cannot be read makes discovery fail (`Discovery.discover_total`).
-/

namespace Unqualify

/-! ### Parts of a path -/

namespace Path

theorem split_child_of_endsWith {directory name : String}
    (h : Text.endsWith directory "/" = true) (hname : '/' ∉ name.toList) :
    ∃ parts, Text.split '/' directory = parts ++ [""] ∧
      Text.split '/' (child directory name) = parts ++ [name] := by
  obtain ⟨d, rfl⟩ := exists_of_endsWith_slash h
  refine ⟨Text.split '/' d, ?_, ?_⟩
  · have hsplit := Text.split_append toList_slash d ""
    rwa [String.append_empty] at hsplit
  · rw [child, if_pos h, Text.split_append toList_slash, Text.split_of_not_mem hname]

theorem split_child_of_not_endsWith {directory name : String}
    (h : ¬ Text.endsWith directory "/" = true) (hname : '/' ∉ name.toList) :
    Text.split '/' (child directory name) = Text.split '/' directory ++ [name] := by
  rw [child, if_neg h, Text.split_append toList_slash, Text.split_of_not_mem hname]

theorem utf8ByteSize_le_child (directory name : String) :
    directory.utf8ByteSize ≤ (child directory name).utf8ByteSize := by
  rw [child]
  split_ifs <;> simp only [String.utf8ByteSize_append] <;> omega

end Path

namespace FileTree

/-- Induction on file trees, with one hypothesis for each entry of a folder. -/
@[elab_as_elim]
theorem inductionOn {P : FileTree → Prop} (t : FileTree) (file : ∀ content, P (.file content))
    (folder : ∀ entries, (∀ e ∈ entries, P e.2) → P (.folder entries)) : P t :=
  match t with
  | .file content => file content
  | .folder entries => folder entries fun e _ => inductionOn e.2 file folder
decreasing_by
  have hlt := List.sizeOf_lt_of_mem ‹e ∈ entries›
  obtain ⟨name, t⟩ := e
  simp only [Prod.mk.sizeOf_spec, FileTree.folder.sizeOf_spec] at hlt ⊢
  omega

theorem mem_entries_iff {entries : List (String × FileTree)} {name : String} {t : FileTree}
    (hdistinct : (entries.map Prod.fst).Nodup) :
    (name, t) ∈ entries ↔ entries.lookup name = some t := by
  refine ⟨lookup_of_mem hdistinct, fun h => ?_⟩
  obtain ⟨before, after, rfl, -⟩ := List.lookup_eq_some_iff.1 h
  simp

/-- The names on the way to something in a well-formed tree are names of entries. -/
theorem WellFormed.isEntryName {t u : FileTree} {names : List String} (h : t.WellFormed)
    (hfind : t.find? names = some u) : ∀ name ∈ names, IsEntryName name := by
  induction names generalizing t with
  | nil => simp
  | cons name names ih =>
    rw [find?, Option.bind_eq_some_iff] at hfind
    obtain ⟨v, hv, hfind⟩ := hfind
    cases t with
    | file content => cases hv
    | folder entries =>
      obtain ⟨hnames, hdistinct, hbelow⟩ := wellFormed_folder_iff.1 h
      have hmem : (name, v) ∈ entries := (mem_entries_iff hdistinct).2 hv
      rw [List.forall_mem_cons]
      exact ⟨hnames _ hmem, ih (hbelow _ hmem) hfind⟩

end FileTree

namespace Discovery

open FileTree

/-! ### Names on the way to a file -/

/-- The path of what stands under a list of names below a path. -/
def pathBelow (path : String) (names : List String) : String := names.foldl Path.child path

/-- No folder on the way to a file is one that walks pass over.  The last name is that of the file
and may be any. -/
def Unskipped (names : List String) : Prop := ∀ name ∈ names.dropLast, name ∉ skippedFolders

/-- Every folder on the way to a file can be listed: the path of none of them is too long. -/
def Listed (path : String) (names : List String) : Prop :=
  ∀ start, start <+: names → start ≠ names → isTooLong (pathBelow path start) = false

instance (names : List String) : Decidable (Unskipped names) :=
  inferInstanceAs (Decidable (∀ name ∈ names.dropLast, name ∉ skippedFolders))

theorem pathBelow_append (path : String) (xs ys : List String) :
    pathBelow path (xs ++ ys) = pathBelow (pathBelow path xs) ys := List.foldl_append

theorem unskipped_cons {name : String} {names : List String} :
    Unskipped (name :: names) ↔ (names = [] ∨ name ∉ skippedFolders) ∧ Unskipped names := by
  cases names with
  | nil => simp [Unskipped]
  | cons next names => simp [Unskipped]

theorem listed_nil (path : String) : Listed path [] :=
  fun _ hstart hne => absurd (List.prefix_nil.1 hstart) hne

theorem listed_cons {path name : String} {names : List String} :
    Listed path (name :: names) ↔
      isTooLong path = false ∧ Listed (Path.child path name) names := by
  constructor
  · intro h
    refine ⟨h [] List.nil_prefix (List.cons_ne_nil _ _).symm, fun start hstart hne => ?_⟩
    exact h (name :: start) (List.cons_prefix_cons.2 ⟨rfl, hstart⟩) (by simpa using hne)
  · rintro ⟨hpath, hnames⟩ start hstart hne
    cases start with
    | nil => exact hpath
    | cons first start =>
      obtain ⟨rfl, hrest⟩ := List.cons_prefix_cons.1 hstart
      exact hnames start hrest (by simpa using hne)

theorem utf8ByteSize_le_pathBelow (path : String) (names : List String) :
    path.utf8ByteSize ≤ (pathBelow path names).utf8ByteSize := by
  induction names generalizing path with
  | nil => exact Nat.le_refl _
  | cons name names ih => exact Nat.le_trans (Path.utf8ByteSize_le_child path name) (ih _)

theorem isTooLong_eq_false {path longer : String}
    (hle : path.utf8ByteSize ≤ longer.utf8ByteSize) (h : isTooLong longer = false) :
    isTooLong path = false := by
  simp only [isTooLong, decide_eq_false_iff_not, Nat.not_lt] at h ⊢
  omega

/-- The folder that a file stands in has the longest path of the folders on the way to it. -/
theorem listed_concat {path last : String} {front : List String} :
    Listed path (front ++ [last]) ↔ isTooLong (pathBelow path front) = false := by
  constructor
  · intro h
    exact h front (List.prefix_append front [last]) (by simp)
  · intro h start hstart hne
    obtain ⟨rest, rfl⟩ := (List.prefix_concat_iff.1 hstart).resolve_left hne
    refine isTooLong_eq_false ?_ h
    rw [pathBelow_append]
    exact utf8ByteSize_le_pathBelow _ _

/-! ### The walk -/

theorem mem_filesIn_iff {path : String} {entries : List (String × FileTree)}
    {found : String × ByteArray} :
    found ∈ filesIn path entries ↔ ∃ name t, (name, t) ∈ entries ∧
      (t.isFolder = true → name ∉ skippedFolders) ∧ found ∈ filesAt (Path.child path name) t := by
  induction entries with
  | nil => simp [filesIn]
  | cons e es ih =>
    obtain ⟨name, t⟩ := e
    have hhead : found ∈ (if t.isFolder && skippedFolders.contains name then []
        else filesAt (Path.child path name) t) ↔
        (t.isFolder = true → name ∉ skippedFolders) ∧ found ∈ filesAt (Path.child path name) t := by
      by_cases hskip : (t.isFolder && skippedFolders.contains name) = true
      · rw [if_pos hskip]
        rw [Bool.and_eq_true, List.contains_iff_mem] at hskip
        simp [hskip]
      · rw [if_neg hskip]
        rw [Bool.and_eq_true, List.contains_iff_mem, not_and] at hskip
        exact (and_iff_right hskip).symm
    rw [filesIn, List.mem_append, hhead, ih]
    simp only [List.mem_cons, Prod.mk.injEq, or_and_right, exists_or, and_assoc]
    simp

/-- **The files that a walk comes to**, in a tree with proper entries: those under lists of names on
which no folder is passed over. -/
theorem mem_filesAt_iff {t : FileTree} (h : t.WellFormed) {path p : String} {c : ByteArray} :
    (p, c) ∈ filesAt path t ↔ ∃ names, t.find? names = some (.file c) ∧ Unskipped names ∧
      Listed path names ∧ p = pathBelow path names := by
  induction t using FileTree.inductionOn generalizing path with
  | file content =>
    rw [filesAt, List.mem_singleton, Prod.mk.injEq]
    constructor
    · rintro ⟨rfl, rfl⟩
      exact ⟨[], rfl, by simp [Unskipped], listed_nil p, rfl⟩
    · rintro ⟨names, hfind, -, -, rfl⟩
      cases names with
      | nil =>
        cases hfind
        exact ⟨rfl, rfl⟩
      | cons name names => cases hfind
  | folder entries ih =>
    obtain ⟨-, hdistinct, hbelow⟩ := wellFormed_folder_iff.1 h
    have hfolder : (p, c) ∈ filesAt path (.folder entries) ↔
        isTooLong path = false ∧ (p, c) ∈ filesIn path entries := by
      rw [filesAt]
      by_cases hlong : isTooLong path = true <;> simp [hlong]
    rw [hfolder, mem_filesIn_iff]
    constructor
    · rintro ⟨hfits, name, t, hmem, hskip, hfile⟩
      obtain ⟨names, hfind, hunskipped, hlisted, rfl⟩ := (ih _ hmem (hbelow _ hmem)).1 hfile
      refine ⟨name :: names, ?_, unskipped_cons.2 ⟨?_, hunskipped⟩,
        listed_cons.2 ⟨hfits, hlisted⟩, rfl⟩
      · rw [find?, FileTree.entries, lookup_of_mem hdistinct hmem]
        exact hfind
      · -- what has something below it is a folder
        cases t with
        | file content =>
          cases names with
          | nil => exact Or.inl rfl
          | cons next names => cases hfind
        | folder es => exact Or.inr (hskip rfl)
    · rintro ⟨names, hfind, hunskipped, hlisted, rfl⟩
      cases names with
      | nil => cases hfind
      | cons name names =>
        obtain ⟨hskip, hunskipped⟩ := unskipped_cons.1 hunskipped
        obtain ⟨hfits, hlisted⟩ := listed_cons.1 hlisted
        rw [find?, Option.bind_eq_some_iff] at hfind
        obtain ⟨t, ht, hfind⟩ := hfind
        have hmem : (name, t) ∈ entries := (mem_entries_iff hdistinct).2 ht
        refine ⟨hfits, name, t, hmem, fun hfolder => ?_,
          (ih _ hmem (hbelow _ hmem)).2 ⟨names, hfind, hunskipped, hlisted, rfl⟩⟩
        refine hskip.resolve_left ?_
        rintro rfl
        cases hfind
        cases hfolder

/-! ### Neighbours with the same path -/

/-- Of files in the order of paths, those that are kept come strictly one after the other. -/
theorem pairwise_dropRepeatsAfter {last : SourceFile} {files : List SourceFile}
    (h : (last :: files).Pairwise fun a b => Path.le a.path b.path = true) :
    (last :: dropRepeatsAfter last files).Pairwise fun a b =>
      Path.compare a.path b.path = .lt := by
  induction files generalizing last with
  | nil => exact List.pairwise_singleton _ _
  | cons file files ih =>
    obtain ⟨hlast, hfiles⟩ := List.pairwise_cons.1 h
    rw [dropRepeatsAfter]
    split_ifs with hsame
    · exact ih (h.sublist ((List.sublist_cons_self file files).cons_cons last))
    · have hlt : Path.compare last.path file.path = .lt :=
        Path.lt_of_le (hlast file List.mem_cons_self) (by simpa [Path.same] using hsame)
      refine List.pairwise_cons.2 ⟨fun other hother => ?_, ih hfiles⟩
      rcases List.mem_cons.1 hother with rfl | hother
      · exact hlt
      · have hmem := (dropRepeatsAfter_sublist file files).subset hother
        exact Path.lt_of_lt_of_le hlt ((List.pairwise_cons.1 hfiles).1 other hmem)

theorem pairwise_dropRepeats {files : List SourceFile}
    (h : files.Pairwise fun a b => Path.le a.path b.path = true) :
    (dropRepeats files).Pairwise fun a b => Path.compare a.path b.path = .lt := by
  cases files with
  | nil => exact .nil
  | cons file files => exact pairwise_dropRepeatsAfter h

/-- Each file has a kept one with the same path, in whatever order they are. -/
theorem exists_kept_dropRepeatsAfter {last file : SourceFile} {files : List SourceFile}
    (h : file ∈ last :: files) : ∃ kept ∈ last :: dropRepeatsAfter last files,
      Path.components kept.path = Path.components file.path := by
  induction files generalizing last with
  | nil => exact ⟨file, h, rfl⟩
  | cons next files ih =>
    rw [dropRepeatsAfter]
    rcases List.mem_cons.1 h with rfl | hmem
    · exact ⟨file, List.mem_cons_self, rfl⟩
    · split_ifs with hsame
      · have hnext : Path.components last.path = Path.components next.path := by
          simpa [Path.same] using hsame
        rcases List.mem_cons.1 hmem with rfl | hmem
        · exact ⟨last, List.mem_cons_self, hnext⟩
        · exact ih (List.mem_cons_of_mem last hmem)
      · obtain ⟨kept, hkept, hpath⟩ := ih hmem
        exact ⟨kept, List.mem_cons_of_mem last hkept, hpath⟩

theorem exists_kept_dropRepeats {file : SourceFile} {files : List SourceFile} (h : file ∈ files) :
    ∃ kept ∈ dropRepeats files, Path.components kept.path = Path.components file.path := by
  cases files with
  | nil => cases h
  | cons first files => exact exists_kept_dropRepeatsAfter h

/-! ### What is discovered -/

variable {root : FileTree} {paths : List String} {config : Config}

/-- A walk from a start comes to a file: its path and its bytes. -/
def Walked (root : FileTree) (start : String) (found : String × ByteArray) : Prop :=
  ∃ place t, root.locate? start = some place ∧ root.find? place = some t ∧
    found ∈ filesAt start t

/-- What discovery gives when it does not fail. -/
structure Discovered (root : FileTree) (paths : List String) (config : Config)
    (files : List SourceFile) : Prop where
  /-- The paths come strictly one after the other. -/
  ordered : files.Pairwise fun a b => Path.compare a.path b.path = .lt
  /-- Every file that a walk came to could be read or was left out. -/
  readable : ∀ start ∈ starts paths, ∀ found, Walked root start found →
    ∃ file?, read config found = .ok file?
  /-- Every file was read on a walk. -/
  read : ∀ file ∈ files, ∃ start ∈ starts paths, ∃ found, Walked root start found ∧
    read config found = .ok (some file)
  /-- Of the files that were read, one with each path is there. -/
  kept : ∀ start ∈ starts paths, ∀ found, Walked root start found → ∀ file,
    Discovery.read config found = .ok (some file) →
      ∃ kept ∈ files, Path.components kept.path = Path.components file.path

/-- A place that is led to is there. -/
theorem isSome_find?_of_resolveFrom? {place parts q : List String}
    (h : root.resolveFrom? place parts = some q) : (root.find? q).isSome = true := by
  fun_induction resolveFrom? root place parts with
  | case1 place hsome =>
    cases h
    exact hsome
  | case2 => cases h
  | case3 place part parts hfolder hidle ih => exact ih h
  | case4 => cases h
  | case5 place parts hfolder hne hidle ih => exact ih h
  | case6 place part parts hfolder hidle hup ih => exact ih h
  | case7 => cases h

theorem isSome_find?_of_locate? {path : String} {place : List String}
    (h : root.locate? path = some place) : (root.find? place).isSome = true := by
  rw [locate?] at h
  split_ifs at h
  split at h
  · cases h
  · exact isSome_find?_of_resolveFrom? h

/-- A start that leads somewhere is walked from: all that the walk comes to can be read, or the
first file that cannot be read is what the walk fails with. -/
theorem below_cases (config : Config) {start : String} (h : root.locate? start ≠ none) :
    (∃ files, below root config start = .ok files) ∨
      ∃ found, Walked root start found ∧ ∃ e, read config found = .error e ∧
        below root config start = .error e := by
  obtain ⟨place, hplace⟩ := Option.ne_none_iff_exists'.1 h
  obtain ⟨t, hfind⟩ := Option.isSome_iff_exists.1 (isSome_find?_of_locate? hplace)
  have hbelow : below root config start =
      ((filesAt start t).mapM (read config)).map (List.filterMap id) := by
    simp only [below, hplace, Option.bind_some, hfind]
    cases (filesAt start t).mapM (read config) <;> rfl
  rw [hbelow]
  rcases mapM_cases (read config) (filesAt start t) with
    ⟨files?, hread⟩ | ⟨found, hfound, e, he, hread⟩
  · exact Or.inl ⟨_, by rw [hread]; rfl⟩
  · exact Or.inr ⟨found, ⟨place, t, hplace, hfind, hfound⟩, e, he, by rw [hread]; rfl⟩

/-- When every start leads somewhere, discovery fails only for a file that cannot be read. -/
theorem discover_total (config : Config) (h : ∀ start ∈ starts paths, root.locate? start ≠ none) :
    (∃ files, discover root paths config = .ok files) ∨
      ∃ start ∈ starts paths, ∃ found, Walked root start found ∧
        ∃ e, read config found = .error e ∧ discover root paths config = .error e := by
  rw [discover]
  rcases mapM_cases (below root config) (starts paths) with
    ⟨found, hfound⟩ | ⟨start, hstart, e, he, herror⟩
  · exact Or.inl ⟨_, by rw [hfound]; rfl⟩
  · rcases below_cases config (h start hstart) with
      ⟨files, hfiles⟩ | ⟨found, hwalked, e', hread, he'⟩
    · rw [hfiles] at he
      cases he
    · obtain rfl : e' = e := Except.error.inj (he'.symm.trans he)
      exact Or.inr ⟨start, hstart, found, hwalked, e', hread, by rw [herror]; rfl⟩

/-- All that a walk comes to was read, and every source file was read from something. -/
theorem below_ok {start : String} {files : List SourceFile}
    (h : below root config start = .ok files) :
    (∀ found, Walked root start found → ∃ file?, read config found = .ok file? ∧
      ∀ file ∈ file?, file ∈ files) ∧
    ∀ file ∈ files, ∃ found, Walked root start found ∧ read config found = .ok (some file) := by
  obtain ⟨place, t, files?, hplace, hfind, hread, rfl⟩ := below_eq_ok h
  constructor
  · rintro found ⟨place', t', hplace', hfind', hfound⟩
    obtain rfl : place' = place := Option.some.inj (hplace'.symm.trans hplace)
    obtain rfl : t' = t := Option.some.inj (hfind'.symm.trans hfind)
    have hmem : read config found ∈ files?.map .ok :=
      map_eq_of_mapM hread ▸ List.mem_map_of_mem hfound
    obtain ⟨file?, hfile, heq⟩ := List.mem_map.1 hmem
    refine ⟨file?, heq.symm, ?_⟩
    rintro file rfl
    exact List.mem_filterMap.2 ⟨some file, hfile, rfl⟩
  · intro file hfile
    obtain ⟨-, hmem, rfl⟩ := List.mem_filterMap.1 hfile
    obtain ⟨found, hfound, heq⟩ := exists_of_mem_of_mapM hread hmem
    exact ⟨found, ⟨place, t, hplace, hfind, hfound⟩, heq⟩

/-- **What discovery gives**: the files that the walks come to and that can be read, by path and one
for each path. -/
theorem discovered_of_discover {files : List SourceFile}
    (h : discover root paths config = .ok files) : Discovered root paths config files := by
  cases hfound : (starts paths).mapM (below root config) with
  | error e =>
    rw [discover, hfound] at h
    cases h
  | ok found =>
    rw [discover, hfound] at h
    cases h
    have hsorted : (found.flatten.mergeSort fun a b => Path.le a.path b.path).Pairwise
        fun a b => Path.le a.path b.path = true := by
      refine List.pairwise_mergeSort ?_ ?_ _
      · intro a b c hab hbc
        exact Path.le_trans hab hbc
      · intro a b
        exact Path.le_total a.path b.path
    have hbelow {start : String} (hstart : start ∈ starts paths) :
        ∃ files ∈ found, below root config start = .ok files := by
      have hmem : below root config start ∈ found.map .ok :=
        map_eq_of_mapM hfound ▸ List.mem_map_of_mem hstart
      obtain ⟨files, hfiles, heq⟩ := List.mem_map.1 hmem
      exact ⟨files, hfiles, heq.symm⟩
    refine ⟨pairwise_dropRepeats hsorted, fun start hstart found hwalked => ?_,
      fun file hfile => ?_, fun start hstart found hwalked file hread => ?_⟩
    · obtain ⟨files, -, hfiles⟩ := hbelow hstart
      obtain ⟨file?, hfile, -⟩ := (below_ok hfiles).1 found hwalked
      exact ⟨file?, hfile⟩
    · have hmem := List.mem_mergeSort.1 ((dropRepeats_sublist _).subset hfile)
      obtain ⟨files, hfiles, hfile⟩ := List.mem_flatten.1 hmem
      obtain ⟨start, hstart, heq⟩ := exists_of_mem_of_mapM hfound hfiles
      exact ⟨start, hstart, (below_ok heq).2 file hfile⟩
    · obtain ⟨files, hfiles, heq⟩ := hbelow hstart
      obtain ⟨file?, hfile?, hmem⟩ := (below_ok heq).1 found hwalked
      rw [hread] at hfile?
      cases hfile?
      exact exists_kept_dropRepeats
        (List.mem_mergeSort.2 (List.mem_flatten.2 ⟨files, hfiles, hmem file rfl⟩))

end Discovery

end Unqualify
