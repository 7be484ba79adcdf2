import Unqualify.Discovery
import Unqualify.Proofs.Analysis.Reports
import Unqualify.Proofs.FileTree
import Unqualify.Proofs.Name

/-!
# Where discovered files stand

A walk through a file tree joins names to paths, and a file is written back under a path that was
cut down to a relative one.  Neither loses the file: in a tree whose folders have proper entries
(`FileTree.WellFormed`) every path of the walk leads to the file whose bytes were read, and so does
the relative path when it is taken from the top again (`Discovery.stands_of_mem_discover`).
-/

namespace Unqualify

/-! ### Paths and their parts -/

namespace Path

theorem toList_slash : "/".toList = ['/'] := rfl

/-- The end of a path is no longer than the path. -/
theorem utf8ByteSize_intercalate_le {parts all : List String} (h : parts <:+ all) :
    ("/".intercalate parts).utf8ByteSize ≤ ("/".intercalate all).utf8ByteSize := by
  induction all with
  | nil =>
    obtain rfl := List.suffix_nil.1 h
    exact Nat.le_refl _
  | cons part all ih =>
    rcases List.suffix_cons_iff.1 h with rfl | hall
    · exact Nat.le_refl _
    · refine Nat.le_trans (ih hall) ?_
      cases all with
      | nil => exact Nat.zero_le _
      | cons next all =>
        rw [String.intercalate_cons_cons, String.utf8ByteSize_append]
        omega

/-- A folder is written with or without a slash at its end. -/
theorem exists_of_endsWith_slash {directory : String}
    (h : Text.endsWith directory "/" = true) : ∃ d, directory = d ++ "/" := by
  rw [Text.endsWith, List.isSuffixOf_iff_suffix] at h
  obtain ⟨cs, hcs⟩ := h
  refine ⟨String.ofList cs, ?_⟩
  rw [← String.toList_inj, ← hcs]
  simp

theorem child_here (path : String) : child "." path = "." ++ "/" ++ path := by
  rw [child, if_neg (by decide)]

end Path

/-! ### Folders with proper entries -/

namespace FileTree

/-- Whether an entry of a folder can have a name. -/
def IsEntryName (name : String) : Prop :=
  name ≠ "" ∧ name ≠ "." ∧ name ≠ ".." ∧ '/' ∉ name.toList

instance (name : String) : Decidable (IsEntryName name) := inferInstanceAs (Decidable (_ ∧ _))

/-- In every folder the entries have names that entries can have, and no name twice. -/
inductive WellFormed : FileTree → Prop
  /-- A file is well-formed whatever it holds. -/
  | file (content : ByteArray) : WellFormed (.file content)
  /-- A folder with well-formed entries. -/
  | folder {entries : List (String × FileTree)} (names : ∀ e ∈ entries, IsEntryName e.1)
    (distinct : (entries.map Prod.fst).Nodup) (below : ∀ e ∈ entries, e.2.WellFormed) :
    WellFormed (.folder entries)

theorem wellFormed_folder_iff {entries : List (String × FileTree)} :
    (folder entries).WellFormed ↔
      (∀ e ∈ entries, IsEntryName e.1) ∧ (entries.map Prod.fst).Nodup ∧
        ∀ e ∈ entries, e.2.WellFormed := by
  constructor
  · rintro ⟨⟩
    exact ⟨‹_›, ‹_›, ‹_›⟩
  · rintro ⟨names, distinct, below⟩
    exact .folder names distinct below

mutual

/-- Check a file tree from the top down. -/
def decideWellFormed : (t : FileTree) → Decidable t.WellFormed
  | .file content => .isTrue (.file content)
  | .folder entries =>
    have := decideWellFormedAll entries
    decidable_of_iff _ wellFormed_folder_iff.symm

/-- Check the entries of a folder. -/
def decideWellFormedAll :
    (entries : List (String × FileTree)) → Decidable (∀ e ∈ entries, e.2.WellFormed)
  | [] => .isTrue (by simp)
  | (_, t) :: es =>
    have := decideWellFormed t
    have := decideWellFormedAll es
    decidable_of_iff (t.WellFormed ∧ ∀ e ∈ es, e.2.WellFormed)
      (by rw [List.forall_mem_cons])

end

instance (t : FileTree) : Decidable t.WellFormed := decideWellFormed t

theorem lookup_of_mem {entries : List (String × FileTree)} {name : String} {t : FileTree}
    (hdistinct : (entries.map Prod.fst).Nodup) (h : (name, t) ∈ entries) :
    entries.lookup name = some t := by
  obtain ⟨before, after, rfl⟩ := List.append_of_mem h
  refine List.lookup_eq_some_iff.2 ⟨before, after, rfl, fun e he => ?_⟩
  rw [List.map_append, List.nodup_append] at hdistinct
  have hne := hdistinct.2.2 e.1 (List.mem_map_of_mem he) name (by simp)
  simpa using Ne.symm hne

theorem WellFormed.of_find? {root t : FileTree} {place : List String} (h : root.WellFormed)
    (hfind : root.find? place = some t) : t.WellFormed := by
  induction place generalizing root with
  | nil =>
    cases hfind
    exact h
  | cons name names ih =>
    rw [find?, Option.bind_eq_some_iff] at hfind
    obtain ⟨u, hu, hfind⟩ := hfind
    cases root with
    | file content => cases hu
    | folder es =>
      obtain ⟨before, after, rfl, -⟩ := List.lookup_eq_some_iff.1 hu
      exact ih ((wellFormed_folder_iff.1 h).2.2 (name, u) (by simp)) hfind

theorem find?_append (t : FileTree) (xs ys : List String) :
    t.find? (xs ++ ys) = (t.find? xs).bind (find? · ys) := by
  induction xs generalizing t with
  | nil => rfl
  | cons x xs ih =>
    rw [List.cons_append, find?, find?]
    cases t.entries.lookup x with
    | none => rfl
    | some u => exact ih u

/-! ### Paths from the top -/

/-- A path that starts at the top, `.`, leads to a place. -/
def LeadsTo (root : FileTree) (path : String) (place : List String) : Prop :=
  ∃ parts, Text.split '/' path = "." :: parts ∧ root.resolveFrom? [] ("." :: parts) = some place

variable {root : FileTree}

theorem locate?_eq_some_of_leadsTo {path : String} {place : List String}
    (h : root.LeadsTo path place) (hfits : isTooLong path = false) :
    root.locate? path = some place := by
  obtain ⟨parts, hparts, hplace⟩ := h
  rw [locate?, if_neg (by simp [hfits]), hparts]
  exact hplace

/-- An idle part leads nowhere, and only a folder has one after it. -/
theorem resolveFrom?_idle {place : List String} {part : String} (hidle : Path.isIdle part = true)
    (parts : List String) :
    root.resolveFrom? place (part :: parts) =
      if (root.find? place).any isFolder then root.resolveFrom? place parts else none := by
  have hpart : part = "" ∨ part = "." := by simpa [Path.isIdle] using hidle
  rw [resolveFrom?, if_pos hpart]

/-- A slash at the end of a path can be left out. -/
theorem LeadsTo.of_slash {path : String} {place : List String}
    (h : root.LeadsTo (path ++ "/") place) : root.LeadsTo path place := by
  obtain ⟨parts, hparts, hplace⟩ := h
  have hsplit : Text.split '/' (path ++ "/") = Text.split '/' path ++ [""] := by
    have := Text.split_append Path.toList_slash path ""
    rwa [String.append_empty] at this
  rw [hsplit] at hparts
  rw [← hparts, resolveFrom?_append, Option.bind_eq_some_iff] at hplace
  obtain ⟨p, hp, hplace⟩ := hplace
  have heq : p = place := by
    rw [resolveFrom?_idle rfl, resolveFrom?] at hplace
    split_ifs at hplace
    exact Option.some.inj hplace
  cases hpath : Text.split '/' path with
  | nil => simp [Text.split, Text.splitAt_ne_nil] at hpath
  | cons first ds =>
    rw [hpath, List.cons_append, List.cons.injEq] at hparts
    refine ⟨ds, ?_, ?_⟩
    · rw [hpath, hparts.1]
    · rw [← hparts.1, ← hpath, hp, heq]

/-- The path of an entry leads to the entry. -/
theorem LeadsTo.child {path : String} {place : List String} {name : String}
    (h : root.LeadsTo path place) (hfolder : (root.find? place).any isFolder = true)
    (hname : IsEntryName name) (hsome : (root.find? (place ++ [name])).isSome = true) :
    root.LeadsTo (Path.child path name) (place ++ [name]) := by
  obtain ⟨hempty, hhere, hup, hslash⟩ := hname
  have hentry : root.resolveFrom? place [name] = some (place ++ [name]) := by
    rw [resolveFrom?, if_pos hfolder, if_neg (by simp [hempty, hhere]), if_neg hup, resolveFrom?,
      if_pos hsome]
  have hjoin {d : String} (hd : root.LeadsTo d place) :
      root.LeadsTo (d ++ "/" ++ name) (place ++ [name]) := by
    obtain ⟨parts, hparts, hplace⟩ := hd
    refine ⟨parts ++ [name], ?_, ?_⟩
    · rw [Text.split_append Path.toList_slash, hparts, Text.split_of_not_mem hslash,
        List.cons_append]
    · rw [← List.cons_append, resolveFrom?_append, hplace, Option.bind_some, hentry]
  rw [Path.child]
  by_cases hend : Text.endsWith path "/" = true
  · obtain ⟨d, rfl⟩ := Path.exists_of_endsWith_slash hend
    rw [if_pos hend]
    exact hjoin h.of_slash
  · rw [if_neg hend]
    exact hjoin h

/-- Idle parts at the start of a path can be left out. -/
theorem resolveFrom?_dropWhile {place : List String} {parts : List String}
    (h : (root.resolveFrom? [] parts) = some place) (hroot : root.isFolder = true) :
    root.resolveFrom? [] (parts.dropWhile Path.isIdle) = some place := by
  induction parts with
  | nil => exact h
  | cons part parts ih =>
    by_cases hidle : Path.isIdle part = true
    · rw [List.dropWhile_cons_of_pos hidle]
      rw [resolveFrom?_idle hidle, if_pos (by simpa [find?] using hroot)] at h
      exact ih h
    · rwa [List.dropWhile_cons_of_neg hidle]

/-- A path to a file does not end in an idle part. -/
theorem not_isIdle_of_resolveFrom? {start place parts : List String} {part : String}
    {content : ByteArray} (h : root.resolveFrom? start (parts ++ [part]) = some place)
    (hfile : root.find? place = some (.file content)) : Path.isIdle part = false := by
  rw [resolveFrom?_append, Option.bind_eq_some_iff] at h
  obtain ⟨p, -, hp⟩ := h
  by_contra hidle
  rw [resolveFrom?_idle (by simpa using hidle), resolveFrom?] at hp
  split_ifs at hp with hfolder
  cases hp
  simp [hfile, isFolder] at hfolder

/-- Only a folder has a path from the top in it. -/
theorem LeadsTo.isFolder_top {path : String} {place : List String} (h : root.LeadsTo path place) :
    root.isFolder = true := by
  obtain ⟨parts, -, hplace⟩ := h
  rw [resolveFrom?_idle rfl] at hplace
  by_contra hfolder
  simp [find?, hfolder] at hplace

/-- **A path to a file and its relative form lead to the same place.** -/
theorem LeadsTo.relative {path : String} {place : List String} {content : ByteArray}
    (h : root.LeadsTo path place) (hfile : root.find? place = some (.file content)) :
    root.LeadsTo (Path.child "." (Path.relative path)) place ∧
      (Path.child "." (Path.relative path)).utf8ByteSize ≤ path.utf8ByteSize := by
  have hroot := h.isFolder_top
  obtain ⟨parts, hparts, hplace⟩ := h
  have hstart : root.resolveFrom? [] parts = some place := by
    rwa [resolveFrom?_idle rfl, if_pos (by simpa [find?] using hroot)] at hplace
  have hrest := resolveFrom?_dropWhile hstart hroot
  have hsuffix := List.dropWhile_suffix (l := parts) Path.isIdle
  have hrelative : Path.relative path = "/".intercalate
      ((parts.dropWhile Path.isIdle).reverse.dropWhile Path.isIdle).reverse := by
    rw [Path.relative, hparts]
    rfl
  rw [hrelative]
  generalize parts.dropWhile Path.isIdle = rest at hrest hsuffix
  rcases List.eq_nil_or_concat' rest with rfl | ⟨front, last, rfl⟩
  · -- the top itself is no file
    simp only [resolveFrom?, find?] at hrest
    cases hrest
    simp [find?] at hfile
    simp [hfile, isFolder] at hroot
  · have hlast := not_isIdle_of_resolveFrom? hrest hfile
    have hkeep : ((front ++ [last]).reverse.dropWhile Path.isIdle).reverse = front ++ [last] := by
      simp [hlast]
    have hslash : ∀ part ∈ front ++ [last], '/' ∉ part.toList := by
      intro part hpart
      have hmem : part ∈ Text.split '/' path := by
        rw [hparts]
        exact List.mem_cons_of_mem _ (hsuffix.subset hpart)
      exact Text.not_mem_of_mem_split hmem
    rw [hkeep, Path.child_here]
    constructor
    · refine ⟨front ++ [last], ?_, ?_⟩
      · rw [Text.split_append Path.toList_slash,
          Text.split_intercalate Path.toList_slash (by simp) hslash]
        rfl
      · rwa [resolveFrom?_idle rfl, if_pos (by simpa [find?] using hroot)]
    · have hpath : path = "." ++ "/" ++ "/".intercalate parts := by
        have hne : parts ≠ [] := by
          rintro rfl
          simp at hsuffix
        obtain ⟨next, parts', rfl⟩ := List.exists_cons_of_ne_nil hne
        rw [← String.intercalate_cons_cons, ← hparts, Text.intercalate_split Path.toList_slash]
      have hle := Path.utf8ByteSize_intercalate_le hsuffix
      rw [hpath]
      simp only [String.utf8ByteSize_append]
      omega

end FileTree

/-! ### Walks -/

namespace Discovery

open FileTree

variable {root : FileTree}

mutual

/-- Every file of a walk stands where its path leads. -/
theorem exists_place_of_mem_filesAt {path p : String} {place : List String} {c : ByteArray} :
    {t : FileTree} → t.WellFormed → root.LeadsTo path place → root.find? place = some t →
      (p, c) ∈ filesAt path t → ∃ q, root.LeadsTo p q ∧ root.find? q = some (.file c)
  | .file content, _, hpath, hplace, hmem => by
    obtain ⟨rfl, rfl⟩ : p = path ∧ c = content := by simpa [filesAt] using hmem
    exact ⟨place, hpath, hplace⟩
  | .folder entries, hwf, hpath, hplace, hmem => by
    obtain ⟨hnames, hdistinct, hbelow⟩ := wellFormed_folder_iff.1 hwf
    rw [filesAt] at hmem
    split_ifs at hmem
    · cases hmem
    · refine exists_place_of_mem_filesIn (fun e he => ⟨hnames e he, hbelow e he, ?_⟩) hpath
        (by rw [hplace]; rfl) hmem
      rw [find?_append, hplace, Option.bind_some, find?, FileTree.entries,
        lookup_of_mem hdistinct he]
      rfl

/-- Every file below some entries of a folder stands where its path leads. -/
theorem exists_place_of_mem_filesIn {path p : String} {place : List String} {c : ByteArray} :
    {es : List (String × FileTree)} →
      (∀ e ∈ es, IsEntryName e.1 ∧ e.2.WellFormed ∧ root.find? (place ++ [e.1]) = some e.2) →
      root.LeadsTo path place → (root.find? place).any isFolder = true →
      (p, c) ∈ filesIn path es → ∃ q, root.LeadsTo p q ∧ root.find? q = some (.file c)
  | [], _, _, _, hmem => by cases hmem
  | (name, t) :: es, hes, hpath, hfolder, hmem => by
    obtain ⟨⟨hname, hwf, hfind⟩, hrest⟩ := List.forall_mem_cons.1 hes
    rw [filesIn, List.mem_append] at hmem
    rcases hmem with hmem | hmem
    · split_ifs at hmem
      · cases hmem
      · exact exists_place_of_mem_filesAt hwf (hpath.child hfolder hname (by rw [hfind]; rfl))
          hfind hmem
    · exact exists_place_of_mem_filesIn hrest hpath hfolder hmem

end

theorem split_of_startsWith_slash {path : String} (h : Text.startsWith path "/" = true) :
    ∃ parts, Text.split '/' path = "" :: parts := by
  rw [Text.startsWith, List.isPrefixOf_iff_prefix] at h
  obtain ⟨cs, hcs⟩ := h
  refine ⟨(Text.splitAt '/' cs).map String.ofList, ?_⟩
  rw [Text.split, ← hcs]
  rfl

theorem locate?_eq_none_of_slash {path : String} (h : Text.startsWith path "/" = true) :
    root.locate? path = none := by
  obtain ⟨parts, hsplit⟩ := split_of_startsWith_slash h
  rw [locate?, hsplit]
  split_ifs <;> rfl

/-- A walk starts at the top. -/
theorem leadsTo_of_mem_starts {paths : List String} {start : String} {place : List String}
    (hstart : start ∈ starts paths) (h : root.locate? start = some place) :
    root.LeadsTo start place := by
  have hparts : ∃ parts, Text.split '/' start = "." :: parts := by
    rw [starts] at hstart
    split_ifs at hstart
    · exact ⟨[], by rw [List.mem_singleton.1 hstart]; rfl⟩
    · obtain ⟨path, -, rfl⟩ := List.mem_map.1 hstart
      by_cases habs : Text.startsWith path "/" = true
      · rw [if_pos habs, locate?_eq_none_of_slash habs] at h
        cases h
      · rw [if_neg habs, Path.child_here, Text.split_append Path.toList_slash]
        exact ⟨Text.split '/' path, rfl⟩
  obtain ⟨parts, hparts⟩ := hparts
  refine ⟨parts, hparts, ?_⟩
  rw [locate?, hparts] at h
  split_ifs at h
  exact h

/-! ### Discovered files -/

/-- Whether a file passes the filters of discovery. -/
def Admitted (config : Config) (file : SourceFile) : Prop :=
  config.shouldScan (Text.replaceChar '\\' '/' file.path) = true ∧
    Generated.isGenerated file.path file.text = false

theorem fromUTF8?_eq_some_iff {content : ByteArray} {text : String} :
    String.fromUTF8? content = some text ↔ text.toUTF8 = content := by
  rw [String.fromUTF8?]
  constructor
  · intro h
    split at h
    · cases h
      rfl
    · cases h
  · rintro rfl
    exact dif_pos text.isValidUTF8

/-- What is read from a path has the relative form of the path and the bytes found there. -/
theorem read_eq_some_iff {config : Config} {path : String} {content : ByteArray}
    {file : SourceFile} :
    read config (path, content) = .ok (some file) ↔
      Analysis.isSupported path = true ∧ isTooLong path = false ∧
        file.path = Path.relative path ∧ file.text.toUTF8 = content ∧ Admitted config file := by
  have hofBytes : ofBytes? (Path.relative path) content = some file ↔
      file.path = Path.relative path ∧ file.text.toUTF8 = content ∧
        Generated.isGenerated file.path file.text = false := by
    rw [ofBytes?, Option.bind_eq_bind, Option.bind_eq_some_iff]
    constructor
    · rintro ⟨text, htext, h⟩
      split_ifs at h with hgenerated
      cases h
      exact ⟨rfl, fromUTF8?_eq_some_iff.1 htext, by simpa using hgenerated⟩
    · rintro ⟨hpath, htext, hgenerated⟩
      refine ⟨file.text, fromUTF8?_eq_some_iff.2 htext, ?_⟩
      rw [← hpath, hgenerated, if_neg Bool.false_ne_true]
  simp only [read]
  by_cases hsupported : Analysis.isSupported path = true
  · by_cases hscan : config.shouldScan (Text.replaceChar '\\' '/' (Path.relative path)) = true
    · rw [if_neg (by simp [hsupported, hscan])]
      by_cases hlong : isTooLong path = true
      · simp [hlong]
      · rw [if_neg hlong, Except.ok.injEq, hofBytes, Admitted]
        constructor
        · rintro ⟨hpath, htext, hgenerated⟩
          exact ⟨hsupported, by simpa using hlong, hpath, htext, by rwa [hpath], hgenerated⟩
        · rintro ⟨-, -, hpath, htext, -, hgenerated⟩
          exact ⟨hpath, htext, hgenerated⟩
    · rw [if_pos (by simp [hscan])]
      refine ⟨nofun, ?_⟩
      rintro ⟨-, -, hpath, -, hadmitted, -⟩
      exact absurd (hpath ▸ hadmitted) hscan
  · rw [if_pos (by simp [hsupported])]
    exact ⟨nofun, fun h => absurd h.1 hsupported⟩

/-- Reading fails only because a path is too long. -/
theorem read_eq_error_iff {config : Config} {path : String} {content : ByteArray} {e : Error} :
    read config (path, content) = .error e ↔
      Analysis.isSupported path = true ∧
        config.shouldScan (Text.replaceChar '\\' '/' (Path.relative path)) = true ∧
        isTooLong path = true ∧ e = .io "File name too long (os error 36)" := by
  simp only [read]
  by_cases hskip : (!Analysis.isSupported path ||
      !config.shouldScan (Text.replaceChar '\\' '/' (Path.relative path))) = true
  · rw [if_pos hskip]
    refine ⟨nofun, fun h => ?_⟩
    simp [h.1, h.2.1] at hskip
  · rw [if_neg hskip]
    simp only [Bool.or_eq_true, Bool.not_eq_true', not_or, Bool.not_eq_false] at hskip
    by_cases hlong : isTooLong path = true
    · simp [hlong, hskip, eq_comm]
    · simp [hlong]

theorem dropRepeatsAfter_sublist (last : SourceFile) (files : List SourceFile) :
    (dropRepeatsAfter last files).Sublist files := by
  induction files generalizing last with
  | nil => exact .slnil
  | cons file files ih =>
    rw [dropRepeatsAfter]
    split_ifs
    · exact (ih last).cons file
    · exact (ih file).cons_cons file

theorem dropRepeats_sublist (files : List SourceFile) : (dropRepeats files).Sublist files := by
  cases files with
  | nil => exact .slnil
  | cons file files => exact (dropRepeatsAfter_sublist file files).cons_cons file

/-- The source files below a start are what is read from the files of the walk. -/
theorem below_eq_ok {config : Config} {start : String} {files : List SourceFile}
    (h : below root config start = .ok files) :
    ∃ place t found, root.locate? start = some place ∧ root.find? place = some t ∧
      (filesAt start t).mapM (read config) = .ok found ∧ files = found.filterMap id := by
  rw [below] at h
  split at h
  · cases h
  · next t ht =>
    obtain ⟨place, hplace, hfind⟩ := Option.bind_eq_some_iff.1 ht
    cases hfound : (filesAt start t).mapM (read config) with
    | error e =>
      rw [hfound] at h
      cases h
    | ok found =>
      rw [hfound] at h
      cases h
      exact ⟨place, t, found, hplace, hfind, hfound, rfl⟩

theorem exists_of_mem_discover {paths : List String} {config : Config} {files : List SourceFile}
    (h : discover root paths config = .ok files) {file : SourceFile} (hfile : file ∈ files) :
    ∃ start ∈ starts paths, ∃ found, below root config start = .ok found ∧ file ∈ found := by
  cases hfound : (starts paths).mapM (below root config) with
  | error e =>
    rw [discover, hfound] at h
    cases h
  | ok found =>
    rw [discover, hfound] at h
    cases h
    have hmem : file ∈ found.flatten :=
      (List.mergeSort_perm _ _).subset ((dropRepeats_sublist _).subset hfile)
    obtain ⟨some, hsome, hfile⟩ := List.mem_flatten.1 hmem
    obtain ⟨start, hstart, hbelow⟩ := exists_of_mem_of_mapM hfound hsome
    exact ⟨start, hstart, some, hbelow, hfile⟩

/-- Discovery does not fail only if all paths asked for lead somewhere. -/
theorem locate?_ne_none_of_discover {paths : List String} {config : Config}
    {files : List SourceFile} (h : discover root paths config = .ok files) {start : String}
    (hstart : start ∈ starts paths) : root.locate? start ≠ none := by
  cases hfound : (starts paths).mapM (below root config) with
  | error e =>
    rw [discover, hfound] at h
    cases h
  | ok found =>
    obtain ⟨files, hbelow⟩ := exists_ok_of_mapM hfound hstart
    obtain ⟨place, -, -, hplace, -⟩ := below_eq_ok hbelow
    simp [hplace]

/-- **A discovered file stands where its path leads from the top, with the bytes of its text.** -/
theorem stands_of_mem_discover (hroot : root.WellFormed) {paths : List String} {config : Config}
    {files : List SourceFile} (h : discover root paths config = .ok files) {file : SourceFile}
    (hfile : file ∈ files) :
    Admitted config file ∧ ∃ place, root.locate? (Path.child "." file.path) = some place ∧
      root.contentAt? place = some (some file.text.toUTF8) := by
  obtain ⟨start, hstart, found, hbelow, hmem⟩ := exists_of_mem_discover h hfile
  obtain ⟨top, t, all, htop, hfind, hread, rfl⟩ := below_eq_ok hbelow
  obtain ⟨-, hall, rfl⟩ := List.mem_filterMap.1 hmem
  obtain ⟨⟨path, content⟩, hwalk, hfile⟩ := exists_of_mem_of_mapM hread hall
  obtain ⟨-, hfits, hpath, htext, hadmitted⟩ := read_eq_some_iff.1 hfile
  obtain ⟨place, hleads, hplace⟩ := exists_place_of_mem_filesAt (hroot.of_find? hfind)
    (leadsTo_of_mem_starts hstart htop) hfind hwalk
  obtain ⟨hrelative, hsize⟩ := hleads.relative hplace
  refine ⟨hadmitted, place, ?_, ?_⟩
  · rw [hpath]
    refine locate?_eq_some_of_leadsTo hrelative ?_
    simp only [isTooLong, decide_eq_false_iff_not, Nat.not_lt] at hfits ⊢
    omega
  · rw [htext]
    exact contentAt?_eq_file_iff.2 hplace

end Discovery

end Unqualify
