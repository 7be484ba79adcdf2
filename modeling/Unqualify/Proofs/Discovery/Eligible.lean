import Unqualify.Proofs.Discovery.Spelling

/-!
# The eligible files

For plain paths (`Path.IsPlain`), discovery gives a set of files that can be said without any walk:
those that stand at a place that the paths come to, have a supported extension, are text, pass the
configuration and were not generated (`Discovery.Eligible`).  It gives each of them once and in the
order of paths, so the order of the paths that are asked for, repetitions among them and paths that
lead below others make no difference (`Discovery.discover_exactly_eligible`).

What cannot be opened because its path is too long ends the run
(`Discovery.MeetsOverlong`); nothing else does.
-/

namespace Unqualify

open FileTree

/-- A path made of names of entries, with single slashes between them. -/
def Path.IsPlain (path : String) : Prop := ∀ part ∈ Text.split '/' path, IsEntryName part

instance (path : String) : Decidable (Path.IsPlain path) :=
  inferInstanceAs (Decidable (∀ part ∈ Text.split '/' path, IsEntryName part))

namespace Discovery

/-! ### Places that paths come to -/

/-- The places at which a run starts: the top, or where the plain paths lead that are asked for. -/
def startPlaces (paths : List String) : List (List String) :=
  if paths.isEmpty then [[]] else paths.map (Text.split '/')

/-- A place is a start itself or lies below one, and no folder strictly below that start on the way
to it is one that walks pass over. -/
def Reached (paths : List String) (place : List String) : Prop :=
  ∃ start ∈ startPlaces paths, ∃ names, place = start ++ names ∧ Unskipped names

/-- A file that a run is to analyse stands at a place. -/
structure Eligible (root : FileTree) (paths : List String) (config : Config)
    (place : List String) (file : SourceFile) : Prop where
  /-- The path is the plain one, from the top. -/
  path_eq : file.path = "/".intercalate place
  /-- The path leads to the place. -/
  stands : root.locate? (Path.child "." file.path) = some place
  /-- A file stands there, and its bytes are the text. -/
  content : root.find? place = some (.file file.text.toUTF8)
  /-- The file has the extension of the language. -/
  extension : Path.extension? file.path = some "cs"
  /-- The configuration lets the path through. -/
  scanned : config.shouldScan (Text.replaceChar '\\' '/' file.path) = true
  /-- No generator wrote the file. -/
  written : Generated.isGenerated file.path file.text = false
  /-- The paths that are asked for come to it. -/
  reached : Reached paths place

/-- A run comes to a file that it would have to read, in a folder that can be listed, but the path
of the file is too long to be opened. -/
def MeetsOverlong (root : FileTree) (paths : List String) (config : Config) : Prop :=
  ∃ place content, root.find? place = some (.file content) ∧ Reached paths place ∧
    Path.extension? ("/".intercalate place) = some "cs" ∧
    config.shouldScan (Text.replaceChar '\\' '/' ("/".intercalate place)) = true ∧
    isTooLong (pathBelow "." place.dropLast) = false ∧ isTooLong (pathBelow "." place) = true

/-! ### Plain paths -/

section Plain

variable {place : List String}

theorem split_pathBelow {path : String} {names : List String}
    (hend : ¬ Text.endsWith path "/" = true) (hnames : ∀ name ∈ names, IsEntryName name) :
    Text.split '/' (pathBelow path names) = Text.split '/' path ++ names := by
  induction names generalizing path with
  | nil => exact (List.append_nil _).symm
  | cons name names ih =>
    rw [List.forall_mem_cons] at hnames
    have hchild := Path.split_child_of_not_endsWith hend hnames.1.2.2.2
    have hrest := ih (Path.not_endsWith_slash_of_split hnames.1.1 hchild) hnames.2
    rw [List.append_cons, ← hchild]
    exact hrest

/-- Below the top, the path of a place is its names with slashes between them. -/
theorem pathBelow_here (hplace : ∀ name ∈ place, IsEntryName name) (hne : place ≠ []) :
    pathBelow "." place = Path.child "." ("/".intercalate place) := by
  obtain ⟨first, rest, rfl⟩ := List.exists_cons_of_ne_nil hne
  rw [← Text.intercalate_split Path.toList_slash (pathBelow "." (first :: rest)),
    split_pathBelow (by decide) hplace, Path.child_here]
  exact String.intercalate_cons_cons ..

theorem spells_pathBelow_here (hplace : ∀ name ∈ place, IsEntryName name) :
    Path.Spells (pathBelow "." place) place := Path.spells_here.pathBelow hplace

theorem isSupported_iff {path : String} :
    Analysis.isSupported path = true ↔ Path.extension? path = some "cs" := by
  rw [Analysis.isSupported]
  cases Path.extension? path with
  | none => simp
  | some extension => simp [supportedExtensions]

theorem isSupported_pathBelow_iff (hplace : ∀ name ∈ place, IsEntryName name) (hne : place ≠ []) :
    Analysis.isSupported (pathBelow "." place) = true ↔
      Path.extension? ("/".intercalate place) = some "cs" := by
  have hspells := spells_pathBelow_here hplace
  rw [isSupported_iff, Path.extension?_congr (hspells.getLast?_components hne), hspells.relative_eq]

end Plain

/-! ### Walks from plain paths -/

section Starts

variable {root : FileTree} {paths : List String}

theorem starts_eq_map (hplain : ∀ path ∈ paths, Path.IsPlain path) :
    starts paths = (startPlaces paths).map (pathBelow ".") := by
  rw [starts, startPlaces]
  split_ifs
  · rfl
  · rw [List.map_map]
    refine List.map_congr_left fun path hpath => ?_
    have hslash : ¬ Text.startsWith path "/" = true := by
      intro h
      obtain ⟨parts, hparts⟩ := split_of_startsWith_slash h
      exact (hplain path hpath "" (by simp [hparts])).1 rfl
    rw [if_neg hslash, Function.comp_apply,
      pathBelow_here (hplain path hpath) (Text.split_ne_nil '/' path),
      Text.intercalate_split Path.toList_slash]

theorem isEntryName_of_mem_startPlaces (hplain : ∀ path ∈ paths, Path.IsPlain path)
    {start : List String} (hstart : start ∈ startPlaces paths) :
    ∀ name ∈ start, IsEntryName name := by
  rw [startPlaces] at hstart
  split_ifs at hstart
  · rw [List.mem_singleton.1 hstart]
    simp
  · obtain ⟨path, hpath, rfl⟩ := List.mem_map.1 hstart
    exact hplain path hpath

/-- A start leads to the place that it spells. -/
theorem locate?_of_mem_startPlaces (hplain : ∀ path ∈ paths, Path.IsPlain path)
    (hfound : ∀ start ∈ starts paths, root.locate? start ≠ none) {start : List String}
    (hstart : start ∈ startPlaces paths) :
    pathBelow "." start ∈ starts paths ∧ root.locate? (pathBelow "." start) = some start := by
  have hmem : pathBelow "." start ∈ starts paths := by
    rw [starts_eq_map hplain]
    exact List.mem_map_of_mem hstart
  obtain ⟨q, hq⟩ := Option.ne_none_iff_exists'.1 (hfound _ hmem)
  have hspells := spells_pathBelow_here (isEntryName_of_mem_startPlaces hplain hstart)
  rw [hspells.eq_of_locate? hq] at hq
  exact ⟨hmem, hq⟩

theorem isTooLong_pathBelow_dropLast {place : List String}
    (h : isTooLong (pathBelow "." place) = false) :
    isTooLong (pathBelow "." place.dropLast) = false := by
  rcases List.eq_nil_or_concat' place with rfl | ⟨front, last, rfl⟩
  · exact h
  · refine isTooLong_eq_false ?_ h
    rw [List.dropLast_concat, pathBelow_append]
    exact utf8ByteSize_le_pathBelow _ _

/-- **The files that walks from plain paths come to.** -/
theorem exists_walked_iff (hroot : root.WellFormed) (hplain : ∀ path ∈ paths, Path.IsPlain path)
    (hfound : ∀ start ∈ starts paths, root.locate? start ≠ none) {path : String} {c : ByteArray} :
    (∃ start ∈ starts paths, Walked root start (path, c)) ↔
      ∃ place, root.find? place = some (.file c) ∧ Reached paths place ∧
        isTooLong (pathBelow "." place.dropLast) = false ∧ path = pathBelow "." place := by
  constructor
  · rintro ⟨start, hstart, place, t, hlocate, hfind, hwalked⟩
    rw [starts_eq_map hplain] at hstart
    obtain ⟨top, htop, rfl⟩ := List.mem_map.1 hstart
    obtain ⟨-, hlocate'⟩ := locate?_of_mem_startPlaces hplain hfound htop
    obtain rfl : place = top := Option.some.inj (hlocate.symm.trans hlocate')
    obtain ⟨names, hnames, hunskipped, hlisted, rfl⟩ :=
      (mem_filesAt_iff (hroot.of_find? hfind)).1 hwalked
    refine ⟨place ++ names, ?_, ⟨place, htop, names, rfl, hunskipped⟩, ?_, ?_⟩
    · rw [find?_append, hfind]
      exact hnames
    · rcases List.eq_nil_or_concat' names with rfl | ⟨front, last, rfl⟩
      · rw [List.append_nil]
        refine isTooLong_pathBelow_dropLast ?_
        by_contra hlong
        rw [locate?, if_pos (by simpa using hlong)] at hlocate
        cases hlocate
      · rw [← List.append_assoc, List.dropLast_concat, pathBelow_append]
        exact listed_concat.1 hlisted
    · rw [pathBelow_append]
  · rintro ⟨place, hfind, ⟨start, hstart, names, rfl, hunskipped⟩, hfits, rfl⟩
    obtain ⟨hmem, hlocate⟩ := locate?_of_mem_startPlaces hplain hfound hstart
    rw [find?_append, Option.bind_eq_some_iff] at hfind
    obtain ⟨t, ht, hnames⟩ := hfind
    refine ⟨_, hmem, start, t, hlocate, ht,
      (mem_filesAt_iff (hroot.of_find? ht)).2 ⟨names, hnames, hunskipped, ?_, ?_⟩⟩
    · rcases List.eq_nil_or_concat' names with rfl | ⟨front, last, rfl⟩
      · exact listed_nil _
      · rw [← List.append_assoc, List.dropLast_concat, pathBelow_append] at hfits
        exact listed_concat.2 hfits
    · rw [pathBelow_append]

/-- A file that is reached does not stand at the top: the top is a folder. -/
theorem ne_nil_of_reached (hplain : ∀ path ∈ paths, Path.IsPlain path)
    (hfound : ∀ start ∈ starts paths, root.locate? start ≠ none) {place : List String}
    {c : ByteArray} (hreached : Reached paths place) (hfind : root.find? place = some (.file c)) :
    place ≠ [] := by
  rintro rfl
  obtain ⟨start, hstart, -⟩ := hreached
  obtain ⟨hmem, hlocate⟩ := locate?_of_mem_startPlaces hplain hfound hstart
  have hfolder := (leadsTo_of_mem_starts hmem hlocate).isFolder_top
  cases hfind
  cases hfolder

end Starts

/-! ### Exactly the eligible files -/

section Exactly

variable {root : FileTree} {paths : List String} {config : Config}

/-- What is read on the way from plain paths is eligible. -/
theorem eligible_of_mem (hroot : root.WellFormed) (hplain : ∀ path ∈ paths, Path.IsPlain path)
    {files : List SourceFile} (h : discover root paths config = .ok files) {file : SourceFile}
    (hfile : file ∈ files) : ∃ place, Eligible root paths config place file := by
  have hfound : ∀ start ∈ starts paths, root.locate? start ≠ none := fun start hstart =>
    locate?_ne_none_of_discover h hstart
  obtain ⟨start, hstart, ⟨path, c⟩, hwalked, hread⟩ :=
    (discovered_of_discover h).read file hfile
  obtain ⟨place, hfind, hreached, -, rfl⟩ :=
    (exists_walked_iff hroot hplain hfound).1 ⟨start, hstart, hwalked⟩
  have hplace := hroot.isEntryName hfind
  have hne := ne_nil_of_reached hplain hfound hreached hfind
  obtain ⟨hsupported, hfits, hpath, htext, hscanned, hwritten⟩ := read_eq_some_iff.1 hread
  have hspells := spells_pathBelow_here hplace
  rw [hspells.relative_eq] at hpath
  rw [isSupported_pathBelow_iff hplace hne] at hsupported
  obtain ⟨-, q, hq, -⟩ := stands_of_mem_discover hroot h hfile
  have hstands : root.locate? (Path.child "." file.path) = some place := by
    rw [hpath, ← pathBelow_here hplace hne] at hq ⊢
    rw [hq, hspells.eq_of_locate? hq]
  exact ⟨place, hpath, hstands, htext ▸ hfind, hpath ▸ hsupported, hscanned, hwritten, hreached⟩

/-- Two eligible files whose paths have the same components are the same. -/
theorem Eligible.eq_of_components {place place' : List String} {file file' : SourceFile}
    (hroot : root.WellFormed) (h : Eligible root paths config place file)
    (h' : Eligible root paths config place' file')
    (hsame : Path.components file.path = Path.components file'.path) : file = file' := by
  obtain rfl : place = place' := by
    rw [h.path_eq, h'.path_eq, Path.components_intercalate (hroot.isEntryName h.content),
      Path.components_intercalate (hroot.isEntryName h'.content)] at hsame
    exact List.map_injective_iff.2 (fun a b hab => Path.Component.name.inj hab) hsame
  have htext : file.text = file'.text := by
    have hcontent := h.content.symm.trans h'.content
    simpa [String.toByteArray_inj] using hcontent
  have hpath : file.path = file'.path := h.path_eq.trans h'.path_eq.symm
  cases file
  cases file'
  simp_all

/-- An eligible file is read on the way from the paths. -/
theorem Eligible.mem (hroot : root.WellFormed) (hplain : ∀ path ∈ paths, Path.IsPlain path)
    {files : List SourceFile} (h : discover root paths config = .ok files) {file : SourceFile}
    {place : List String} (hfile : Eligible root paths config place file) : file ∈ files := by
  have hfound : ∀ start ∈ starts paths, root.locate? start ≠ none := fun start hstart =>
    locate?_ne_none_of_discover h hstart
  have hplace := hroot.isEntryName hfile.content
  have hne := ne_nil_of_reached hplain hfound hfile.reached hfile.content
  have hspells := spells_pathBelow_here hplace
  have hfits : isTooLong (pathBelow "." place) = false := by
    by_contra hlong
    have hstands := hfile.stands
    rw [hfile.path_eq, ← pathBelow_here hplace hne, locate?, if_pos (by simpa using hlong)]
      at hstands
    cases hstands
  obtain ⟨start, hstart, hwalked⟩ := (exists_walked_iff hroot hplain hfound).2
    ⟨place, hfile.content, hfile.reached, isTooLong_pathBelow_dropLast hfits, rfl⟩
  have hread : read config (pathBelow "." place, file.text.toUTF8) = .ok (some file) := by
    refine read_eq_some_iff.2 ⟨?_, hfits, ?_, rfl, hfile.scanned, hfile.written⟩
    · rw [isSupported_pathBelow_iff hplace hne, ← hfile.path_eq, hfile.extension]
    · rw [hspells.relative_eq, hfile.path_eq]
  obtain ⟨kept, hkept, hsame⟩ :=
    (discovered_of_discover h).kept start hstart _ hwalked file hread
  obtain ⟨place', hplace'⟩ := eligible_of_mem hroot hplain h hkept
  rwa [← hplace'.eq_of_components hroot hfile hsame]

/-- A file that cannot be read on the way from plain paths has a path that is too long. -/
theorem meetsOverlong_iff (hroot : root.WellFormed) (hplain : ∀ path ∈ paths, Path.IsPlain path)
    (hfound : ∀ start ∈ starts paths, root.locate? start ≠ none) :
    MeetsOverlong root paths config ↔ ∃ start ∈ starts paths, ∃ found,
      Walked root start found ∧ ∃ e, read config found = .error e := by
  constructor
  · rintro ⟨place, c, hfind, hreached, hextension, hscanned, hfits, hlong⟩
    have hplace := hroot.isEntryName hfind
    have hne := ne_nil_of_reached hplain hfound hreached hfind
    obtain ⟨start, hstart, hwalked⟩ := (exists_walked_iff hroot hplain hfound).2
      ⟨place, hfind, hreached, hfits, rfl⟩
    refine ⟨start, hstart, _, hwalked, _, read_eq_error_iff.2 ⟨?_, ?_, hlong, rfl⟩⟩
    · rwa [isSupported_pathBelow_iff hplace hne]
    · rwa [(spells_pathBelow_here hplace).relative_eq]
  · rintro ⟨start, hstart, ⟨path, c⟩, hwalked, e, he⟩
    obtain ⟨place, hfind, hreached, hfits, rfl⟩ :=
      (exists_walked_iff hroot hplain hfound).1 ⟨start, hstart, hwalked⟩
    have hplace := hroot.isEntryName hfind
    have hne := ne_nil_of_reached hplain hfound hreached hfind
    obtain ⟨hsupported, hscanned, hlong, -⟩ := read_eq_error_iff.1 he
    rw [isSupported_pathBelow_iff hplace hne] at hsupported
    rw [(spells_pathBelow_here hplace).relative_eq] at hscanned
    exact ⟨place, c, hfind, hreached, hsupported, hscanned, hfits, hlong⟩

/-- Lists of files in strict order with the same members are equal. -/
theorem eq_of_ordered {files files' : List SourceFile}
    (h : files.Pairwise fun a b => Path.compare a.path b.path = .lt)
    (h' : files'.Pairwise fun a b => Path.compare a.path b.path = .lt)
    (hmem : ∀ file, file ∈ files ↔ file ∈ files') : files = files' := by
  have hnodup {files : List SourceFile}
      (h : files.Pairwise fun a b => Path.compare a.path b.path = .lt) : files.Nodup := by
    refine h.imp ?_
    rintro a b hlt rfl
    exact Path.components_ne_of_lt hlt rfl
  have hperm := (List.perm_ext_iff_of_nodup (hnodup h) (hnodup h')).2 hmem
  refine List.Perm.eq_of_pairwise ?_ h h' hperm
  intro a b _ _ hab hba
  exact absurd hba (Path.not_lt_of_lt hab)

/-- A run from plain paths that lead somewhere gives the eligible files, or it meets a file whose
path is too long. -/
theorem discover_plain (hroot : root.WellFormed) (hplain : ∀ path ∈ paths, Path.IsPlain path)
    (hfound : ∀ start ∈ starts paths, root.locate? start ≠ none) (config : Config) :
    (¬ MeetsOverlong root paths config → ∃ files, discover root paths config = .ok files ∧
      files.Pairwise (fun a b => Path.compare a.path b.path = .lt) ∧
      ∀ file, file ∈ files ↔ ∃ place, Eligible root paths config place file) ∧
    (MeetsOverlong root paths config →
      discover root paths config = .error (.io "File name too long (os error 36)")) := by
  rw [meetsOverlong_iff hroot hplain hfound]
  rcases discover_total config hfound with ⟨files, h⟩ | ⟨start, hstart, found, hwalked, e, he, h⟩
  · have hdiscovered := discovered_of_discover h
    refine ⟨fun _ => ⟨files, h, hdiscovered.ordered, fun file => ⟨?_, ?_⟩⟩, ?_⟩
    · exact eligible_of_mem hroot hplain h
    · rintro ⟨place, hfile⟩
      exact hfile.mem hroot hplain h
    · rintro ⟨start, hstart, found, hwalked, e, he⟩
      obtain ⟨file?, hfile⟩ := hdiscovered.readable start hstart found hwalked
      rw [he] at hfile
      cases hfile
  · refine ⟨fun hnone => absurd ⟨start, hstart, found, hwalked, e, he⟩ hnone, fun _ => ?_⟩
    rw [h, (read_eq_error_iff.1 he).2.2.2]

/-- **Discovery gives exactly the eligible files, each once and in the order of paths.**

The paths that are asked for are plain and lead somewhere.  Unless the run meets a file whose path
is too long to be opened, the files that it gives come strictly one after the other and are the
eligible ones; if it does, it fails.  So two lists of paths that come to the same files give the
same, whatever their order and however often a path is repeated or lies below another one. -/
theorem discover_exactly_eligible (hroot : root.WellFormed)
    (hplain : ∀ path ∈ paths, Path.IsPlain path)
    (hfound : ∀ start ∈ starts paths, root.locate? start ≠ none) (config : Config) :
    (¬ MeetsOverlong root paths config → ∃ files, discover root paths config = .ok files ∧
      files.Pairwise (fun a b => Path.compare a.path b.path = .lt) ∧
      ∀ file, file ∈ files ↔ ∃ place, Eligible root paths config place file) ∧
    (MeetsOverlong root paths config →
      discover root paths config = .error (.io "File name too long (os error 36)")) ∧
    ∀ paths', (∀ path ∈ paths', Path.IsPlain path) →
      (∀ start ∈ starts paths', root.locate? start ≠ none) →
      (∀ place content, root.find? place = some (.file content) →
        (Reached paths' place ↔ Reached paths place)) →
      discover root paths' config = discover root paths config := by
  obtain ⟨hok, herror⟩ := discover_plain hroot hplain hfound config
  refine ⟨hok, herror, fun paths' hplain' hfound' hsame => ?_⟩
  obtain ⟨hok', herror'⟩ := discover_plain hroot hplain' hfound' config
  have hmeets : MeetsOverlong root paths' config ↔ MeetsOverlong root paths config := by
    refine exists_congr fun place => exists_congr fun content => and_congr_right fun hfind => ?_
    rw [hsame place content hfind]
  have heligible (place : List String) (file : SourceFile) :
      Eligible root paths' config place file ↔ Eligible root paths config place file := by
    constructor
    · intro h
      exact { h with reached := (hsame place _ h.content).1 h.reached }
    · intro h
      exact { h with reached := (hsame place _ h.content).2 h.reached }
  by_cases hlong : MeetsOverlong root paths config
  · rw [herror hlong, herror' (hmeets.2 hlong)]
  · obtain ⟨files, hfiles, hordered, hmem⟩ := hok hlong
    obtain ⟨files', hfiles', hordered', hmem'⟩ := hok' (mt hmeets.1 hlong)
    have heq : files' = files := eq_of_ordered hordered' hordered fun file => by
      rw [hmem', hmem]
      exact exists_congr fun place => heligible place file
    rw [hfiles, hfiles', heq]

end Exactly

/-! ### Overlapping paths -/

/-- A folder of sources with build output inside it, and build output beside it. -/
def buildOutputTree : FileTree :=
  .folder
    [("bin", .folder [("D.cs", .file "d".toUTF8)]),
     ("src", .folder
       [("A.cs", .file "a".toUTF8),
        ("B.txt", .file "b".toUTF8),
        ("obj", .folder [("C.cs", .file "c".toUTF8)])])]

/-- The build output, the sources twice, and a file of them by itself. -/
def overlappingPaths : List String := ["bin", "src", "src/A.cs", "src"]

/-- The files that are found by these paths. -/
def overlappingFound : List SourceFile :=
  [{ path := "bin/D.cs", text := "d" }, { path := "src/A.cs", text := "a" }]

theorem discover_overlappingPaths :
    discover buildOutputTree overlappingPaths {} = .ok overlappingFound := by
  have hfound : (starts overlappingPaths).mapM (below buildOutputTree {}) =
      .ok [[{ path := "bin/D.cs", text := "d" }], [{ path := "src/A.cs", text := "a" }],
        [{ path := "src/A.cs", text := "a" }], [{ path := "src/A.cs", text := "a" }]] := by
    decide +kernel
  rw [discover, hfound]
  simp only [bind, Except.bind]
  rw [List.mergeSort_of_pairwise (by decide +kernel)]
  decide +kernel

/-- Build output is found where it is asked for and not below the sources, and a file that is asked
for in three ways is found once; asking for the two folders gives the same. -/
theorem overlapping_paths_discovered :
    buildOutputTree.WellFormed ∧ (∀ path ∈ overlappingPaths, Path.IsPlain path) ∧
      (∀ start ∈ starts overlappingPaths, buildOutputTree.locate? start ≠ none) ∧
      (∀ file, file ∈ overlappingFound ↔
        ∃ place, Eligible buildOutputTree overlappingPaths {} place file) ∧
      discover buildOutputTree ["src", "bin"] {} = .ok overlappingFound := by
  have hroot : buildOutputTree.WellFormed := by decide +kernel
  have hplain : ∀ path ∈ overlappingPaths, Path.IsPlain path := by decide +kernel
  have hfound : ∀ start ∈ starts overlappingPaths, buildOutputTree.locate? start ≠ none := by
    decide +kernel
  obtain ⟨hok, herror, hsame⟩ := discover_exactly_eligible hroot hplain hfound {}
  have hfits : ¬ MeetsOverlong buildOutputTree overlappingPaths {} := by
    intro hlong
    rw [discover_overlappingPaths] at herror
    cases herror hlong
  obtain ⟨files, hfiles, -, hmem⟩ := hok hfits
  obtain rfl : overlappingFound = files :=
    Except.ok.inj (discover_overlappingPaths.symm.trans hfiles)
  refine ⟨hroot, hplain, hfound, hmem, ?_⟩
  rw [← discover_overlappingPaths]
  refine hsame ["src", "bin"] (by decide +kernel) (by decide +kernel) fun place _ _ => ?_
  have hall : startPlaces overlappingPaths = [["bin"], ["src"], ["src", "A.cs"], ["src"]] := by
    decide +kernel
  have htwo : startPlaces ["src", "bin"] = [["src"], ["bin"]] := by decide +kernel
  rw [Reached, Reached, hall, htwo]
  constructor
  · rintro ⟨start, hstart, hnames⟩
    refine ⟨start, ?_, hnames⟩
    revert hstart
    simp only [List.mem_cons, List.not_mem_nil]
    tauto
  · rintro ⟨start, hstart, names, rfl, hnames⟩
    simp only [List.mem_cons, List.not_mem_nil, or_false] at hstart
    rcases hstart with rfl | rfl | rfl | rfl
    · exact ⟨["bin"], by simp, names, rfl, hnames⟩
    · exact ⟨["src"], by simp, names, rfl, hnames⟩
    · exact ⟨["src"], by simp, "A.cs" :: names, rfl,
        unskipped_cons.2 ⟨Or.inr (by decide), hnames⟩⟩
    · exact ⟨["src"], by simp, names, rfl, hnames⟩

end Discovery

end Unqualify
