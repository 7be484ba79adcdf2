import Unqualify.Proofs.Command.Fix
import Unqualify.Proofs.Discovery.Spelling

/-!
# Files that are excluded, files that are found twice

The configuration filters by the text of a relative path, and repetitions are told by its
components.  Neither asks where a path leads.  A path that never goes up has the names on the way to
its place as components, so from such paths every file is found once
(`Discovery.components_eq_of_descends`).  The text of a path is the plain one only if nothing idle
stands between its names; from paths that spell their places the filter sees the plain paths
(`Discovery.path_eq_of_spells`), and what it rejects is never written
(`Command.excluded_files_stay`).

With a detour through another folder both go wrong (`Command.detour_defeats_exclusion`).
-/

namespace Unqualify

open FileTree

/-! ### Where found files stand -/

namespace Discovery

variable {root : FileTree} {paths : List String} {config : Config} {files : List SourceFile}
  {file : SourceFile}

/-- From paths that never go up, a file is found under the relative form of a path with names in
it. -/
theorem exists_pathBelow_of_mem (hroot : root.WellFormed)
    (hstarts : ∀ start ∈ starts paths, Path.Descends start)
    (h : discover root paths config = .ok files) (hfile : file ∈ files) :
    ∃ start ∈ starts paths, ∃ names, (∀ name ∈ names, IsEntryName name) ∧
      Path.names (pathBelow start names) ≠ [] ∧
      file.path = Path.relative (pathBelow start names) := by
  obtain ⟨start, hstart, ⟨path, c⟩, ⟨top, t, htop, hfind, hwalked⟩, hread⟩ :=
    (discovered_of_discover h).read file hfile
  have hwf := hroot.of_find? hfind
  obtain ⟨place, hleads, hplace⟩ :=
    exists_place_of_mem_filesAt hwf (leadsTo_of_mem_starts hstart htop) hfind hwalked
  obtain ⟨names, hnames, -, -, rfl⟩ := (mem_filesAt_iff hwf).1 hwalked
  have hentries := hwf.isEntryName hnames
  refine ⟨start, hstart, names, hentries, fun hnil => ?_, (read_eq_some_iff.1 hread).2.2.1⟩
  -- without a name the path leads to the top, and the top is a folder
  have hfolder := hleads.isFolder_top
  have hup := ((hstarts start hstart).pathBelow hentries).up_not_mem_split
  obtain ⟨parts, hparts, hresolve⟩ := hleads
  rw [← hparts] at hresolve
  have heq := eq_append_of_resolveFrom? hresolve hup
  rw [Path.names] at hnil
  rw [hnil] at heq
  subst heq
  cases hplace
  cases hfolder

/-- From paths that never go up, the components of a found path are the names on the way to the
file. -/
theorem components_eq_of_descends (hroot : root.WellFormed)
    (hstarts : ∀ start ∈ starts paths, Path.Descends start)
    (h : discover root paths config = .ok files) (hfile : file ∈ files) {place : List String}
    (hplace : root.locate? (Path.child "." file.path) = some place) :
    Path.components file.path = place.map .name := by
  obtain ⟨start, hstart, names, hnames, hne, hpath⟩ := exists_pathBelow_of_mem hroot hstarts h hfile
  obtain ⟨first, rest, hsplit, hfirst, hup⟩ :=
    ((hstarts start hstart).pathBelow hnames).exists_split_relative hne
  rw [← hpath] at hsplit
  have hchild : Text.split '/' (Path.child "." file.path) = "." :: first :: rest := by
    rw [Path.child_here, Text.split_append Path.toList_slash, hsplit]
    rfl
  have hnamed : place = Path.names file.path := by
    rw [eq_names_of_locate? hplace (by simpa [hchild] using hup), Path.names, hchild, Path.names,
      hsplit]
    rfl
  rw [hnamed, Path.components_eq_map_names hsplit hfirst hup]

/-- From paths that spell their places, a found path is the plain path of the file. -/
theorem path_eq_of_spells (hroot : root.WellFormed)
    (hstarts : ∀ start ∈ starts paths, ∃ place, Path.Spells start place)
    (h : discover root paths config = .ok files) (hfile : file ∈ files) {place : List String}
    (hplace : root.locate? (Path.child "." file.path) = some place) :
    file.path = "/".intercalate place := by
  have hdescends : ∀ start ∈ starts paths, Path.Descends start := fun start hstart =>
    (hstarts start hstart).choose_spec.descends
  obtain ⟨start, hstart, names, hnames, hne, hpath⟩ :=
    exists_pathBelow_of_mem hroot hdescends h hfile
  obtain ⟨top, htop⟩ := hstarts start hstart
  have hspells := htop.pathBelow hnames
  rw [hspells.names_eq] at hne
  rw [hspells.relative_eq] at hpath
  rw [hpath] at hplace ⊢
  rw [(Path.spells_child_intercalate hspells.1 hne).eq_of_locate? hplace]

end Discovery

/-! ### What is written -/

namespace Command

open Analysis

variable {root : FileTree} {paths : List String} {config : Config}

/-- Whether the configuration rejects what stands at a place, by its plain path. -/
def Excluded (config : Config) (place : List String) : Prop :=
  config.shouldScan (Text.replaceChar '\\' '/' ("/".intercalate place)) = false

instance (config : Config) (place : List String) : Decidable (Excluded config place) :=
  inferInstanceAs (Decidable (_ = false))

/-- Fixing writes where files are found only. -/
theorem contentAt?_outcome_fix (hroot : root.WellFormed) (parse : Parser)
    (hconfig : loadConfig root = .ok config) {place : List String}
    (h : ∀ files, Discovery.discover root paths config = .ok files → ∀ file ∈ files,
      root.locate? (Path.child "." file.path) ≠ some place) :
    (outcome parse root (.fix paths)).files.contentAt? place = root.contentAt? place := by
  cases hproject : analyzeProject parse root paths true with
  | error e =>
    rw [outcome_fix_of_error hproject]
    rfl
  | ok reports =>
    obtain ⟨config', files, hconfig', hfiles, hreports⟩ := analyzeProject_eq_ok_iff.1 hproject
    obtain rfl : config' = config := Except.ok.inj (hconfig'.symm.trans hconfig)
    obtain ⟨hon, hfile, -⟩ := reportsOn_of_analyze hroot hfiles hreports
    rw [files_outcome_fix hproject]
    refine (written_foldl_fixFile hon).kept place fun r hr hstands => ?_
    obtain ⟨file, hmem, hpath, -⟩ := hfile r hr
    rw [StandsAt, hpath] at hstands
    exact h files hfiles file hmem hstands

/-- **From paths that never go up every file is found once; from paths that spell their places no
excluded file is found or rewritten.**  The second kind of paths has nothing idle between two names
and at most one slash at the end. -/
theorem excluded_files_stay (hroot : root.WellFormed) (paths : List String) (config : Config) :
    ((∀ start ∈ Discovery.starts paths, Path.Descends start) →
      ∀ files, Discovery.discover root paths config = .ok files →
        files.Pairwise fun a b =>
          root.locate? (Path.child "." a.path) ≠ root.locate? (Path.child "." b.path)) ∧
    ((∀ start ∈ Discovery.starts paths, ∃ place, Path.Spells start place) →
      (∀ files, Discovery.discover root paths config = .ok files → ∀ file ∈ files,
        ∃ place, root.locate? (Path.child "." file.path) = some place ∧
          file.path = "/".intercalate place ∧ ¬ Excluded config place) ∧
      (loadConfig root = .ok config → ∀ parse place, Excluded config place →
        (outcome parse root (.fix paths)).files.contentAt? place = root.contentAt? place)) := by
  refine ⟨fun hstarts files h => ?_, fun hstarts => ?_⟩
  · refine (Discovery.discovered_of_discover h).ordered.imp_of_mem ?_
    intro a b ha hb hlt heq
    obtain ⟨-, place, hplace, -⟩ := Discovery.stands_of_mem_discover hroot h ha
    refine Path.components_ne_of_lt hlt ?_
    rw [Discovery.components_eq_of_descends hroot hstarts h ha hplace,
      Discovery.components_eq_of_descends hroot hstarts h hb (heq ▸ hplace)]
  · have hfound : ∀ files, Discovery.discover root paths config = .ok files → ∀ file ∈ files,
        ∃ place, root.locate? (Path.child "." file.path) = some place ∧
          file.path = "/".intercalate place ∧ ¬ Excluded config place := by
      intro files h file hfile
      obtain ⟨⟨hscanned, -⟩, place, hplace, -⟩ := Discovery.stands_of_mem_discover hroot h hfile
      have hpath := Discovery.path_eq_of_spells hroot hstarts h hfile hplace
      refine ⟨place, hplace, hpath, ?_⟩
      rw [Excluded, ← hpath, hscanned]
      nofun
    refine ⟨hfound, fun hconfig parse place hexcluded => ?_⟩
    refine contentAt?_outcome_fix hroot parse hconfig fun files h file hfile hplace => ?_
    obtain ⟨place', hplace', -, hkept⟩ := hfound files h file hfile
    obtain rfl : place' = place := Option.some.inj (hplace'.symm.trans hplace)
    exact hkept hexcluded

/-! ### Spellings of one folder -/

/-- The file that uses `A.B` stands in a folder that is excluded, the file that declares it in
another one. -/
def excludingTree : FileTree :=
  .folder
    [(".idiom.toml", .file "exclude = ['gen']".toUTF8),
     ("gen", .folder [("a.cs", .file usingFile.text.toUTF8)]),
     ("src", .folder [("b.cs", .file declaringFile.text.toUTF8)])]

/-- The configuration of this project. -/
def excludingConfig : Config := { excluded := ["gen"] }

theorem loadConfig_excludingTree : loadConfig excludingTree = .ok excludingConfig := by
  decide +kernel

/-- The excluded folder with a slash behind it, and the top twice. -/
def tidyPaths : List String := ["./gen/", ".//", "."]

/-- By tidy paths the other file is found once, and the excluded one stays as it is. -/
theorem tidy_paths_keep_exclusion :
    excludingTree.WellFormed ∧ loadConfig excludingTree = .ok excludingConfig ∧
      Discovery.discover excludingTree tidyPaths excludingConfig = .ok [declaringFile] ∧
      Excluded excludingConfig ["gen", "a.cs"] ∧
      (outcome twoFilesParser excludingTree (.fix tidyPaths)).files.contentAt? ["gen", "a.cs"] =
        some (some usingFile.text.toUTF8) := by
  have hroot : excludingTree.WellFormed := by decide +kernel
  have hspells : ∀ start ∈ Discovery.starts tidyPaths, ∃ place, Path.Spells start place := by
    have hstarts : Discovery.starts tidyPaths = ["././gen/", "././/", "./."] := by decide +kernel
    rw [hstarts]
    simp only [List.forall_mem_cons]
    refine ⟨⟨["gen"], by decide +kernel, ["."], by decide, Or.inr (by decide +kernel)⟩,
      ⟨[], by simp, [".", "", ""], by decide, Or.inl (by decide +kernel)⟩,
      ⟨[], by simp, ["."], by decide, Or.inl (by decide +kernel)⟩, by simp⟩
  have hdiscover : Discovery.discover excludingTree tidyPaths excludingConfig =
      .ok [declaringFile] := by
    have hfound : (Discovery.starts tidyPaths).mapM
        (Discovery.below excludingTree excludingConfig) =
          .ok [[], [declaringFile], [declaringFile]] := by decide +kernel
    rw [Discovery.discover, hfound]
    simp only [bind, Except.bind]
    rw [List.mergeSort_of_pairwise (by decide +kernel)]
    decide +kernel
  have hexcluded : Excluded excludingConfig ["gen", "a.cs"] := by decide +kernel
  obtain ⟨-, htidy⟩ := excluded_files_stay hroot tidyPaths excludingConfig
  refine ⟨hroot, loadConfig_excludingTree, hdiscover, hexcluded, ?_⟩
  rw [(htidy hspells).2 loadConfig_excludingTree twoFilesParser _ hexcluded]
  rfl

/-- The excluded folder and the other one by a detour, and the other one as it is. -/
def detourPaths : List String := ["src/../gen", "src/../src", "src"]

/-- The files that are found by these paths. -/
def detourFound : List SourceFile :=
  [{ usingFile with path := "src/../gen/a.cs" }, { declaringFile with path := "src/../src/b.cs" },
   declaringFile]

theorem discover_detourPaths :
    Discovery.discover excludingTree detourPaths excludingConfig = .ok detourFound := by
  have hfound : (Discovery.starts detourPaths).mapM
      (Discovery.below excludingTree excludingConfig) =
        .ok (detourFound.map fun file => [file]) := by decide +kernel
  rw [Discovery.discover, hfound]
  simp only [bind, Except.bind]
  rw [List.mergeSort_of_pairwise (by decide +kernel)]
  decide +kernel

/-- The reports on the files that are found. -/
def detourReports : List Report :=
  let finding : Finding :=
    { argument := "A.B"
      fix := .offered qualifierRemoval
      message := "Type name 'A.B' is unnecessarily qualified"
      ruleId := "WI01001"
      severity := .warning
      span := { start := 14, len := 3, line := 1, column := 15 } }
  [{ path := "src/../gen/a.cs", text := usingFile.text, findings := [finding] },
   { path := "src/../src/b.cs", text := declaringFile.text, findings := [] },
   { path := "src/b.cs", text := declaringFile.text, findings := [] }]

theorem analyze_detourFound :
    (analyze twoFilesParser detourFound excludingConfig true fun _ => .never) =
      .ok detourReports := by
  have hparse : ∀ file ∈ detourFound,
      treeOf twoFilesParser file = .ok (treeOfText twoFilesParser file.text) := by
    intro file hfile
    simp only [detourFound, List.mem_cons, List.not_mem_nil, or_false] at hfile
    rcases hfile with rfl | rfl | rfl <;> rfl
  rw [analyze_eq hparse, sortReports, List.mergeSort_of_pairwise (by decide +kernel)]
  decide +kernel

/-- By a detour one file is found twice, and a file of the excluded folder is found and
rewritten. -/
theorem detour_defeats_exclusion :
    Discovery.discover excludingTree detourPaths excludingConfig = .ok detourFound ∧
      excludingTree.locate? (Path.child "." "src/../src/b.cs") =
        excludingTree.locate? (Path.child "." "src/b.cs") ∧
      excludingTree.locate? (Path.child "." "src/../gen/a.cs") = some ["gen", "a.cs"] ∧
      loadConfig excludingTree = .ok excludingConfig ∧
      Excluded excludingConfig ["gen", "a.cs"] ∧
      (outcome twoFilesParser excludingTree (.fix detourPaths)).files.contentAt? ["gen", "a.cs"] =
        some (some "using A;var b=B.C;".toUTF8) := by
  have hplace : excludingTree.locate? (Path.child "." "src/../gen/a.cs") =
      some ["gen", "a.cs"] := by decide +kernel
  refine ⟨discover_detourPaths, by decide +kernel, hplace, loadConfig_excludingTree,
    by decide +kernel, ?_⟩
  have hproject : analyzeProject twoFilesParser excludingTree detourPaths true =
      .ok detourReports :=
    analyzeProject_eq_ok_iff.2 ⟨excludingConfig, detourFound, loadConfig_excludingTree,
      discover_detourPaths, analyze_detourFound⟩
  have hroot : excludingTree.WellFormed := by decide +kernel
  obtain ⟨hon, -⟩ := reportsOn_of_analyze hroot discover_detourPaths analyze_detourFound
  have htext : (Edit.apply usingFile.text [qualifierRemoval]).text = "using A;var b=B.C;" := by
    rw [apply_qualifierRemoval]
  rw [files_outcome_fix hproject, ← htext]
  exact (written_foldl_fixFile hon).fixed _ List.mem_cons_self _ hplace

end Command

end Unqualify
