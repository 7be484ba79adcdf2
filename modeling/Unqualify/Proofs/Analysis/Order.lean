import Mathlib.Data.List.Nodup
import Unqualify.Proofs.Path
import Unqualify.Proofs.Scan.Preorder
import Unqualify.Proofs.SymbolTable.Order

/-!
# The order of the files of a run

A run prepares the files in the order it gets them, and that order decides on the numbers of the
types in the table.  Nothing else depends on it: the reports on the files of a run that nobody
cancels are those of the files in any other order, sorted by path
(`Analysis.analyze_eq_of_perm`).

The files of a run and their syntax trees are updates of a table (`Analysis.program`); the table of
the run is the one they build (`Analysis.tableOf_prepared`).
-/

namespace Unqualify.Analysis

open TypeDeclaration (pathsOf)

variable {parse : Parser} {files files' : List SourceFile} {tree : SourceFile → Tree}

/-! ### The table of a run -/

/-- The updates of a run: its library types, and its files with their syntax trees. -/
def program (libraryTypes : List String) (tree : SourceFile → Tree) (files : List SourceFile) :
    List SymbolTable.Update :=
  libraryTypes.map .library ++ files.map fun file => .file (Source.ofText file.text) (tree file)

/-- A file of a run, prepared. -/
def prepared (tree : SourceFile → Tree) (file : SourceFile) : Prepared := ofTree file (tree file)

theorem mapM_prepare (hparse : ∀ file ∈ files, treeOf parse file = .ok (tree file)) :
    files.mapM (prepare parse) = .ok (files.map (prepared tree)) := by
  induction files with
  | nil => rfl
  | cons file files ih =>
    have hfile : prepare parse file = .ok (prepared tree file) := by
      rw [prepare, hparse file List.mem_cons_self]
      rfl
    rw [List.mapM_cons, hfile, ih fun f hf => hparse f (List.mem_cons_of_mem file hf)]
    rfl

/-- A library type that can be read is added as an update. -/
theorem addLibraryEntry_eq {t : SymbolTable} {entry : String}
    (h : (LibraryType.parse? entry).isSome) :
    addLibraryEntry t entry = .ok (t.update (.library entry)) := by
  obtain ⟨l, hl⟩ := Option.isSome_iff_exists.1 h
  rw [SymbolTable.update, addLibraryEntry, hl]

/-- The library types of a run are its first updates, and a malformed one ends the run. -/
theorem foldlM_addLibraryEntry (t : SymbolTable) (libraryTypes : List String) :
    libraryTypes.foldlM addLibraryEntry t =
        .ok ((libraryTypes.map SymbolTable.Update.library).foldl SymbolTable.update t) ∨
      (∃ e, libraryTypes.foldlM addLibraryEntry t = .error e) ∧
        ∃ entry ∈ libraryTypes, LibraryType.parse? entry = none := by
  induction libraryTypes generalizing t with
  | nil => exact Or.inl rfl
  | cons entry rest ih =>
    rw [List.foldlM_cons]
    cases hentry : LibraryType.parse? entry with
    | none =>
      refine Or.inr ⟨⟨.invalidLibraryType entry "segments must be identifiers", ?_⟩, entry,
        List.mem_cons_self, hentry⟩
      rw [addLibraryEntry, hentry]
      rfl
    | some l =>
      rw [addLibraryEntry_eq (hentry ▸ rfl)]
      rcases ih (t.update (.library entry)) with hok | ⟨herror, entry', hmem, hnone⟩
      · exact Or.inl hok
      · exact Or.inr ⟨herror, entry', List.mem_cons_of_mem entry hmem, hnone⟩

/-- **The table of a run is built by its updates**, unless a library type is malformed. -/
theorem tableOf_prepared (libraryTypes : List String) (tree : SourceFile → Tree)
    (files : List SourceFile) :
    tableOf libraryTypes (files.map (prepared tree)) =
      (libraryTypes.foldlM addLibraryEntry SymbolTable.empty).map fun _ =>
        SymbolTable.build (program libraryTypes tree files) := by
  rw [tableOf]
  rcases foldlM_addLibraryEntry SymbolTable.empty libraryTypes with hok | ⟨⟨e, herror⟩, -⟩
  · rw [hok, SymbolTable.build, program, List.foldl_append]
    exact congrArg Except.ok (by simp only [List.foldl_map]; rfl)
  · rw [herror]
    rfl

/-! ### The reports of a run -/

/-- The report on a file in a run that nobody cancels. -/
def reportOn (config : Config) (scanner : Scanner) (t : SymbolTable) (file : Prepared) : Report :=
  if config.ruleEnabled scanner.rule.id scanner.rule.enabledByDefault then
    scanFile scanner t .never file
  else
    unscanned file

@[simp] theorem path_reportOn (config : Config) (scanner : Scanner) (t : SymbolTable)
    (file : Prepared) : (reportOn config scanner t file).path = file.path := by
  rw [reportOn]
  split <;> rfl

@[simp] theorem text_reportOn (config : Config) (scanner : Scanner) (t : SymbolTable)
    (file : Prepared) : (reportOn config scanner t file).text = file.text := by
  rw [reportOn]
  split <;> rfl

/-- A report needs the table only for the answers that the rule gets. -/
theorem reportOn_congr {f : TypeId → TypeId} {t t' : SymbolTable}
    (h : SymbolTable.Renumbers f t t') (config : Config) (scanner : Scanner) :
    reportOn config scanner t' = reportOn config scanner t := by
  funext file
  rw [reportOn, reportOn, scanFile, scanFile, h.oracleOf_eq]

/-- As long as nobody cancels a run, the number of a file does not matter. -/
theorem map_reportOn (config : Config) (scanner : Scanner) (t : SymbolTable)
    (files : List Prepared) :
    (if config.ruleEnabled scanner.rule.id scanner.rule.enabledByDefault then
        files.zipIdx.map fun (file, _) => scanFile scanner t .never file
      else files.map unscanned) = files.map (reportOn config scanner t) := by
  split
  · next henabled =>
    have hfst : (fun p : Prepared × Nat => scanFile scanner t .never p.1) =
        scanFile scanner t .never ∘ Prod.fst := rfl
    rw [hfst, ← List.map_map, List.zipIdx_map_fst]
    exact List.map_congr_left fun file _ => (if_pos henabled).symm
  · next hdisabled => exact List.map_congr_left fun file _ => (if_neg hdisabled).symm

/-- The reports of a run, sorted by path. -/
def sortReports (reports : List Report) : List Report :=
  reports.mergeSort fun a b => Path.le a.path b.path

/-- **A run gives one report for each file.**  Nobody cancels it, and all its files have a syntax
tree; then only a malformed library type ends it early. -/
theorem analyze_eq (hparse : ∀ file ∈ files, treeOf parse file = .ok (tree file))
    (config : Config) (offerFixes : Bool) :
    analyze parse files config offerFixes (fun _ => .never) =
      (config.libraryTypes.foldlM addLibraryEntry SymbolTable.empty).map fun _ =>
        sortReports (files.map fun file =>
          reportOn config { offerFixes }
            (SymbolTable.build (program config.libraryTypes tree files)) (prepared tree file)) := by
  simp only [analyze, mapM_prepare hparse, tableOf_prepared, bind, Except.bind]
  cases config.libraryTypes.foldlM addLibraryEntry SymbolTable.empty with
  | error e => rfl
  | ok t =>
    have hreports := map_reportOn config { offerFixes }
      (SymbolTable.build (program config.libraryTypes tree files)) (files.map (prepared tree))
    exact congrArg (fun reports => Except.ok (sortReports reports)) (hreports.trans List.map_map)

theorem pairwise_sortReports (reports : List Report) :
    (sortReports reports).Pairwise fun a b => Path.le a.path b.path := by
  have htrans (a b c : Report) (hab : Path.le a.path b.path) (hbc : Path.le b.path c.path) :
      Path.le a.path c.path :=
    Path.le_trans hab hbc
  exact List.pairwise_mergeSort htrans (fun a b => Path.le_total a.path b.path) reports

theorem perm_sortReports (reports : List Report) : (sortReports reports).Perm reports :=
  List.mergeSort_perm reports _

/-- Sorting forgets the order of reports on different paths. -/
theorem sortReports_eq_of_perm {reports reports' : List Report} (hperm : reports'.Perm reports)
    (hpaths : (reports.map fun r => Path.components r.path).Nodup) :
    sortReports reports' = sortReports reports := by
  have hsame := ((perm_sortReports reports').trans hperm).trans (perm_sortReports reports).symm
  refine hsame.eq_of_pairwise (fun a b ha hb hab hba => ?_) (pairwise_sortReports reports')
    (pairwise_sortReports reports)
  have ha := hperm.mem_iff.1 ((perm_sortReports reports').mem_iff.1 ha)
  have hb := (perm_sortReports reports).mem_iff.1 hb
  -- reports that come before each other have the same path, so they are one report
  exact List.inj_on_of_nodup_map hpaths ha hb (Path.components_eq_of_le hab hba)

/-! ### Another order of the files -/

theorem perm_program (libraryTypes : List String) (tree : SourceFile → Tree)
    (hperm : files'.Perm files) :
    (program libraryTypes tree files').Perm (program libraryTypes tree files) :=
  (hperm.map _).append_left _

/-- Another order of the files changes no report. -/
theorem reportOn_build_of_perm (hperm : files'.Perm files) (config : Config) (scanner : Scanner)
    (hsplit : TypePath.Unambiguous
      (pathsOf (SymbolTable.declarations (program config.libraryTypes tree files)))) :
    reportOn config scanner (SymbolTable.build (program config.libraryTypes tree files')) =
      reportOn config scanner (SymbolTable.build (program config.libraryTypes tree files)) := by
  obtain ⟨f, hrenumbers⟩ := SymbolTable.exists_renumbers_of_perm
    ((perm_program config.libraryTypes tree hperm).map SymbolTable.Update.outline)
    (fun _ => SymbolTable.regular_outlines) hsplit
  rw [← SymbolTable.build_eq_ofOutlines, ← SymbolTable.build_eq_ofOutlines] at hrenumbers
  exact reportOn_congr hrenumbers config scanner

/-- **The order of the files does not matter.**  Take files that have a syntax tree and different
paths, any configuration and either setting for fixes, and suppose that no full name is declared
with two different splits into namespace and enclosing types.  Then a run that nobody cancels gives
the same reports for the files in any order.  Unless a configured library type is malformed, which
ends every run with the same error, there is one report for each file, in the order of the paths.

What a file declares counts once: merging it into a table that it was merged into before changes
nothing. -/
theorem analyze_eq_of_perm (parse : Parser) (files files' : List SourceFile)
    (tree : SourceFile → Tree) (config : Config) (offerFixes : Bool)
    (hparse : ∀ file ∈ files, treeOf parse file = .ok (tree file))
    (hpaths : (files.map fun file => Path.components file.path).Nodup)
    (hsplit : TypePath.Unambiguous
      (pathsOf (SymbolTable.declarations (program config.libraryTypes tree files))))
    (hperm : files'.Perm files) :
    (analyze parse files' config offerFixes fun _ => .never) =
        (analyze parse files config offerFixes fun _ => .never) ∧
      ((∀ entry ∈ config.libraryTypes, (LibraryType.parse? entry).isSome) →
        ∃ reports, (analyze parse files config offerFixes fun _ => .never) = .ok reports ∧
          (reports.map fun r => (r.path, r.text)).Perm (files.map fun f => (f.path, f.text)) ∧
          reports.Pairwise fun a b => Path.le a.path b.path) ∧
      ∀ updates src root, .file src root ∈ updates →
        (SymbolTable.build updates).addFile (Outline.ofFile src root) =
          SymbolTable.build updates := by
  have hparse' : ∀ file ∈ files', treeOf parse file = .ok (tree file) :=
    fun file hfile => hparse file (hperm.mem_iff.1 hfile)
  refine ⟨?_, fun hentries => ?_, fun updates src root hmem =>
    SymbolTable.addFile_build_eq_self hmem⟩
  · have hsorted : sortReports (files'.map fun file => reportOn config { offerFixes }
          (SymbolTable.build (program config.libraryTypes tree files)) (prepared tree file)) =
        sortReports (files.map fun file => reportOn config { offerFixes }
          (SymbolTable.build (program config.libraryTypes tree files)) (prepared tree file)) := by
      refine sortReports_eq_of_perm (hperm.map _) ?_
      simpa [List.map_map, Function.comp_def, prepared, ofTree] using hpaths
    rw [analyze_eq hparse, analyze_eq hparse', reportOn_build_of_perm hperm config _ hsplit,
      hsorted]
  · rw [analyze_eq hparse]
    rcases foldlM_addLibraryEntry SymbolTable.empty config.libraryTypes with
      hok | ⟨-, entry, hmem, hnone⟩
    · rw [hok]
      refine ⟨_, rfl, ?_, pairwise_sortReports _⟩
      refine ((perm_sortReports _).map _).trans (List.Perm.of_eq ?_)
      simp [Function.comp_def, prepared, ofTree]
    · have hsome := hentries entry hmem
      rw [hnone] at hsome
      cases hsome

/-- A file that declares the type `A.B`. -/
def declaringFile : SourceFile := { path := "src/b.cs", text := "namespace A{class B{}}" }

/-- A file that uses the type `A.B`. -/
def usingFile : SourceFile := { path := "a.cs", text := "using A;var b=A.B.C;" }

/-- The syntax trees of the two files. -/
def twoTrees (file : SourceFile) : Tree :=
  let node (kind field : String) (start stop : Nat) (children : List Tree) : Tree :=
    .node { kind, field, named := true, start, stop } children
  if file = declaringFile then
    node "compilation_unit" "" 0 22
      [node "namespace_declaration" "" 0 22
        [node "identifier" "name" 10 11 [],
         node "declaration_list" "body" 11 22
          [node "class_declaration" "" 12 21
            [node "identifier" "name" 18 19 [], node "declaration_list" "body" 19 21 []]]]]
  else
    node "compilation_unit" "" 0 20
      [node "using_directive" "" 0 8 [node "identifier" "" 6 7 []],
       node "global_statement" "" 8 20
        [node "local_declaration_statement" "" 8 20
          [node "variable_declaration" "" 8 19
            [node "implicit_type" "type" 8 11 [],
             node "variable_declarator" "" 12 19
              [node "identifier" "name" 12 13 [],
               node "member_access_expression" "" 14 19
                [node "member_access_expression" "expression" 14 17
                  [node "identifier" "expression" 14 15 [], node "identifier" "name" 16 17 []],
                 node "identifier" "name" 18 19 []]]]]]]

/-- A parser that knows the two files. -/
def twoFilesParser : Parser := fun text =>
  ([declaringFile, usingFile].find? (·.text == text)).map twoTrees

/-- The use may come before the declaration or after it: `A.B` is reported all the same. -/
theorem two_files_analyze_eq_of_perm :
    let files := [usingFile, declaringFile]
    let files' := [declaringFile, usingFile]
    let config : Config := { libraryTypes := ["A.C+D"] }
    let updates := program config.libraryTypes twoTrees files
    let run (files : List SourceFile) := analyze twoFilesParser files config true fun _ => .never
    (∀ file ∈ files, treeOf twoFilesParser file = .ok (twoTrees file)) ∧
      (files.map fun file => Path.components file.path).Nodup ∧
      TypePath.Unambiguous (pathsOf (SymbolTable.declarations updates)) ∧
      files'.Perm files ∧ run files' = run files ∧
      (∃ reports, run files = .ok reports ∧
        reports.map (fun r => (r.path, r.findings.map (·.argument))) =
          [("a.cs", ["A.B"]), ("src/b.cs", [])]) ∧
      (SymbolTable.build updates).addFile
          (Outline.ofFile (Source.ofText usingFile.text) (twoTrees usingFile)) =
        SymbolTable.build updates := by
  intro files files' config updates run
  have hparse : ∀ file ∈ files, treeOf twoFilesParser file = .ok (twoTrees file) := by
    intro file hfile
    rcases List.mem_pair.1 hfile with rfl | rfl <;> rfl
  have hpaths : (files.map fun file => Path.components file.path).Nodup := by decide +kernel
  have hsplit : TypePath.Unambiguous (pathsOf (SymbolTable.declarations updates)) := by
    decide +kernel
  have hperm : files'.Perm files := List.Perm.swap usingFile declaringFile []
  obtain ⟨hsame, -, hagain⟩ :=
    analyze_eq_of_perm twoFilesParser files files' twoTrees config true hparse hpaths hsplit hperm
  have hmem : .file (Source.ofText usingFile.text) (twoTrees usingFile) ∈ updates := by
    simp [updates, program, files]
  refine ⟨hparse, hpaths, hsplit, hperm, hsame, ?_, hagain updates _ _ hmem⟩
  refine ⟨_, analyze_eq hparse config true, ?_⟩
  rw [sortReports, List.mergeSort_of_pairwise (by decide +kernel)]
  decide +kernel

end Unqualify.Analysis
