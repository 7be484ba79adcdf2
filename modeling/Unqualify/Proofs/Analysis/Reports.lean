import Unqualify.Proofs.Analysis.Order

/-!
# The reports of a run

A run that does not fail gives one report for each file.  The report on a file needs the rest of
the run only for the table (`Analysis.analyze_eq_bind`), and the findings in it depend on the text
of the file and not on its path (`Analysis.exists_findings_of_analyze`).
-/

namespace Unqualify

/-! ### Passes over lists -/

section Passes

variable {α β ε : Type} {f : α → Except ε β} {xs : List α} {ys : List β}

/-- A pass that does not fail does not fail on any member. -/
theorem map_eq_of_mapM (h : xs.mapM f = .ok ys) : xs.map f = ys.map .ok := by
  induction xs generalizing ys with
  | nil =>
    cases h
    rfl
  | cons x xs ih =>
    rw [List.mapM_cons] at h
    cases hx : f x with
    | error e =>
      rw [hx] at h
      cases h
    | ok y =>
      cases hxs : xs.mapM f with
      | error e =>
        rw [hx, hxs] at h
        cases h
      | ok rest =>
        rw [hx, hxs] at h
        cases h
        rw [List.map_cons, List.map_cons, hx, ih hxs]

/-- A pass goes through, or fails with what it fails with on some member. -/
theorem mapM_cases (f : α → Except ε β) (xs : List α) :
    (∃ ys, xs.mapM f = .ok ys) ∨ ∃ x ∈ xs, ∃ e, f x = .error e ∧ xs.mapM f = .error e := by
  induction xs with
  | nil => exact Or.inl ⟨[], rfl⟩
  | cons x xs ih =>
    rw [List.mapM_cons]
    cases hx : f x with
    | error e => exact Or.inr ⟨x, List.mem_cons_self, e, hx, rfl⟩
    | ok y =>
      rcases ih with ⟨ys, hys⟩ | ⟨x', hx', e, he, herror⟩
      · exact Or.inl ⟨y :: ys, by rw [hys]; rfl⟩
      · exact Or.inr ⟨x', List.mem_cons_of_mem x hx', e, he, by rw [herror]; rfl⟩

theorem exists_ok_of_mapM (h : xs.mapM f = .ok ys) {x : α} (hx : x ∈ xs) : ∃ y, f x = .ok y := by
  have hmem : f x ∈ ys.map Except.ok := map_eq_of_mapM h ▸ List.mem_map_of_mem hx
  obtain ⟨y, -, hy⟩ := List.mem_map.1 hmem
  exact ⟨y, hy.symm⟩

theorem exists_of_mem_of_mapM (h : xs.mapM f = .ok ys) {y : β} (hy : y ∈ ys) :
    ∃ x ∈ xs, f x = .ok y := by
  have hmem : Except.ok y ∈ xs.map f := (map_eq_of_mapM h).symm ▸ List.mem_map_of_mem hy
  exact List.mem_map.1 hmem

end Passes

namespace Analysis

/-! ### One report after the other -/

/-- The report on a file, by the view of the cancelling signal that belongs to its number. -/
def reportAt (config : Config) (scanner : Scanner) (t : SymbolTable) (signal : Nat → Signal)
    (file : Prepared × Nat) : Report :=
  if config.ruleEnabled scanner.rule.id scanner.rule.enabledByDefault then
    scanFile scanner t (signal file.2) file.1
  else
    unscanned file.1

@[simp] theorem path_reportAt (config : Config) (scanner : Scanner) (t : SymbolTable)
    (signal : Nat → Signal) (file : Prepared × Nat) :
    (reportAt config scanner t signal file).path = file.1.path := by
  rw [reportAt]
  split <;> rfl

theorem map_reportAt (config : Config) (scanner : Scanner) (t : SymbolTable)
    (signal : Nat → Signal) (files : List Prepared) :
    (if config.ruleEnabled scanner.rule.id scanner.rule.enabledByDefault then
        files.zipIdx.map fun (file, i) => scanFile scanner t (signal i) file
      else files.map unscanned) = files.zipIdx.map (reportAt config scanner t signal) := by
  split
  · next henabled => exact List.map_congr_left fun file _ => (if_pos henabled).symm
  · next hdisabled =>
    have hfst : files.map unscanned = files.zipIdx.map (unscanned ∘ Prod.fst) := by
      rw [← List.map_map, List.zipIdx_map_fst]
    rw [hfst]
    exact List.map_congr_left fun file _ => (if_neg hdisabled).symm

/-- A run prepares its files, builds the table, scans and sorts the reports. -/
theorem analyze_eq_bind (parse : Parser) (files : List SourceFile) (config : Config)
    (offerFixes : Bool) (signal : Nat → Signal) :
    analyze parse files config offerFixes signal =
      (files.mapM (prepare parse)).bind fun prepared =>
        (tableOf config.libraryTypes prepared).map fun t =>
          sortReports (prepared.zipIdx.map (reportAt config { offerFixes } t signal)) := by
  simp only [analyze, bind]
  cases files.mapM (prepare parse) with
  | error e => rfl
  | ok prepared =>
    simp only [Except.bind]
    cases tableOf config.libraryTypes prepared with
    | error e => rfl
    | ok t =>
      exact congrArg (fun reports => Except.ok (sortReports reports))
        (map_reportAt config { offerFixes } t signal prepared)

@[simp] theorem mem_sortReports {r : Report} {reports : List Report} :
    r ∈ sortReports reports ↔ r ∈ reports := (perm_sortReports reports).mem_iff

/-- Sorting sees the paths only. -/
theorem sortReports_map {α : Type} (path : α → String) (f : α → Report)
    (hpath : ∀ a, (f a).path = path a) (files : List α) :
    sortReports (files.map f) = (files.mergeSort fun a b => Path.le (path a) (path b)).map f := by
  rw [sortReports, List.map_mergeSort]
  intro a _ b _
  rw [hpath, hpath]

/-! ### Reports and texts -/

theorem parse_eq_of_treeOf {parse : Parser} {file : SourceFile} {tree : Tree}
    (h : treeOf parse file = .ok tree) :
    isSupported file.path = true ∧ parse file.text = some tree := by
  rw [treeOf] at h
  split at h
  · cases h
  · next hsupported =>
    split at h
    · cases h
    · split at h
      · next hparse =>
        cases h
        exact ⟨by simpa using hsupported, hparse⟩
      · cases h

/-- The files of a run that does not fail have syntax trees. -/
theorem exists_tree_of_mapM_prepare {parse : Parser} {files : List SourceFile}
    {prepared : List Prepared} (h : files.mapM (prepare parse) = .ok prepared) :
    ∀ file ∈ files, ∃ tree, treeOf parse file = .ok tree := by
  intro file hfile
  obtain ⟨p, hp⟩ := exists_ok_of_mapM h hfile
  cases htree : treeOf parse file with
  | error e =>
    rw [prepare, htree] at hp
    cases hp
  | ok tree => exact ⟨tree, rfl⟩

/-- A run that does not fail has prepared its files and built a table. -/
theorem exists_of_analyze {parse : Parser} {files : List SourceFile} {config : Config}
    {offerFixes : Bool} {signal : Nat → Signal} {reports : List Report}
    (h : analyze parse files config offerFixes signal = .ok reports) :
    ∃ prepared t, files.mapM (prepare parse) = .ok prepared ∧
      tableOf config.libraryTypes prepared = .ok t := by
  rw [analyze_eq_bind] at h
  cases hprepared : files.mapM (prepare parse) with
  | error e =>
    rw [hprepared] at h
    cases h
  | ok prepared =>
    cases ht : tableOf config.libraryTypes prepared with
    | error e =>
      rw [hprepared, Except.bind, ht] at h
      cases h
    | ok t => exact ⟨prepared, t, rfl, ht⟩

/-- A malformed library type ends a run. -/
theorem parse?_ne_none_of_foldlM {libraryTypes : List String} {t t' : SymbolTable}
    (h : libraryTypes.foldlM addLibraryEntry t = .ok t') :
    ∀ entry ∈ libraryTypes, LibraryType.parse? entry ≠ none := by
  induction libraryTypes generalizing t with
  | nil => simp
  | cons entry rest ih =>
    rw [List.foldlM_cons, addLibraryEntry] at h
    cases hentry : LibraryType.parse? entry with
    | none =>
      rw [hentry] at h
      cases h
    | some l =>
      rw [hentry] at h
      rw [List.forall_mem_cons]
      exact ⟨by simp [hentry], ih h⟩

/-- The files of a run that does not fail are not too large, and the library types are well
formed. -/
theorem usable_of_analyze {parse : Parser} {files : List SourceFile} {config : Config}
    {offerFixes : Bool} {signal : Nat → Signal} {reports : List Report}
    (h : analyze parse files config offerFixes signal = .ok reports) :
    (∀ file ∈ files, file.text.utf8ByteSize ≤ maxFileSize) ∧
      ∀ entry ∈ config.libraryTypes, LibraryType.parse? entry ≠ none := by
  obtain ⟨prepared, t, hprepared, ht⟩ := exists_of_analyze h
  constructor
  · intro file hfile
    obtain ⟨tree, htree⟩ := exists_tree_of_mapM_prepare hprepared file hfile
    rw [treeOf] at htree
    split_ifs at htree with hsupported hlarge
    exact Nat.le_of_not_lt hlarge
  · cases hfold : config.libraryTypes.foldlM addLibraryEntry SymbolTable.empty with
    | error e =>
      rw [tableOf, hfold] at ht
      cases ht
    | ok t => exact parse?_ne_none_of_foldlM hfold

/-- The syntax tree of a text, and a bare node for a text that has none. -/
def treeOfText (parse : Parser) (text : String) : Tree :=
  (parse text).getD (.node { kind := "", field := "", named := false, start := 0, stop := 0 } [])

theorem treeOf_eq_of_mapM_prepare {parse : Parser} {files : List SourceFile}
    {prepared : List Prepared} (h : files.mapM (prepare parse) = .ok prepared) :
    ∀ file ∈ files, isSupported file.path = true ∧
      treeOf parse file = .ok (treeOfText parse file.text) := by
  intro file hfile
  obtain ⟨tree, htree⟩ := exists_tree_of_mapM_prepare h file hfile
  obtain ⟨hsupported, hparse⟩ := parse_eq_of_treeOf htree
  refine ⟨hsupported, ?_⟩
  rw [htree, treeOfText, hparse, Option.getD_some]

/-- **A run reports on each file what it finds in its text.**  The files of a run that does not fail
have a supported extension; when nobody cancels it, the findings depend on the texts only. -/
theorem exists_findings_of_analyze {parse : Parser} {files : List SourceFile} {config : Config}
    {offerFixes : Bool} {reports : List Report}
    (h : (analyze parse files config offerFixes fun _ => .never) = .ok reports) :
    (∀ file ∈ files, isSupported file.path = true) ∧
      ∃ findings : String → List Finding,
        reports = sortReports (files.map fun file =>
          { path := file.path, text := file.text, findings := findings file.text }) := by
  obtain ⟨prepared, -, hprepared, -⟩ := exists_of_analyze h
  have htree := treeOf_eq_of_mapM_prepare hprepared
  refine ⟨fun file hfile => (htree file hfile).1, ?_⟩
  rw [analyze_eq fun file hfile => (htree file hfile).2] at h
  cases ht : config.libraryTypes.foldlM addLibraryEntry SymbolTable.empty with
  | error e =>
    rw [ht] at h
    cases h
  | ok t =>
    rw [ht] at h
    cases h
    refine ⟨fun text => (reportOn config { offerFixes }
      (SymbolTable.build (program config.libraryTypes (fun file => treeOfText parse file.text) files))
      (ofTree { path := "", text } (treeOfText parse text))).findings, ?_⟩
    refine congrArg sortReports (List.map_congr_left fun file _ => ?_)
    simp only [reportOn]
    split <;> rfl

end Analysis

end Unqualify
