import Unqualify.Command
import Unqualify.Proofs.Discovery

/-!
# What fixing does to the files

Fixing goes through the reports of an analysis one after the other and writes the fixed text of a
file back to where the file was read.  Each of these steps changes that one place
(`Command.contentAt?_fixFile`), so after all of them every file that was discovered holds its fixed
text, and all else is as it was (`Command.written_foldl_fixFile`).  Nothing is written before the
whole analysis has succeeded.
-/

namespace Unqualify

/-! ### Texts after fixing -/

namespace Edit

/-- A fix is skipped, and then the text stays, or it is not. -/
theorem step_cases (e : Edit) (fix : Fix) :
    (e.step fix).skipped = e.skipped ∨
      (e.step fix).skipped = e.skipped + 1 ∧ (e.step fix).text = e.text := by
  simp only [step]
  split
  · exact Or.inl rfl
  · exact Or.inr ⟨rfl, rfl⟩

theorem skipped_foldl_step (fixes : List Fix) (e : Edit) :
    (fixes.foldl step e).skipped ≤ e.skipped + fixes.length ∧
      ((fixes.foldl step e).skipped = e.skipped + fixes.length →
        (fixes.foldl step e).text = e.text) := by
  induction fixes generalizing e with
  | nil => exact ⟨Nat.le_refl _, fun _ => rfl⟩
  | cons fix fixes ih =>
    obtain ⟨hle, htext⟩ := ih (e.step fix)
    rw [List.foldl_cons, List.length_cons]
    rcases step_cases e fix with hkept | ⟨hskipped, hsame⟩
    · refine ⟨by omega, fun hall => ?_⟩
      omega
    · refine ⟨by omega, fun hall => ?_⟩
      rw [htext (by omega), hsame]

theorem skipped_apply_le (text : String) (fixes : List Fix) :
    (apply text fixes).skipped ≤ fixes.length := by
  have hle := (skipped_foldl_step (order fixes) (start text)).1
  rw [order, List.length_mergeSort] at hle
  simpa [apply, order, start] using hle

/-- A text that was changed was changed by a fix that was not skipped. -/
theorem skipped_apply_lt {text : String} {fixes : List Fix} (h : (apply text fixes).text ≠ text) :
    (apply text fixes).skipped < fixes.length := by
  refine Nat.lt_of_le_of_ne (skipped_apply_le text fixes) fun hall => h ?_
  refine (skipped_foldl_step (order fixes) (start text)).2 ?_
  rw [order, List.length_mergeSort]
  simpa [apply, order, start] using hall

end Edit

/-- The text of a file after its fixes. -/
def Report.fixedText (r : Report) : String :=
  (Edit.apply r.text r.offeredFixes).text

theorem Report.fixedText_of_nil {r : Report} (h : r.offeredFixes = []) : r.fixedText = r.text := by
  by_contra hne
  have hlt := Edit.skipped_apply_lt hne
  rw [h] at hlt
  cases hlt

namespace Command

open FileTree Analysis

/-! ### One file after the other -/

/-- The file of a report stands at a place. -/
def StandsAt (root : FileTree) (r : Report) (place : List String) : Prop :=
  root.locate? (Path.child "." r.path) = some place

/-- Fixing writes a file exactly when its text changes. -/
theorem fixFile_fst (t : FileTree) (edits : List FileEdit) (r : Report) :
    (fixFile (t, edits) r).1 =
      if r.fixedText = r.text then t
      else match t.locate? (Path.child "." r.path) with
        | some place => put (.file r.fixedText.toUTF8) place t
        | none => t := by
  simp only [fixFile, List.isEmpty_iff]
  by_cases hchanged : r.fixedText = r.text
  · rw [if_pos hchanged]
    split_ifs
    · rfl
    · exact if_neg fun h => h.2 hchanged
  · have hlt : (Edit.apply r.text r.offeredFixes).skipped < r.offeredFixes.length :=
      Edit.skipped_apply_lt hchanged
    rw [if_neg hchanged, if_neg fun hnil => hchanged (Report.fixedText_of_nil hnil)]
    exact if_pos ⟨hlt, hchanged⟩

/-- **Fixing a file changes the place where it stands, and no other.** -/
theorem contentAt?_fixFile {root t : FileTree} (hshape : t.SameShape root) {r : Report}
    {place : List String} (hplace : StandsAt root r place)
    (hold : t.contentAt? place = some (some r.text.toUTF8) ∨
      t.contentAt? place = some (some r.fixedText.toUTF8))
    (edits : List FileEdit) (q : List String) :
    (fixFile (t, edits) r).1.contentAt? q =
      if q = place then some (some r.fixedText.toUTF8) else t.contentAt? q := by
  rw [fixFile_fst]
  by_cases hchanged : r.fixedText = r.text
  · rw [if_pos hchanged]
    split_ifs with hq
    · rw [hchanged, or_self] at hold
      rw [hq, hold, hchanged]
    · rfl
  · obtain ⟨old, hold⟩ : ∃ old, t.contentAt? place = some (some old) := by
      rcases hold with h | h <;> exact ⟨_, h⟩
    rw [if_neg hchanged, hshape.locate?_eq, hplace]
    exact contentAt?_put hold _ q

/-! ### All files -/

/-- The reports are on files of a tree, and equal texts have equal findings. -/
structure ReportsOn (root : FileTree) (reports : List Report) : Prop where
  /-- Every file stands somewhere, with the bytes of its text. -/
  stands : ∀ r ∈ reports, ∃ place, StandsAt root r place ∧
    root.contentAt? place = some (some r.text.toUTF8)
  /-- The findings depend on the texts only. -/
  alike : ∀ r ∈ reports, ∀ r' ∈ reports, r.text = r'.text → r.findings = r'.findings

theorem ReportsOn.fixedText_eq {root : FileTree} {reports : List Report}
    (h : ReportsOn root reports) {r r' : Report} (hr : r ∈ reports) (hr' : r' ∈ reports)
    {place : List String} (hplace : StandsAt root r place) (hplace' : StandsAt root r' place) :
    r.fixedText = r'.fixedText := by
  obtain ⟨q, hq, hcontent⟩ := h.stands r hr
  obtain ⟨q', hq', hcontent'⟩ := h.stands r' hr'
  obtain rfl : q = place := Option.some.inj (hq.symm.trans hplace)
  obtain rfl : q' = q := Option.some.inj (hq'.symm.trans hplace')
  have htext : r.text = r'.text := by
    rw [hcontent] at hcontent'
    simpa [String.toByteArray_inj] using hcontent'
  rw [Report.fixedText, Report.fixedText, Report.offeredFixes, Report.offeredFixes, htext,
    h.alike r hr r' hr' htext]

/-- What the tree `t` holds once the reports `done` on the tree `root` have been worked off. -/
structure Written (root t : FileTree) (done : List Report) : Prop where
  /-- Files were neither made nor deleted. -/
  shape : t.SameShape root
  /-- The files of the reports hold their fixed texts. -/
  fixed : ∀ r ∈ done, ∀ place, StandsAt root r place →
    t.contentAt? place = some (some r.fixedText.toUTF8)
  /-- All else is as it was. -/
  kept : ∀ place, (∀ r ∈ done, ¬ StandsAt root r place) → t.contentAt? place = root.contentAt? place

theorem Written.nil (root : FileTree) : Written root root [] where
  shape := .refl root
  fixed := by simp
  kept := fun _ _ => rfl

/-- Working off one more report. -/
theorem Written.fixFile {root t : FileTree} {reports done : List Report} {r : Report}
    (hreports : ReportsOn root reports) (hdone : ∀ r' ∈ done, r' ∈ reports) (hr : r ∈ reports)
    (h : Written root t done) (edits : List FileEdit) :
    Written root (fixFile (t, edits) r).1 (done ++ [r]) := by
  obtain ⟨place, hplace, hcontent⟩ := hreports.stands r hr
  -- the file may have been written before, under another path, but then with the same text
  have hold : t.contentAt? place = some (some r.text.toUTF8) ∨
      t.contentAt? place = some (some r.fixedText.toUTF8) := by
    by_cases hbefore : ∃ r' ∈ done, StandsAt root r' place
    · obtain ⟨r', hr', hplace'⟩ := hbefore
      rw [hreports.fixedText_eq hr (hdone r' hr') hplace hplace']
      exact Or.inr (h.fixed r' hr' place hplace')
    · refine Or.inl ?_
      rw [h.kept place fun r' hr' hplace' => hbefore ⟨r', hr', hplace'⟩, hcontent]
  have hafter := contentAt?_fixFile h.shape hplace hold edits
  refine ⟨fun q => ?_, fun r' hr' q hq => ?_, fun q hq => ?_⟩
  · rw [hafter]
    split_ifs with heq
    · rw [heq, hcontent]
      rfl
    · exact h.shape q
  · rw [hafter]
    split_ifs with heq
    · rw [List.mem_append, List.mem_singleton] at hr'
      have hmem : r' ∈ reports := by
        rcases hr' with hr' | rfl
        · exact hdone r' hr'
        · exact hr
      rw [hreports.fixedText_eq hmem hr (heq ▸ hq) hplace]
    · rcases List.mem_append.1 hr' with hr' | hr'
      · exact h.fixed r' hr' q hq
      · rw [List.mem_singleton.1 hr'] at hq
        exact absurd (Option.some.inj (hq.symm.trans hplace)) heq
  · rw [List.forall_mem_append, List.forall_mem_singleton] at hq
    have hne : q ≠ place := fun heq => hq.2 (heq ▸ hplace)
    rw [hafter, if_neg hne]
    exact h.kept q hq.1

/-- **After fixing, every file that was reported on holds its fixed text, and all else is as it
was.** -/
theorem written_foldl_fixFile {root : FileTree} {reports : List Report}
    (h : ReportsOn root reports) :
    Written root (reports.foldl fixFile (root, [])).1 reports := by
  have hrun : ∀ (rest done : List Report) (state : FileTree × List FileEdit),
      (∀ r ∈ done ++ rest, r ∈ reports) → Written root state.1 done →
        Written root (rest.foldl Command.fixFile state).1 (done ++ rest) := by
    intro rest
    induction rest with
    | nil =>
      intro done state _ hstate
      simpa using hstate
    | cons r rest ih =>
      intro done state hmem hstate
      rw [List.foldl_cons, List.append_cons]
      refine ih (done ++ [r]) _ (by simpa using hmem) ?_
      exact hstate.fixFile h (fun r' hr' => hmem r' (by simp [hr'])) (hmem r (by simp)) state.2
  exact hrun reports [] (root, []) (fun r hr => hr) (.nil root)

/-! ### Runs -/

/-- Something keeps a project from being analysed: the configuration, the discovery or the analysis
fails. -/
inductive Obstructed (parse : Parser) (root : FileTree) (paths : List String) : Prop
  /-- The configuration cannot be used. -/
  | config {e : Error} (h : loadConfig root = .error e)
  /-- A path that is asked for leads nowhere. -/
  | missing {config : Config} {start : String} (hconfig : loadConfig root = .ok config)
    (hstart : start ∈ Discovery.starts paths) (h : root.locate? start = none)
  /-- The discovery fails, for this or another reason. -/
  | discovery {config : Config} {e : Error} (hconfig : loadConfig root = .ok config)
    (h : Discovery.discover root paths config = .error e)
  /-- A file is too large. -/
  | oversized {config : Config} {files : List SourceFile} {file : SourceFile}
    (hconfig : loadConfig root = .ok config)
    (hfiles : Discovery.discover root paths config = .ok files) (hfile : file ∈ files)
    (h : Analysis.maxFileSize < file.text.utf8ByteSize)
  /-- A configured library type is malformed. -/
  | libraryType {config : Config} {files : List SourceFile} {entry : String}
    (hconfig : loadConfig root = .ok config)
    (hfiles : Discovery.discover root paths config = .ok files)
    (hentry : entry ∈ config.libraryTypes) (h : LibraryType.parse? entry = none)
  /-- The analysis fails, for one of these or another reason. -/
  | analysis {config : Config} {files : List SourceFile} {e : Error}
    (hconfig : loadConfig root = .ok config)
    (hfiles : Discovery.discover root paths config = .ok files)
    (h : (Analysis.analyze parse files config true fun _ => .never) = .error e)

theorem analyzeProject_eq_ok_iff {parse : Parser} {root : FileTree} {paths : List String}
    {offerFixes : Bool} {reports : List Report} :
    analyzeProject parse root paths offerFixes = .ok reports ↔
      ∃ config files, loadConfig root = .ok config ∧
        Discovery.discover root paths config = .ok files ∧
        (Analysis.analyze parse files config offerFixes fun _ => .never) = .ok reports := by
  rw [analyzeProject]
  cases hconfig : loadConfig root with
  | error e => simp [bind, Except.bind]
  | ok config =>
    cases hfiles : Discovery.discover root paths config with
    | error e => simp [bind, Except.bind, hfiles]
    | ok files => simp [bind, Except.bind, hfiles]

/-- A project is analysed exactly when nothing keeps it from being analysed. -/
theorem obstructed_iff {parse : Parser} {root : FileTree} {paths : List String} :
    Obstructed parse root paths ↔ ∃ e, analyzeProject parse root paths true = .error e := by
  constructor
  · intro h
    cases hproject : analyzeProject parse root paths true with
    | error e => exact ⟨e, rfl⟩
    | ok reports =>
      exfalso
      obtain ⟨config, files, hconfig, hfiles, hreports⟩ := analyzeProject_eq_ok_iff.1 hproject
      obtain ⟨hsizes, hentries⟩ := Analysis.usable_of_analyze hreports
      have hsame {config' : Config} (h : loadConfig root = .ok config') : config' = config :=
        Except.ok.inj (h.symm.trans hconfig)
      cases h with
      | config h => simp [hconfig] at h
      | missing _ hstart h => exact Discovery.locate?_ne_none_of_discover hfiles hstart h
      | discovery hconfig' h =>
        rw [hsame hconfig', hfiles] at h
        cases h
      | oversized hconfig' hfiles' hfile h =>
        rw [hsame hconfig', hfiles] at hfiles'
        cases hfiles'
        exact absurd (hsizes _ hfile) (Nat.not_le_of_lt h)
      | libraryType hconfig' _ hentry h =>
        rw [hsame hconfig'] at hentry
        exact hentries _ hentry h
      | analysis hconfig' hfiles' h =>
        rw [hsame hconfig', hfiles] at hfiles'
        cases hfiles'
        rw [hsame hconfig', hreports] at h
        cases h
  · rintro ⟨e, he⟩
    cases hconfig : loadConfig root with
    | error e => exact .config hconfig
    | ok config =>
      cases hfiles : Discovery.discover root paths config with
      | error e => exact .discovery hconfig hfiles
      | ok files =>
        cases hreports : Analysis.analyze parse files config true fun _ => .never with
        | error e => exact .analysis hconfig hfiles hreports
        | ok reports =>
          rw [analyzeProject_eq_ok_iff.2 ⟨config, files, hconfig, hfiles, hreports⟩] at he
          cases he

theorem outcome_fix_of_error {parse : Parser} {root : FileTree} {paths : List String} {e : Error}
    (h : analyzeProject parse root paths true = .error e) :
    outcome parse root (.fix paths) = failure root e := by
  rw [outcome, run, runFix, h]
  rfl

/-- Reports without findings change nothing. -/
theorem foldl_fixFile_of_no_finding {reports : List Report} (h : Report.anyFinding reports = false)
    (state : FileTree × List FileEdit) : reports.foldl fixFile state = state := by
  induction reports generalizing state with
  | nil => rfl
  | cons r reports ih =>
    rw [Report.anyFinding, List.any_cons, Bool.or_eq_false_iff] at h
    have hnil : r.offeredFixes = [] := by
      have hfindings : r.findings = [] := by simpa using h.1
      rw [Report.offeredFixes, hfindings]
      rfl
    rw [List.foldl_cons, fixFile]
    simp only [hnil, List.isEmpty_nil, if_true]
    exact ih h.2 state

/-- After an analysis that succeeds, the files are those that the reports were worked off on. -/
theorem files_outcome_fix {parse : Parser} {root : FileTree} {paths : List String}
    {reports : List Report} (h : analyzeProject parse root paths true = .ok reports) :
    (outcome parse root (.fix paths)).files = (reports.foldl fixFile (root, [])).1 := by
  rw [outcome, run, runFix, h]
  simp only [bind, Except.bind]
  by_cases hany : Report.anyFinding reports = true
  · simp [hany]
  · rw [Bool.not_eq_true] at hany
    simp [hany, foldl_fixFile_of_no_finding hany]

/-- The reports of an analysis are on the discovered files. -/
theorem reportsOn_of_analyze {parse : Parser} {root : FileTree} (hroot : root.WellFormed)
    {paths : List String} {config : Config} {files : List SourceFile} {reports : List Report}
    (hfiles : Discovery.discover root paths config = .ok files)
    (hreports : (Analysis.analyze parse files config true fun _ => .never) = .ok reports) :
    ReportsOn root reports ∧
      (∀ r ∈ reports, ∃ file ∈ files, r.path = file.path ∧ r.text = file.text) ∧
      ∀ file ∈ files, ∃ r ∈ reports, r.path = file.path := by
  obtain ⟨-, findings, rfl⟩ := Analysis.exists_findings_of_analyze hreports
  simp only [Analysis.mem_sortReports, List.mem_map]
  refine ⟨⟨?_, ?_⟩, ?_, fun file hfile => ⟨_, ⟨file, hfile, rfl⟩, rfl⟩⟩
  · simp only [Analysis.mem_sortReports, List.mem_map]
    rintro r ⟨file, hfile, rfl⟩
    exact (Discovery.stands_of_mem_discover hroot hfiles hfile).2
  · simp only [Analysis.mem_sortReports, List.mem_map]
    rintro r ⟨file, -, rfl⟩ r' ⟨file', -, rfl⟩ htext
    exact congrArg findings htext
  · rintro r ⟨file, hfile, rfl⟩
    exact ⟨file, hfile, rfl, rfl⟩

/-- The file that uses `A.B` stands at the top and, once more, among build output; the file that
declares `A.B` stands in a folder. -/
def twoFilesTree : FileTree :=
  .folder
    [("a.cs", .file usingFile.text.toUTF8),
     ("bin", .folder [("a.cs", .file usingFile.text.toUTF8)]),
     ("src", .folder [("b.cs", .file declaringFile.text.toUTF8)])]

/-- The first file by two paths, and the folder of the second one. -/
def twoFilesPaths : List String := ["a.cs", "src/../a.cs", "src"]

/-- The files that are found by these paths. -/
def twoFilesFound : List SourceFile :=
  [usingFile, { usingFile with path := "src/../a.cs" }, declaringFile]

theorem discover_twoFilesTree :
    Discovery.discover twoFilesTree twoFilesPaths {} = .ok twoFilesFound := by
  have hfound : (Discovery.starts twoFilesPaths).mapM (Discovery.below twoFilesTree {}) =
      .ok (twoFilesFound.map fun file => [file]) := by decide +kernel
  rw [Discovery.discover, hfound]
  simp only [bind, Except.bind]
  rw [List.mergeSort_of_pairwise (by decide +kernel)]
  decide +kernel

/-- The fix that cuts `A.` out of the file that uses `A.B`. -/
def qualifierRemoval : Fix :=
  { replacement := "", span := { start := 14, len := 2, line := 1, column := 15 } }

theorem apply_qualifierRemoval :
    Edit.apply usingFile.text [qualifierRemoval] =
      { text := "using A;var b=B.C;", floor := 14, skipped := 0 } := by
  rw [Edit.apply, Edit.order, List.mergeSort_singleton]
  decide +kernel

/-- The reports on the files that are found. -/
def twoFilesReports : List Report :=
  let finding : Finding :=
    { argument := "A.B"
      fix := .offered qualifierRemoval
      message := "Type name 'A.B' is unnecessarily qualified"
      ruleId := "WI01001"
      severity := .warning
      span := { start := 14, len := 3, line := 1, column := 15 } }
  [{ path := "a.cs", text := usingFile.text, findings := [finding] },
   { path := "src/../a.cs", text := usingFile.text, findings := [finding] },
   { path := "src/b.cs", text := declaringFile.text, findings := [] }]

theorem analyze_twoFilesFound :
    (analyze twoFilesParser twoFilesFound {} true fun _ => .never) = .ok twoFilesReports := by
  have hparse : ∀ file ∈ twoFilesFound, treeOf twoFilesParser file = .ok (twoTrees file) := by
    intro file hfile
    simp only [twoFilesFound, List.mem_cons, List.not_mem_nil, or_false] at hfile
    rcases hfile with rfl | rfl | rfl <;> rfl
  rw [analyze_eq hparse, sortReports, List.mergeSort_of_pairwise (by decide +kernel)]
  decide +kernel

end Command

end Unqualify
