import Unqualify.Proofs.Command.Fix
import Unqualify.Proofs.Scan.Report

/-!
# Check and fix side by side

Asking for fixes changes what is known about fixing a finding and nothing else
(`Analysis.analyze_withoutFixes`), so checking and fixing a project see the same findings.  Fixing
then accounts for every one of them: its fix is withheld, skipped or applied
(`Command.findingCount_eq`).
-/

namespace Unqualify

/-! ### Findings with and without fixes -/

/-- A finding with what is known about fixing it left out. -/
def Finding.withoutFix (f : Finding) : Finding := { f with fix := .notRequested }

/-- A report with what is known about fixing its findings left out. -/
def Report.withoutFixes (r : Report) : Report :=
  { r with findings := r.findings.map Finding.withoutFix }

namespace Scanner

/-- A scanner that does not ask for fixes. -/
def withoutFixes (s : Scanner) : Scanner := { s with offerFixes := false }

theorem scan_withoutFixes (s : Scanner) (oracle : Oracle) (e : Expression) :
    s.withoutFixes.scan oracle e = (s.scan oracle e).map Finding.withoutFix := by
  cases e with
  | access left form =>
    ext f
    simp only [scan, Option.map_eq_some_iff, report_eq_some_iff]
    constructor
    · rintro ⟨hsymbol, hqualified, rfl⟩
      exact ⟨_, ⟨hsymbol, hqualified, rfl⟩, rfl⟩
    · rintro ⟨g, ⟨hsymbol, hqualified, rfl⟩, rfl⟩
      exact ⟨hsymbol, hqualified, rfl⟩
  | identifier name => rfl
  | aliased aliasName name span => rfl
  | other children span => rfl

/-- A scan that asks for fixes has an answer for each finding. -/
theorem fix_ne_notRequested {s : Scanner} {oracle : Oracle} {e : Expression} {f : Finding}
    (hs : s.offerFixes = true) (h : s.scan oracle e = some f) : f.fix ≠ .notRequested := by
  cases e with
  | access left form =>
    obtain ⟨-, -, rfl⟩ := report_eq_some_iff.1 h
    simp only [fixStatus, hs, if_true]
    split <;> simp
  | identifier name => cases h
  | aliased aliasName name span => cases h
  | other children span => cases h

theorem findings_scanTree_withoutFixes (s : Scanner) (oracle : Oracle) (root : Expression) :
    (s.withoutFixes.scanTree oracle .never root).findings =
      (s.scanTree oracle .never root).findings.map Finding.withoutFix := by
  rw [findings_scanTree_never, findings_scanTree_never, findingsOf, findingsOf,
    List.map_filterMap]
  exact List.filterMap_congr fun e _ => scan_withoutFixes s oracle e

end Scanner

namespace Analysis

theorem reportAt_withoutFixes (config : Config) (s : Scanner) (t : SymbolTable)
    (file : Prepared × Nat) :
    reportAt config s.withoutFixes t (fun _ => .never) file =
      (reportAt config s t (fun _ => .never) file).withoutFixes := by
  by_cases henabled : config.ruleEnabled s.rule.id s.rule.enabledByDefault = true
  · have hwithout : config.ruleEnabled s.withoutFixes.rule.id s.withoutFixes.rule.enabledByDefault =
        true := henabled
    rw [reportAt, reportAt, if_pos henabled, if_pos hwithout, scanFile, scanFile,
      Scanner.findings_scanTree_withoutFixes]
    rfl
  · have hwithout : ¬ config.ruleEnabled s.withoutFixes.rule.id
        s.withoutFixes.rule.enabledByDefault = true := henabled
    rw [reportAt, reportAt, if_neg henabled, if_neg hwithout]
    rfl

/-- **Asking for fixes changes what is known about fixing the findings, and nothing else.** -/
theorem analyze_withoutFixes (parse : Parser) (files : List SourceFile) (config : Config) :
    (analyze parse files config false fun _ => .never) =
      (analyze parse files config true fun _ => .never).map (List.map Report.withoutFixes) := by
  rw [analyze_eq_bind, analyze_eq_bind]
  cases files.mapM (prepare parse) with
  | error e => rfl
  | ok prepared =>
    simp only [Except.bind]
    cases tableOf config.libraryTypes prepared with
    | error e => rfl
    | ok t =>
      simp only [Except.map, Except.ok.injEq]
      rw [sortReports_map (fun file => file.1.path) _ (fun file => path_reportAt ..),
        sortReports_map (fun file => file.1.path) _ (fun file => path_reportAt ..), List.map_map]
      exact List.map_congr_left fun file _ =>
        reportAt_withoutFixes config { offerFixes := true } t file

/-- A run that asks for fixes has an answer for each finding. -/
theorem fix_ne_notRequested_of_analyze {parse : Parser} {files : List SourceFile}
    {config : Config} {reports : List Report}
    (h : (analyze parse files config true fun _ => .never) = .ok reports) :
    ∀ r ∈ reports, ∀ f ∈ r.findings, f.fix ≠ .notRequested := by
  obtain ⟨prepared, t, hprepared, ht⟩ := exists_of_analyze h
  rw [analyze_eq_bind, hprepared, Except.bind, ht] at h
  cases h
  intro r hr f hf
  rw [mem_sortReports, List.mem_map] at hr
  obtain ⟨file, -, rfl⟩ := hr
  rw [reportAt] at hf
  split_ifs at hf
  · rw [scanFile, Scanner.findings_scanTree_never, Scanner.findingsOf, List.mem_filterMap] at hf
    obtain ⟨e, -, he⟩ := hf
    exact Scanner.fix_ne_notRequested rfl he
  · cases hf

end Analysis

namespace Command

open Analysis

/-! ### What happened to the fixes -/

/-- The number of fixes that were applied. -/
def appliedCount (edits : List FileEdit) : Nat :=
  edits.foldl (fun n e => n + e.applied) 0

/-- What fixing does to the file of a report, if anything is to be done. -/
def editOf? (r : Report) : Option FileEdit :=
  let edit := Edit.apply r.text r.offeredFixes
  if r.offeredFixes.isEmpty then none
  else some { path := r.path, applied := r.offeredFixes.length - edit.skipped,
              skipped := edit.skipped }

theorem foldl_fixFile_snd (reports : List Report) (state : FileTree × List FileEdit) :
    (reports.foldl fixFile state).2 = state.2 ++ reports.filterMap editOf? := by
  induction reports generalizing state with
  | nil => simp
  | cons r reports ih =>
    rw [List.foldl_cons, ih, List.filterMap_cons]
    by_cases hnil : r.offeredFixes.isEmpty = true
    · simp [fixFile, editOf?, hnil]
    · simp [fixFile, editOf?, hnil]

theorem foldl_add_eq (count : FileEdit → Nat) (edits : List FileEdit) (n : Nat) :
    edits.foldl (fun n e => n + count e) n = n + edits.foldl (fun n e => n + count e) 0 := by
  induction edits generalizing n with
  | nil => rfl
  | cons e edits ih =>
    rw [List.foldl_cons, List.foldl_cons, ih, ih (0 + count e)]
    omega

@[simp] theorem appliedCount_cons (e : FileEdit) (edits : List FileEdit) :
    appliedCount (e :: edits) = e.applied + appliedCount edits := by
  rw [appliedCount, List.foldl_cons, foldl_add_eq, Nat.zero_add]
  rfl

@[simp] theorem skippedCount_cons (e : FileEdit) (edits : List FileEdit) :
    skippedCount (e :: edits) = e.skipped + skippedCount edits := by
  rw [skippedCount, List.foldl_cons, foldl_add_eq, Nat.zero_add]
  rfl

theorem skippedCount_eq_zero_iff {edits : List FileEdit} :
    skippedCount edits = 0 ↔ ∀ e ∈ edits, e.skipped = 0 := by
  induction edits with
  | nil => simp [skippedCount]
  | cons e edits ih => simp [ih]

/-- A finding whose fix was asked for offers it or not. -/
theorem length_eq_of_requested {findings : List Finding}
    (h : ∀ f ∈ findings, f.fix ≠ .notRequested) :
    findings.length =
      (findings.filterMap Finding.offeredFix?).length +
        findings.countP (·.rejection?.isSome) := by
  induction findings with
  | nil => rfl
  | cons f findings ih =>
    obtain ⟨hf, hrest⟩ := List.forall_mem_cons.1 h
    have ih := ih hrest
    cases hfix : f.fix with
    | notRequested => exact absurd hfix hf
    | offered fix =>
      simp [Finding.offeredFix?, Finding.rejection?, hfix, ih]
      omega
    | withheld rejection =>
      simp [Finding.offeredFix?, Finding.rejection?, hfix, ih]
      omega

/-- **Every finding is accounted for**: its fix is applied, skipped or withheld. -/
theorem findingCount_eq {reports : List Report}
    (h : ∀ r ∈ reports, ∀ f ∈ r.findings, f.fix ≠ .notRequested) :
    Report.findingCount reports =
      appliedCount (reports.filterMap editOf?) + skippedCount (reports.filterMap editOf?) +
        Report.withheldCount reports := by
  induction reports with
  | nil => rfl
  | cons r reports ih =>
    obtain ⟨hr, hrest⟩ := List.forall_mem_cons.1 h
    have ih := ih hrest
    have hlength := length_eq_of_requested hr
    have hskipped := Edit.skipped_apply_le r.text r.offeredFixes
    rw [← Report.offeredFixes] at hlength
    simp only [Report.findingCount, Report.withheldCount, List.flatMap_cons, List.length_append,
      List.countP_append, List.filterMap_cons] at ih ⊢
    by_cases hnil : r.offeredFixes.isEmpty = true
    · have hzero : r.offeredFixes.length = 0 := by simpa using hnil
      simp only [editOf?, hnil, if_true]
      omega
    · simp only [editOf?, hnil, Bool.false_eq_true, if_false, appliedCount_cons, skippedCount_cons]
      omega

theorem withheldCount_eq_zero_iff {reports : List Report} :
    Report.withheldCount reports = 0 ↔ ∀ r ∈ reports, ∀ f ∈ r.findings, f.rejection? = none := by
  simp only [Report.withheldCount, List.countP_eq_zero, List.mem_flatMap]
  constructor
  · intro h r hr f hf
    simpa using h f ⟨r, hr, hf⟩
  · rintro h f ⟨r, hr, hf⟩
    simp [h r hr f hf]

theorem skippedCount_filterMap_eq_zero_iff {reports : List Report} :
    skippedCount (reports.filterMap editOf?) = 0 ↔
      ∀ r ∈ reports, (Edit.apply r.text r.offeredFixes).skipped = 0 := by
  rw [skippedCount_eq_zero_iff]
  constructor
  · intro h r hr
    by_cases hnil : r.offeredFixes.isEmpty = true
    · have hle := Edit.skipped_apply_le r.text r.offeredFixes
      rw [List.isEmpty_iff.1 hnil] at hle ⊢
      exact Nat.le_zero.1 hle
    · exact h _ (List.mem_filterMap.2 ⟨r, hr, by simp only [editOf?, hnil]; rfl⟩)
  · intro h e he
    obtain ⟨r, hr, hedit⟩ := List.mem_filterMap.1 he
    simp only [editOf?] at hedit
    split_ifs at hedit
    cases hedit
    exact h r hr

/-! ### Runs -/

theorem analyzeProject_withoutFixes (parse : Parser) (root : FileTree) (paths : List String) :
    analyzeProject parse root paths false =
      (analyzeProject parse root paths true).map (List.map Report.withoutFixes) := by
  simp only [analyzeProject, bind]
  cases loadConfig root with
  | error e => rfl
  | ok config =>
    simp only [Except.bind]
    cases Discovery.discover root paths config with
    | error e => rfl
    | ok files => exact Analysis.analyze_withoutFixes parse files config

theorem anyFinding_withoutFixes (reports : List Report) :
    Report.anyFinding (reports.map Report.withoutFixes) = Report.anyFinding reports := by
  simp [Report.anyFinding, Report.withoutFixes, Function.comp_def]

/-- What a run says that finds nothing to fix. -/
def nothingToFix : String := "No redundant qualifications, nothing to fix.\n"

theorem exitCode_outcome_check {parse : Parser} {root : FileTree} {paths : List String}
    {reports : List Report} (h : analyzeProject parse root paths true = .ok reports)
    (format : Format) :
    (outcome parse root (.check paths format)).exitCode =
      if Report.anyFinding reports then 1 else 0 := by
  rw [outcome, run, runCheck, analyzeProject_withoutFixes, h]
  simp only [Except.map, bind, Except.bind, anyFinding_withoutFixes]

theorem stderr_outcome_fix {parse : Parser} {root : FileTree} {paths : List String}
    {reports : List Report} (h : analyzeProject parse root paths true = .ok reports) :
    (outcome parse root (.fix paths)).stderr =
      if Report.anyFinding reports then "" else nothingToFix := by
  rw [outcome, run, runFix, h]
  simp only [bind, Except.bind]
  by_cases hany : Report.anyFinding reports = true
  · simp [hany]
  · simp [hany, nothingToFix]

theorem exitCode_outcome_fix {parse : Parser} {root : FileTree} {paths : List String}
    {reports : List Report} (h : analyzeProject parse root paths true = .ok reports) :
    (outcome parse root (.fix paths)).exitCode =
      if skippedCount (reports.filterMap editOf?) + Report.withheldCount reports > 0
      then 1 else 0 := by
  have hedits := foldl_fixFile_snd reports (root, [])
  rw [List.nil_append] at hedits
  rw [outcome, run, runFix, h]
  simp only [bind, Except.bind]
  by_cases hany : Report.anyFinding reports = true
  · simp [hany, hedits]
  · -- without findings nothing was skipped or withheld
    rw [Bool.not_eq_true] at hany
    have hskipped : reports.filterMap editOf? = [] := by
      rw [← hedits, foldl_fixFile_of_no_finding hany]
    have hwithheld : Report.withheldCount reports = 0 := by
      rw [withheldCount_eq_zero_iff]
      intro r hr f hf
      have hempty : r.findings = [] := by
        simpa using List.any_eq_false.1 hany r hr
      rw [hempty] at hf
      cases hf
    simp [hany, hskipped, hwithheld, skippedCount]

/-- **Checking and fixing agree, and fixing accounts for every finding.**

An analysis with fixes fails as the one without fixes does, and otherwise reports the same but for
what is known about fixing; where the fixes are asked for, each is offered or withheld.  So a project
passes the check exactly when there is nothing to fix in it.  The findings are as many as the fixes
that fixing has applied, skipped and withheld, and the exit code is zero exactly when every finding
had its fix offered and applied. -/
theorem check_and_fix_agree (parse : Parser) (root : FileTree) (paths : List String) :
    (∀ files config, (Analysis.analyze parse files config false fun _ => .never) =
      (Analysis.analyze parse files config true fun _ => .never).map
        (List.map Report.withoutFixes)) ∧
    analyzeProject parse root paths false =
      (analyzeProject parse root paths true).map (List.map Report.withoutFixes) ∧
    ∀ reports, analyzeProject parse root paths true = .ok reports →
      let edits := (reports.foldl fixFile (root, [])).2
      let fixed := outcome parse root (.fix paths)
      (∀ r ∈ reports, ∀ f ∈ r.findings,
        (∃ fix, f.fix = .offered fix) ∨ ∃ rejection, f.fix = .withheld rejection) ∧
      (∀ format, (outcome parse root (.check paths format)).exitCode =
        if fixed.stderr = nothingToFix then 0 else 1) ∧
      Report.findingCount reports =
        appliedCount edits + skippedCount edits + Report.withheldCount reports ∧
      (fixed.exitCode = 0 ↔
        ∀ r ∈ reports, (∀ f ∈ r.findings, ∃ fix, f.fix = .offered fix) ∧
          (Edit.apply r.text r.offeredFixes).skipped = 0) := by
  refine ⟨Analysis.analyze_withoutFixes parse, analyzeProject_withoutFixes parse root paths,
    fun reports hreports => ?_⟩
  intro edits fixed
  have hedits : edits = reports.filterMap editOf? := foldl_fixFile_snd reports (root, [])
  have hasked : ∀ r ∈ reports, ∀ f ∈ r.findings, f.fix ≠ .notRequested := by
    obtain ⟨config, files, -, -, hanalysis⟩ := analyzeProject_eq_ok_iff.1 hreports
    exact Analysis.fix_ne_notRequested_of_analyze hanalysis
  refine ⟨fun r hr f hf => ?_, fun format => ?_, ?_, ?_⟩
  · cases hfix : f.fix with
    | notRequested => exact absurd hfix (hasked r hr f hf)
    | offered fix => exact Or.inl ⟨fix, rfl⟩
    | withheld rejection => exact Or.inr ⟨rejection, rfl⟩
  · rw [exitCode_outcome_check hreports, show fixed.stderr = _ from stderr_outcome_fix hreports]
    cases Report.anyFinding reports <;> rfl
  · rw [hedits]
    exact findingCount_eq hasked
  · have hzero : fixed.exitCode = 0 ↔
        skippedCount (reports.filterMap editOf?) = 0 ∧ Report.withheldCount reports = 0 := by
      rw [show fixed.exitCode = _ from exitCode_outcome_fix hreports]
      split_ifs
      · rw [iff_false_left (by decide)]
        omega
      · rw [iff_true_left rfl]
        omega
    rw [hzero, skippedCount_filterMap_eq_zero_iff, withheldCount_eq_zero_iff]
    constructor
    · rintro ⟨hskipped, hwithheld⟩ r hr
      refine ⟨fun f hf => ?_, hskipped r hr⟩
      have hkept := hwithheld r hr f hf
      cases hfix : f.fix with
      | notRequested => exact absurd hfix (hasked r hr f hf)
      | offered fix => exact ⟨fix, rfl⟩
      | withheld rejection => simp [Finding.rejection?, hfix] at hkept
    · intro h
      refine ⟨fun r hr => (h r hr).2, fun r hr f hf => ?_⟩
      obtain ⟨fix, hfix⟩ := (h r hr).1 f hf
      simp [Finding.rejection?, hfix]

/-- The file that uses `A.B` is found by two paths.  Both findings have their fix offered and applied,
so fixing succeeds where checking does not. -/
theorem two_findings_accounted :
    let edits := (twoFilesReports.foldl fixFile (twoFilesTree, [])).2
    let fixed := outcome twoFilesParser twoFilesTree (.fix twoFilesPaths)
    analyzeProject twoFilesParser twoFilesTree twoFilesPaths true = .ok twoFilesReports ∧
      analyzeProject twoFilesParser twoFilesTree twoFilesPaths false =
        .ok (twoFilesReports.map Report.withoutFixes) ∧
      appliedCount edits + skippedCount edits + Report.withheldCount twoFilesReports = 2 ∧
      fixed.exitCode = 0 ∧ fixed.stderr ≠ nothingToFix ∧
      (outcome twoFilesParser twoFilesTree (.check twoFilesPaths .text)).exitCode = 1 := by
  intro edits fixed
  have hreports : analyzeProject twoFilesParser twoFilesTree twoFilesPaths true =
      .ok twoFilesReports :=
    analyzeProject_eq_ok_iff.2
      ⟨{}, twoFilesFound, rfl, discover_twoFilesTree, analyze_twoFilesFound⟩
  obtain ⟨-, hagree, hrun⟩ := check_and_fix_agree twoFilesParser twoFilesTree twoFilesPaths
  obtain ⟨-, hcheck, hcount, hexit⟩ := hrun twoFilesReports hreports
  have hstderr : fixed.stderr ≠ nothingToFix := by
    rw [show fixed.stderr = _ from stderr_outcome_fix hreports]
    decide +kernel
  refine ⟨hreports, ?_, hcount.symm, hexit.2 ?_, hstderr, ?_⟩
  · rw [hagree, hreports]
    rfl
  · have hskipped : (Edit.apply usingFile.text [qualifierRemoval]).skipped = 0 := by
      rw [apply_qualifierRemoval]
    intro r hr
    simp only [twoFilesReports, List.mem_cons, List.not_mem_nil, or_false] at hr
    rcases hr with rfl | rfl | rfl
    · exact ⟨fun f hf => ⟨qualifierRemoval, by rw [List.mem_singleton.1 hf]⟩, hskipped⟩
    · exact ⟨fun f hf => ⟨qualifierRemoval, by rw [List.mem_singleton.1 hf]⟩, hskipped⟩
    · exact ⟨by simp, Nat.le_zero.1 (Edit.skipped_apply_le declaringFile.text [])⟩
  · rw [hcheck .text, if_neg hstderr]

end Command

end Unqualify
