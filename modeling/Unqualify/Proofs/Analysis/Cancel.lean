import Mathlib.Data.List.Forall2
import Unqualify.Proofs.Analysis.Reports
import Unqualify.Proofs.Scan.Cancel
import Unqualify.Proofs.Scan.Together

/-!
# Cancelled runs

A run scans its files at the same time, and one signal cancels all scans.  How far each scan has
come when the signal is raised depends on how the scans interleave, so every file has its own view
of the signal.  Whatever these views are, a cancelled run fails as the whole run does, and otherwise
gives one report for each file with the first findings of the whole run
(`Analysis.analyze_cancelled`).

`Analysis.cancelled_scans_give_prefixes` puts this together with what a single scan does.
-/

namespace Unqualify.Analysis

/-- The first report is that of a whole scan, the second that of a scan of the same file that may
have been cancelled. -/
structure CutShort (whole cut : Report) : Prop where
  /-- They are on the same path. -/
  path_eq : cut.path = whole.path
  /-- They refer to the same text. -/
  text_eq : cut.text = whole.text
  /-- A cancelled scan gives out the first findings. -/
  findings_prefix : cut.findings <+: whole.findings

theorem cutShort_reportAt (config : Config) (scanner : Scanner) (t : SymbolTable)
    (signal : Nat → Signal) (file : Prepared × Nat) :
    CutShort (reportAt config scanner t (fun _ => .never) file)
      (reportAt config scanner t signal file) := by
  rw [reportAt, reportAt]
  split
  · refine ⟨rfl, rfl, ?_⟩
    rw [scanFile, scanFile, Scanner.findings_scanTree_never]
    exact scanner.findings_scanTree_prefix _ (signal file.2) file.1.expression
  · exact ⟨rfl, rfl, List.prefix_rfl⟩

/-- Sorting goes by paths, so the two runs stay in step. -/
theorem forall₂_cutShort_sortReports (config : Config) (scanner : Scanner) (t : SymbolTable)
    (signal : Nat → Signal) (files : List (Prepared × Nat)) :
    List.Forall₂ CutShort
      (sortReports (files.map (reportAt config scanner t fun _ => .never)))
      (sortReports (files.map (reportAt config scanner t signal))) := by
  rw [sortReports_map (fun file => file.1.path) _ (fun file => path_reportAt ..),
    sortReports_map (fun file => file.1.path) _ (fun file => path_reportAt ..),
    List.forall₂_map_left_iff, List.forall₂_map_right_iff, List.forall₂_same]
  intro file _
  exact cutShort_reportAt config scanner t signal file

/-- **A cancelled run gives the first findings of every file.**  It fails exactly when the whole run
fails, with the same error. -/
theorem analyze_cancelled (parse : Parser) (files : List SourceFile) (config : Config)
    (offerFixes : Bool) (signal : Nat → Signal) :
    (∃ e, (analyze parse files config offerFixes fun _ => .never) = .error e ∧
        analyze parse files config offerFixes signal = .error e) ∨
      ∃ whole cut, (analyze parse files config offerFixes fun _ => .never) = .ok whole ∧
        analyze parse files config offerFixes signal = .ok cut ∧
        List.Forall₂ CutShort whole cut := by
  rw [analyze_eq_bind, analyze_eq_bind]
  cases files.mapM (prepare parse) with
  | error e => exact Or.inl ⟨e, rfl, rfl⟩
  | ok prepared =>
    simp only [Except.bind]
    cases tableOf config.libraryTypes prepared with
    | error e => exact Or.inl ⟨e, rfl, rfl⟩
    | ok t =>
      exact Or.inr ⟨_, _, rfl, rfl, forall₂_cutShort_sortReports config _ t signal prepared.zipIdx⟩

/-- A run gives one report for each file, with its path and its text. -/
theorem perm_of_forall₂_cutShort {parse : Parser} {files : List SourceFile} {config : Config}
    {offerFixes : Bool} {whole cut : List Report}
    (hwhole : (analyze parse files config offerFixes fun _ => .never) = .ok whole)
    (hcut : List.Forall₂ CutShort whole cut) :
    (cut.map fun r => (r.path, r.text)).Perm (files.map fun file => (file.path, file.text)) := by
  have hsame : cut.map (fun r => (r.path, r.text)) = whole.map fun r => (r.path, r.text) := by
    clear hwhole
    induction hcut with
    | nil => rfl
    | cons h _ ih => rw [List.map_cons, List.map_cons, ih, h.path_eq, h.text_eq]
  obtain ⟨-, findings, rfl⟩ := exists_findings_of_analyze hwhole
  rw [hsame]
  refine ((perm_sortReports _).map _).trans (List.Perm.of_eq ?_)
  rw [List.map_map]
  rfl

/-- **Cancellation cuts a scan short and does nothing else.**

A scan that nobody cancels gives out the findings of all nodes in document order and resolves every
access once, in that order.

A signal that stays raised may be raised at any moment.  A scan that it cancels gives out the
findings of the nodes whose questions had all been asked before, which are the first ones of the
whole scan, and no finding of the node in progress; and it asks about the nodes whose visit had
started before, and about no later one.

So a cancelled run over some files fails only as the whole run does, and otherwise gives one report
for each file, with the first findings of the whole run.  Each file has its own view of the signal
here, so this is true however the scans of the files interleave with the cancellation. -/
theorem cancelled_scans_give_prefixes (s : Scanner) (oracle : Oracle) (root : Expression) :
    let whole := s.scanTree oracle .never root
    (whole.findings = root.preorder.filterMap (s.scan oracle) ∧
      whole.queries.filterMap Query.resolved? =
        (root.preorder.filterMap Expression.form?).map Access.text) ∧
    (∀ signal : Signal, signal.Lasting →
      let cut := s.scanTree oracle signal root
      cut.findings <+: whole.findings ∧
        cut.findings = ((s.visits oracle root).filter fun v => !signal v.finish).filterMap
          (fun v => s.scan oracle v.node) ∧
        cut.queries = ((s.visits oracle root).filter fun v => !signal v.start).flatMap
          fun v => s.queries oracle v.node) ∧
    ∀ (parse : Parser) (files : List SourceFile) (config : Config) (offerFixes : Bool)
      (signal : Nat → Signal),
      (∃ e, (analyze parse files config offerFixes fun _ => .never) = .error e ∧
          analyze parse files config offerFixes signal = .error e) ∨
        ∃ whole cut, (analyze parse files config offerFixes fun _ => .never) = .ok whole ∧
          analyze parse files config offerFixes signal = .ok cut ∧
          (cut.map fun r => (r.path, r.text)).Perm (files.map fun file => (file.path, file.text)) ∧
          List.Forall₂ CutShort whole cut := by
  intro whole
  have hwhole : whole.findings = root.preorder.filterMap (s.scan oracle) :=
    s.findings_scanTree_never oracle root
  refine ⟨⟨hwhole, Scanner.filterMap_resolved?_scanTree_never root⟩, fun signal hlasting => ?_,
    fun parse files config offerFixes signal => ?_⟩
  · refine ⟨?_, Scanner.findings_scanTree hlasting root, Scanner.queries_scanTree hlasting root⟩
    rw [hwhole]
    exact s.findings_scanTree_prefix oracle signal root
  · rcases analyze_cancelled parse files config offerFixes signal with
      herror | ⟨reports, cut, hreports, hcut, hshort⟩
    · exact Or.inl herror
    · exact Or.inr ⟨reports, cut, hreports, hcut, perm_of_forall₂_cutShort hreports hshort, hshort⟩

/-- The scan of `A.B` and `A.C`, cancelled while the second access is being resolved: of two findings
the first is given out, although the second access was asked about.  And a run over two files of
which only the first is cancelled, before its scan, does not fail. -/
theorem second_access_cancelled :
    let s : Scanner := { offerFixes := true }
    let table := SymbolTable.build [.library "A.B", .library "A.C"]
    let oracle := oracleOf table { usings := [.types "A"] }
    let root : Expression :=
      .other [Scanner.shortAccess 20 "B", Scanner.shortAccess 30 "C"] ⟨0, 40, 1, 1⟩
    let signal := Signal.afterResolving 2
    let whole := s.scanTree oracle .never root
    let cut := s.scanTree oracle signal root
    let run := analyze twoFilesParser [usingFile, declaringFile] { libraryTypes := ["A.C+D"] } true
    signal.Lasting ∧ cut.findings <+: whole.findings ∧
      whole.findings.map (·.argument) = ["A.B", "A.C"] ∧
      cut.findings.map (·.argument) = ["A.B"] ∧
      cut.queries = [.resolve "A.B", .lookup 20 "B", .resolve "A.C", .lookup 30 "C"] ∧
      ∃ whole cut, (run fun _ => .never) = .ok whole ∧
        (run fun i => if i = 0 then .raised else .never) = .ok cut ∧
        List.Forall₂ CutShort whole cut := by
  intro s table oracle root signal whole cut run
  have hlasting : signal.Lasting := Scanner.lasting_afterResolving 2
  obtain ⟨⟨hfindings, -⟩, hcancelled, hruns⟩ := cancelled_scans_give_prefixes s oracle root
  obtain ⟨hinit, hcut, hqueries⟩ := hcancelled signal hlasting
  refine ⟨hlasting, hinit, ?_, ?_, ?_, ?_⟩
  · rw [show whole.findings = _ from hfindings]
    decide +kernel
  · rw [show cut.findings = _ from hcut]
    decide +kernel
  · rw [show cut.queries = _ from hqueries]
    decide +kernel
  · rcases hruns twoFilesParser [usingFile, declaringFile] { libraryTypes := ["A.C+D"] } true
      (fun i => if i = 0 then .raised else .never) with ⟨e, herror, -⟩ | ⟨w, c, hw, hc, -, hshort⟩
    · have hparse : ∀ file ∈ [usingFile, declaringFile],
          treeOf twoFilesParser file = .ok (twoTrees file) := by
        intro file hfile
        rcases List.mem_pair.1 hfile with rfl | rfl <;> rfl
      rw [analyze_eq hparse] at herror
      cases herror
    · exact ⟨w, c, hw, hc, hshort⟩

end Unqualify.Analysis
