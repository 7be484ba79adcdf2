import Unqualify.Proofs.Command.Fix
import Unqualify.Proofs.Model.OneLine
import Unqualify.Proofs.Report.Positions
import Mathlib.Algebra.GroupWithZero.Nat

/-!
# The lines of a text report

A report prints a header for each finding, the source line below it and, when fixes are asked for,
a note on the fix.  The header and the note quote the access as it is written.  So they are lines if
and only if the access stands on one line; everything else that is printed holds no line break
(`Report.printed_on_lines_iff`).  An access over several lines breaks its header
(`Report.wrapped_access_breaks_header`).
-/

namespace Unqualify

open Text (OneLine)

/-! ### Lines of a text -/

namespace Text

theorem oneLine_toString (n : Nat) : OneLine (toString n) := by
  intro hmem
  rw [show toString n = n.repr from rfl, Nat.toList_repr] at hmem
  exact absurd (Nat.isDigit_of_mem_toDigits (by decide) (by decide) hmem) (by decide)

/-- Every line ends with a newline, and may hold others. -/
theorem count_unlines (lines : List String) :
    (unlines lines).toList.count '\n' =
      lines.length + (lines.map fun line => line.toList.count '\n').sum := by
  rw [unlines, String.toList_join]
  induction lines with
  | nil => rfl
  | cons line lines ih =>
    have hbreak : "\n".toList.count '\n' = 1 := rfl
    simp only [List.map_cons, List.flatMap_cons, List.count_append, String.toList_append, ih,
      List.length_cons, List.sum_cons]
    omega

theorem count_unlines_eq_length_iff {lines : List String} :
    (unlines lines).toList.count '\n' = lines.length ↔ ∀ line ∈ lines, OneLine line := by
  have hsum : (lines.map fun line => line.toList.count '\n').sum = 0 ↔
      ∀ line ∈ lines, OneLine line := by
    rw [List.sum_eq_zero_iff_forall_eq_nat, List.forall_mem_map]
    simp only [List.count_eq_zero, OneLine]
  rw [count_unlines, ← hsum]
  omega

end Text

/-! ### What is printed -/

namespace Rule

/-- The message of the rule quotes the access. -/
theorem message_qualification (argument : String) :
    qualification.message argument =
      "Type name '" ++ argument ++ "' is unnecessarily qualified" := by
  rw [← String.toList_inj, message, String.toList_ofList]
  simp only [String.toList_append]
  rfl

theorem oneLine_message_iff {argument : String} :
    OneLine (qualification.message argument) ↔ OneLine argument := by
  have hfront : OneLine "Type name '" := by decide
  have hback : OneLine "' is unnecessarily qualified" := by decide
  simp only [message_qualification, Text.oneLine_append, hfront, hback, true_and, and_true]

/-- The reason to keep an access names what was found instead. -/
theorem oneLine_text_of_fixFor {form : Access} {symbol : Symbol} {found : Lookup}
    {rejection : Rejection} (h : fixFor form symbol found = .error rejection)
    (hfound : found.OnOneLine) : OneLine rejection.text := by
  cases hfound with
  | ambiguous all =>
    cases h
    unfold Rejection.text
    simp only [Text.oneLine_append]
    exact ⟨⟨by decide, (Text.oneLine_intercalate_iff (by decide)).2 all⟩, by decide⟩
  | notFound =>
    cases h
    decide
  | unique one =>
    rw [fixFor] at h
    split_ifs at h
    cases h
    unfold Rejection.text
    simp only [Text.oneLine_append]
    exact ⟨⟨by decide, one⟩, by decide⟩

/-- The edit that shortens an access takes its qualifier away. -/
theorem slice_qualifierSpan {text before qualifier rest after : String} {form : Access}
    (hcut : Access.Cut text form before qualifier rest after)
    (hsize : text.utf8ByteSize ≤ maxOffset) :
    Text.slice text (qualifierSpan form).start (qualifierSpan form).stop = qualifier := by
  have htext : text = before ++ qualifier ++ (rest ++ after) := by
    rw [hcut.text_eq]
    simp only [String.append_assoc]
  have hstop : (qualifierSpan form).stop = (before ++ qualifier).utf8ByteSize := by
    rw [htext] at hsize
    simp only [qualifierSpan, Span.stop, hcut.start_eq, hcut.name_eq,
      String.utf8ByteSize_append] at hsize ⊢
    omega
  have hstart : (qualifierSpan form).start = before.utf8ByteSize := hcut.start_eq
  rw [hstart, hstop, htext]
  exact Text.slice_append before qualifier (rest ++ after)

end Rule

namespace Report

theorem headerLine_eq {f : Finding} (hseverity : f.severity = .warning)
    (hid : f.ruleId = "WI01001") (path : String) :
    headerLine path f = path ++ ":" ++ toString f.span.line ++ ":" ++ toString f.span.column ++
      ": warning[WI01001]: " ++ f.message := by
  have hlabel : ": " ++ Severity.warning.label ++ "[" ++ "WI01001" ++ "]: " =
      ": warning[WI01001]: " := by decide
  rw [headerLine, hseverity, hid, ← hlabel]
  simp only [String.append_assoc]
  rfl

theorem oneLine_headerLine_iff {f : Finding} (hseverity : f.severity = .warning)
    (hid : f.ruleId = "WI01001") {path : String} (hpath : OneLine path) :
    OneLine (headerLine path f) ↔ OneLine f.message := by
  have hcolon : OneLine ":" := by decide
  have hlabel : OneLine ": warning[WI01001]: " := by decide
  simp only [headerLine_eq hseverity hid, Text.oneLine_append, Text.oneLine_toString, hpath, hcolon,
    hlabel, true_and]

/-- The notes on the fix of a finding: one, if fixes are asked for. -/
theorem exists_notes {offerFixes : Bool} {oracle : Oracle} {symbol : Symbol} {form : Access}
    {text before qualifier rest after : String} {f : Finding}
    (hcut : Access.Cut text form before qualifier rest after)
    (hsize : text.utf8ByteSize ≤ maxOffset)
    (hfix : f.fix = Scanner.fixStatus { offerFixes } oracle form symbol)
    (hlookup : OneLine form.text →
      (oracle.lookup form.span.start form.name.identifier).OnOneLine) :
    ∃ notes : List String, fixLine text f = notes.map ("    " ++ ·) ∧
      notes.length = (if offerFixes then 1 else 0) ∧
      (OneLine form.text → ∀ note ∈ notes, OneLine note) := by
  cases offerFixes with
  | false => exact ⟨[], by rw [fixLine, hfix]; rfl, rfl, by simp⟩
  | true =>
    cases hsuggest : Rule.suggestFix oracle form symbol with
    | ok fix =>
      have hoffered : f.fix = .offered fix := by
        rw [hfix, Scanner.fixStatus, hsuggest]
        rfl
      have hspan : fix.span = Rule.qualifierSpan form := by
        rw [(Scanner.suggestFix_eq_ok_iff.1 hsuggest).2]
      refine ⟨["fix: remove `" ++ qualifier ++ "`"], ?_, rfl, fun hone => ?_⟩
      · rw [fixLine, hoffered]
        simp only [hspan, Rule.slice_qualifierSpan hcut hsize, List.map_singleton,
          ← String.append_assoc]
        rfl
      · rw [hcut.own_eq, Text.oneLine_append] at hone
        simp only [List.forall_mem_singleton, Text.oneLine_append]
        exact ⟨⟨by decide, hone.1⟩, by decide⟩
    | error rejection =>
      have hwithheld : f.fix = .withheld rejection := by
        rw [hfix, Scanner.fixStatus, hsuggest]
        rfl
      refine ⟨["fix withheld: " ++ rejection.text], ?_, rfl, fun hone => ?_⟩
      · rw [fixLine, hwithheld, List.map_singleton, ← String.append_assoc]
        rfl
      · rw [List.forall_mem_singleton, Text.oneLine_append]
        exact ⟨by decide, Rule.oneLine_text_of_fixFor hsuggest (hlookup hone)⟩

end Report

/-! ### Runs -/

/-- The ranges of the tree lie in the text, and the types that it declares have names on one line,
as single tokens are. -/
structure Tree.Legible (text : String) (tree : Tree) : Prop where
  /-- The ranges lie in the text. -/
  liesIn : tree.LiesIn text
  /-- The names of types are on one line. -/
  oneLine_name : ∀ d ∈ (Outline.ofFile (Source.ofText text) tree).types, OneLine d.name

namespace Analysis

/-- The names of declared types are on one line, so the full names of a run are. -/
theorem onOneLine_runTable {parse : Parser} {files : List SourceFile} {config : Config}
    {offerFixes : Bool} {signal : Nat → Signal} {reports : List Report}
    (h : analyze parse files config offerFixes signal = .ok reports)
    (htrees : ∀ file ∈ files, ∀ tree, parse file.text = some tree → tree.Legible file.text) :
    (runTable parse files config).OnOneLine := by
  obtain ⟨prepared, -, hprepared, -⟩ := exists_of_analyze h
  refine SymbolTable.onOneLine_build fun src tree hmem => ?_
  rcases List.mem_append.1 hmem with hlibrary | hsource
  · obtain ⟨entry, -, heq⟩ := List.mem_map.1 hlibrary
    cases heq
  · obtain ⟨file, hfile, heq⟩ := List.mem_map.1 hsource
    cases heq
    have htree := (treeOf_eq_of_mapM_prepare hprepared file hfile).2
    exact (htrees file hfile _ (parse_eq_of_treeOf htree).2).oneLine_name

end Analysis

namespace Report

section Run

variable {parse : Parser} {files : List SourceFile} {config : Config} {offerFixes : Bool}
  {signal : Nat → Signal} {reports : List Report}
  (h : Analysis.analyze parse files config offerFixes signal = .ok reports)
  (hpaths : ∀ file ∈ files, OneLine file.path)
  (htrees : ∀ file ∈ files, ∀ tree, parse file.text = some tree → tree.Legible file.text)

include h hpaths htrees

/-- A finding is printed as a header, a source line and the notes on its fix, and all of them are
lines if the access is. -/
theorem exists_printed {r : Report} (hr : r ∈ reports) {f : Finding} (hf : f ∈ r.findings) :
    ∃ (source : String) (notes : List String), r.findingLines (Text.lines r.text) f =
        (r.path ++ ":" ++ toString f.span.line ++ ":" ++ toString f.span.column ++
          ": warning[WI01001]: " ++ f.message) :: ("    " ++ source) :: notes.map ("    " ++ ·) ∧
      notes.length = (if offerFixes then 1 else 0) ∧
      ((∀ line ∈ r.findingLines (Text.lines r.text) f, OneLine line) ↔ OneLine f.argument) := by
  obtain ⟨file, hfile, tree, hparse, hpath, htext, haccess⟩ :=
    Analysis.exists_access_of_analyze h r hr
  obtain ⟨left, form, hmem, hreport⟩ := haccess f hf
  obtain ⟨before, qualifier, rest, after, hcut⟩ :=
    Access.exists_cut (htrees file hfile tree hparse).liesIn hmem
  have hlies : ∀ tree, parse r.text = some tree → tree.LiesIn r.text := by
    rw [htext]
    exact fun tree hparse => (htrees file hfile tree hparse).liesIn
  obtain ⟨hshown, hlocated⟩ := findings_located h hr hlies f hf
  obtain ⟨-, -, hf⟩ := Scanner.report_eq_some_iff.1 hreport
  have hargument : f.argument = form.text := by rw [hf]
  have hmessage : f.message = Rule.qualification.message f.argument := by rw [hf]
  have hseverity : f.severity = .warning := by rw [hf]
  have hid : f.ruleId = "WI01001" := by
    rw [hf]
    rfl
  -- the note on the fix quotes the qualifier, or names that a lookup found
  have hsize : r.text.utf8ByteSize ≤ maxOffset := by
    have hmax : Analysis.maxFileSize ≤ maxOffset := by decide
    rw [htext]
    exact Nat.le_trans ((Analysis.usable_of_analyze h).1 file hfile) hmax
  have htable := Analysis.onOneLine_runTable h htrees
  rw [← htext] at hcut
  obtain ⟨notes, hnotes, hlength, honeNotes⟩ :=
    exists_notes hcut hsize (show f.fix = _ by rw [hf]) fun hone =>
      Model.onOneLine_lookup htable (fun hbreak => hone (hcut.identifier_subset hbreak))
        (Outline.compact_ofFile _ tree) _
  have hlines : r.findingLines (Text.lines r.text) f =
      headerLine r.path f :: ("    " ++ r.shownLine f) :: notes.map ("    " ++ ·) := by
    rw [findingLines, sourceLine, hshown, hnotes]
    rfl
  refine ⟨r.shownLine f, notes, by rw [hlines, headerLine_eq hseverity hid], hlength, ?_⟩
  have hmargin {s : String} : OneLine ("    " ++ s) ↔ OneLine s := by
    have hblanks : OneLine "    " := by decide
    simp only [Text.oneLine_append, hblanks, true_and]
  have hsource : OneLine (r.shownLine f) := by
    obtain ⟨above, ending, below, hat, -⟩ := hlocated.place
    exact hat.noNewline
  rw [hlines, List.forall_mem_cons, List.forall_mem_cons, List.forall_mem_map,
    oneLine_headerLine_iff hseverity hid (hpath ▸ hpaths file hfile), hmessage,
    Rule.oneLine_message_iff]
  constructor
  · rintro ⟨hone, -⟩
    exact hone
  · intro hone
    exact ⟨hone, hmargin.2 hsource, fun note hnote =>
      hmargin.2 (honeNotes (hargument ▸ hone) note hnote)⟩

end Run

theorem renderText_eq (reports : List Report) :
    renderText reports = Text.unlines (reports.flatMap fun r =>
      r.findings.flatMap (r.findingLines (Text.lines r.text))) := by
  refine congrArg Text.unlines (List.flatMap_congr fun r _ => ?_)
  exact outputLines_eq_flatMap r

/-- With as many lines for each finding, the lines of all findings are a multiple of them. -/
theorem length_flatMap_findings {reports : List Report} {printed : Report → Finding → List String}
    {k : Nat} (h : ∀ r ∈ reports, ∀ f ∈ r.findings, (printed r f).length = k) :
    (reports.flatMap fun r => r.findings.flatMap (printed r)).length =
      k * findingCount reports := by
  have hone {xs : List Finding} {g : Finding → List String} (hg : ∀ f ∈ xs, (g f).length = k) :
      (xs.flatMap g).length = k * xs.length := by
    induction xs with
    | nil => rfl
    | cons f xs ih =>
      rw [List.forall_mem_cons] at hg
      rw [List.flatMap_cons, List.length_append, hg.1, ih hg.2, List.length_cons, Nat.mul_succ]
      omega
  rw [findingCount]
  induction reports with
  | nil => rfl
  | cons r reports ih =>
    rw [List.forall_mem_cons] at h
    rw [List.flatMap_cons, List.flatMap_cons, List.length_append, List.length_append, hone h.1,
      ih h.2, Nat.mul_add]

/-- **A report is made of lines if and only if the accesses it quotes are written on one line.**
For each finding there are a header, a source line and, when fixes are asked for, a note; only a
line break in the access makes more lines of them. -/
theorem printed_on_lines_iff {parse : Parser} {files : List SourceFile} {config : Config}
    {offerFixes : Bool} {signal : Nat → Signal} {reports : List Report}
    (h : Analysis.analyze parse files config offerFixes signal = .ok reports)
    (hpaths : ∀ file ∈ files, OneLine file.path)
    (htrees : ∀ file ∈ files, ∀ tree, parse file.text = some tree → tree.Legible file.text) :
    let printed (r : Report) (f : Finding) := r.findingLines (Text.lines r.text) f
    renderText reports = Text.unlines (reports.flatMap fun r => r.findings.flatMap (printed r)) ∧
      (∀ r ∈ reports, ∀ f ∈ r.findings, ∃ (source : String) (notes : List String),
        printed r f = (r.path ++ ":" ++ toString f.span.line ++ ":" ++ toString f.span.column ++
          ": warning[WI01001]: " ++ f.message) :: ("    " ++ source) :: notes.map ("    " ++ ·) ∧
        notes.length = (if offerFixes then 1 else 0) ∧
        ((∀ line ∈ printed r f, OneLine line) ↔ OneLine f.argument)) ∧
      ((renderText reports).toList.count '\n' =
          (if offerFixes then 3 else 2) * findingCount reports ↔
        ∀ r ∈ reports, ∀ f ∈ r.findings, OneLine f.argument) := by
  intro printed
  have hprinted : ∀ r ∈ reports, ∀ f ∈ r.findings, _ :=
    fun r hr f hf => exists_printed h hpaths htrees hr hf
  refine ⟨renderText_eq reports, hprinted, ?_⟩
  have hlength : ∀ r ∈ reports, ∀ f ∈ r.findings,
      (printed r f).length = if offerFixes then 3 else 2 := by
    intro r hr f hf
    obtain ⟨source, notes, hlines, hnotes, -⟩ := hprinted r hr f hf
    simp only [printed, hlines, List.length_cons, List.length_map, hnotes]
    cases offerFixes <;> rfl
  rw [renderText_eq, ← length_flatMap_findings hlength, Text.count_unlines_eq_length_iff]
  simp only [List.forall_mem_flatMap]
  refine forall₂_congr fun r hr => forall₂_congr fun f hf => ?_
  obtain ⟨-, -, -, -, hiff⟩ := hprinted r hr f hf
  exact hiff

/-- Two findings on accesses on one line are printed on six lines. -/
theorem two_findings_on_six_lines :
    let files := Command.twoFilesFound
    let reports := Command.twoFilesReports
    (Analysis.analyze Analysis.twoFilesParser files {} true fun _ => .never) = .ok reports ∧
      (∀ file ∈ files, OneLine file.path) ∧
      (∀ file ∈ files, ∀ tree, Analysis.twoFilesParser file.text = some tree →
        tree.Legible file.text) ∧
      findingCount reports = 2 ∧ (renderText reports).toList.count '\n' = 6 := by
  intro files reports
  have hpaths : ∀ file ∈ files, OneLine file.path := by decide +kernel
  have hplaced : ∀ file ∈ files, (Analysis.twoTrees file).Placed file.text ∧
      ∀ d ∈ (Outline.ofFile (Source.ofText file.text) (Analysis.twoTrees file)).types,
        OneLine d.name := by decide +kernel
  have hparser : ∀ file ∈ files,
      Analysis.twoFilesParser file.text = some (Analysis.twoTrees file) := by
    intro file hfile
    simp only [files, Command.twoFilesFound, List.mem_cons, List.not_mem_nil, or_false] at hfile
    rcases hfile with rfl | rfl | rfl <;> rfl
  have htrees : ∀ file ∈ files, ∀ tree, Analysis.twoFilesParser file.text = some tree →
      tree.Legible file.text := by
    intro file hfile tree htree
    rw [hparser file hfile] at htree
    cases htree
    exact ⟨(hplaced file hfile).1.liesIn, (hplaced file hfile).2⟩
  obtain ⟨-, -, hcount⟩ := printed_on_lines_iff Command.analyze_twoFilesFound hpaths htrees
  have hone : ∀ r ∈ reports, ∀ f ∈ r.findings, OneLine f.argument := by decide +kernel
  have htwo : findingCount reports = 2 := by decide +kernel
  refine ⟨Command.analyze_twoFilesFound, hpaths, htrees, htwo, ?_⟩
  rw [hcount.2 hone, htwo]
  rfl

/-- An access over two lines breaks its header and the note on its fix: five lines are printed
instead of three. -/
theorem wrapped_access_breaks_header :
    Analysis.analyze wrappedParser [wrappedFile] { libraryTypes := ["A.B"] } true
        (fun _ => .never) = .ok [wrappedReport] ∧
      OneLine wrappedFile.path ∧ wrappedParser wrappedFile.text = some wrappedTree ∧
      wrappedTree.Legible wrappedFile.text ∧
      renderText [wrappedReport] =
        "a.cs:2:8: warning[WI01001]: Type name 'A\r\n .B' is unnecessarily qualified\n" ++
          "    int é=A\n    fix: remove `A\r\n .`\n" ∧
      findingCount [wrappedReport] = 1 ∧
      (renderText [wrappedReport]).toList.count '\n' = 5 :=
  ⟨analyze_wrappedFile, by decide, rfl, ⟨wrappedTree_liesIn, by decide +kernel⟩, by decide +kernel,
    rfl, by decide +kernel⟩

end Report

end Unqualify
