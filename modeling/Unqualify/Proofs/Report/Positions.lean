import Unqualify.Report.Text
import Unqualify.Proofs.Analysis.Findings
import Unqualify.Proofs.Text.Lines

/-!
# Positions in reports

A report gives the place of a finding as a line and a column, which are counted on the text, and
prints a source line below it, which is cut out of the text by its number.  Both are about the same
place (`Report.Located`): the line holds the start of the finding, the column leads to it, and from
there on the line reads as the finding does.

Lines and columns are 32-bit numbers and stop at the greatest one.  A file that can be scanned is
too small for that.
-/

namespace Unqualify

/-- Lines, each with the newline that ends it. -/
def Text.unlines (lines : List String) : String := String.join (lines.map (· ++ "\n"))

namespace Report

/-- What a report says about the place of a finding, and the source line it shows, agree with the
offset of the finding. -/
structure Located (text : String) (f : Finding) (shown : String) : Prop where
  /-- The number of the line is not cut off. -/
  line_lt : f.span.line < maxLine
  /-- The number of the column is not cut off. -/
  column_lt : f.span.column < maxLine
  /-- The line shown is the one in which the finding starts.  Its number counts the newlines above
  it, and the column leads from its start to the start of the finding. -/
  place : ∃ above ending below, Text.LineAt text f.span.start above shown ending below ∧
    f.span.line = above.toList.count '\n' + 1 ∧
    above.utf8ByteSize + f.span.column = f.span.start + 1
  /-- From the column on, the line shown reads as the finding does up to its first line break. -/
  argument_prefix : f.argument.toList.getLast? ≠ some '\r' →
    Text.bytes (Text.firstLine f.argument) <+: (Text.bytes shown).drop (f.span.column - 1)

/-- The source line that a report shows for a finding. -/
def shownLine (r : Report) (f : Finding) : String := ((Text.lines r.text)[f.span.line - 1]?).getD ""

/-- A finding about an access is located where the access is cut out of the text. -/
theorem located_of_cut {r : Report} {f : Finding} {form : Access}
    {before qualifier rest after : String}
    (hcut : Access.Cut r.text form before qualifier rest after)
    (hsize : r.text.utf8ByteSize ≤ Analysis.maxFileSize) (hspan : f.span = form.span)
    (hargument : f.argument = form.text) :
    (Text.lines r.text)[f.span.line - 1]? = some (r.shownLine f) ∧
      Located r.text f (r.shownLine f) := by
  have hnonempty : qualifier ++ rest ≠ "" :=
    fun h => hcut.nonempty (String.append_eq_empty_iff.1 h).2
  obtain ⟨above, line, ending, below, hat, hline, column, hcolumn, hposition, hprefix⟩ :=
    Text.exists_line hcut.text_eq hnonempty
  have hstart : f.span.start = before.utf8ByteSize := by rw [hspan, hcut.start_eq]
  rw [← hstart] at hat hcolumn hposition
  -- there are no more lines, and no more columns in one, than bytes in the text
  have hlimit : Analysis.maxFileSize + 1 < maxLine := by decide
  have hinside : f.span.start ≤ r.text.utf8ByteSize := by
    rw [hstart, hcut.text_eq]
    simp only [String.utf8ByteSize_append]
    omega
  have hcount : above.toList.count '\n' ≤ above.utf8ByteSize := by
    rw [← Text.size_toList]
    exact Nat.le_trans List.count_le_length (Text.length_le_size _)
  have hnumber : f.span.line = above.toList.count '\n' + 1 := by
    rw [hspan, hcut.line_eq, ← hspan, hposition]
    exact Nat.min_eq_left (by simp only; omega)
  have hplace : f.span.column = column + 1 := by
    rw [hspan, hcut.column_eq, ← hspan, hposition]
    exact Nat.min_eq_left (by simp only; omega)
  have hshown : (Text.lines r.text)[f.span.line - 1]? = some line := by
    rw [hnumber, Nat.add_sub_cancel]
    exact hline
  have hshownLine : r.shownLine f = line := by rw [shownLine, hshown, Option.getD_some]
  rw [hshownLine]
  refine ⟨hshown, by omega, by omega, ⟨above, ending, below, hat, hnumber, by omega⟩, ?_⟩
  rw [hargument, hcut.own_eq, hplace, Nat.add_sub_cancel]
  exact hprefix

/-- A position tells where a finding starts. -/
theorem Located.start_eq {text shown shown' : String} {f g : Finding} (hf : Located text f shown)
    (hg : Located text g shown') (hline : f.span.line = g.span.line)
    (hcolumn : f.span.column = g.span.column) : f.span.start = g.span.start := by
  obtain ⟨above, ending, below, hat, hcount, hstart⟩ := hf.place
  obtain ⟨above', ending', below', hat', hcount', hstart'⟩ := hg.place
  obtain rfl := hat.above_eq hat' (by omega)
  omega

theorem findings_located {parse : Parser} {files : List SourceFile} {config : Config}
    {offerFixes : Bool} {signal : Nat → Signal} {reports : List Report}
    (h : Analysis.analyze parse files config offerFixes signal = .ok reports) {r : Report}
    (hr : r ∈ reports) (htree : ∀ tree, parse r.text = some tree → tree.LiesIn r.text) :
    ∀ f ∈ r.findings, (Text.lines r.text)[f.span.line - 1]? = some (r.shownLine f) ∧
      Located r.text f (r.shownLine f) := by
  intro f hf
  obtain ⟨file, hfile, tree, hparse, -, htext, haccess⟩ :=
    Analysis.exists_access_of_analyze h r hr
  obtain ⟨left, form, hmem, hreport⟩ := haccess f hf
  obtain ⟨-, -, rfl⟩ := Scanner.report_eq_some_iff.1 hreport
  have hsize : r.text.utf8ByteSize ≤ Analysis.maxFileSize := by
    rw [htext]
    exact (Analysis.usable_of_analyze h).1 file hfile
  rw [← htext] at hparse hmem
  obtain ⟨before, qualifier, rest, after, hcut⟩ := Access.exists_cut (htree tree hparse) hmem
  exact located_of_cut hcut hsize rfl rfl

theorem outputLines_eq_flatMap (r : Report) :
    r.outputLines = r.findings.flatMap (r.findingLines (Text.lines r.text)) := by
  rw [outputLines]
  split
  · next hnil => rw [hnil, List.flatMap_nil]
  · rfl

theorem outputLines_eq {r : Report} (h : ∀ f ∈ r.findings,
      (Text.lines r.text)[f.span.line - 1]? = some (r.shownLine f)) :
    r.outputLines = r.findings.flatMap fun f =>
      headerLine r.path f :: ("    " ++ r.shownLine f) :: fixLine r.text f := by
  rw [outputLines_eq_flatMap]
  refine List.flatMap_congr fun f hf => ?_
  rw [findingLines, sourceLine, h f hf]
  rfl

/-- **Positions, printed lines and offsets agree.**  A report says of a finding on which line and at
which column it starts, and shows the line, as they are in the text. -/
theorem printed_places_agree {parse : Parser} {files : List SourceFile} {config : Config}
    {offerFixes : Bool} {signal : Nat → Signal} {reports : List Report}
    (h : Analysis.analyze parse files config offerFixes signal = .ok reports) :
    renderText reports = Text.unlines (reports.flatMap outputLines) ∧
      ∀ r ∈ reports, (∀ tree, parse r.text = some tree → tree.LiesIn r.text) →
        (r.outputLines = r.findings.flatMap fun f =>
          headerLine r.path f :: ("    " ++ r.shownLine f) :: fixLine r.text f) ∧
        (∀ f ∈ r.findings, Located r.text f (r.shownLine f)) ∧
        ∀ f ∈ r.findings, ∀ g ∈ r.findings, f.span.start ≠ g.span.start →
          (f.span.line, f.span.column) ≠ (g.span.line, g.span.column) := by
  refine ⟨rfl, fun r hr htree => ?_⟩
  have hlocated := findings_located h hr htree
  refine ⟨outputLines_eq fun f hf => (hlocated f hf).1, fun f hf => (hlocated f hf).2, ?_⟩
  intro f hf g hg hne heq
  rw [Prod.mk.injEq] at heq
  exact hne ((hlocated f hf).2.start_eq (hlocated g hg).2 heq.1 heq.2)

/-- A file in which `A.B` is written over two lines, with carriage returns and behind a name of two
bytes. -/
def wrappedFile : SourceFile := { path := "a.cs", text := "using A;\r\nint é=A\r\n .B.C;" }

/-- Its syntax tree. -/
def wrappedTree : Tree :=
  let node (kind field : String) (start stop : Nat) (children : List Tree) : Tree :=
    .node { kind, field, named := true, start, stop } children
  node "compilation_unit" "" 0 26
    [node "using_directive" "" 0 8 [node "identifier" "" 6 7 []],
     node "global_statement" "" 10 26
      [node "local_declaration_statement" "" 10 26
        [node "variable_declaration" "" 10 25
          [node "predefined_type" "type" 10 13 [],
           node "variable_declarator" "" 14 25
            [node "identifier" "name" 14 16 [],
             node "member_access_expression" "" 17 25
              [node "member_access_expression" "expression" 17 23
                [node "identifier" "expression" 17 18 [], node "identifier" "name" 22 23 []],
               node "identifier" "name" 24 25 []]]]]]]

/-- A parser that knows the file. -/
def wrappedParser : Parser := fun text => if text = wrappedFile.text then some wrappedTree else none

/-- The finding on the access. -/
def wrappedFinding : Finding :=
  { argument := "A\r\n .B"
    fix := .offered { replacement := "", span := { start := 17, len := 5, line := 2, column := 8 } }
    message := "Type name 'A\r\n .B' is unnecessarily qualified"
    ruleId := "WI01001"
    severity := .warning
    span := { start := 17, len := 6, line := 2, column := 8 } }

/-- The report on the file. -/
def wrappedReport : Report :=
  { path := "a.cs", text := wrappedFile.text, findings := [wrappedFinding] }

theorem analyze_wrappedFile :
    Analysis.analyze wrappedParser [wrappedFile] { libraryTypes := ["A.B"] } true
      (fun _ => .never) = .ok [wrappedReport] := by
  have hparse : ∀ file ∈ [wrappedFile],
      Analysis.treeOf wrappedParser file = .ok wrappedTree := by
    intro file hfile
    rw [List.mem_singleton.1 hfile]
    rfl
  rw [Analysis.analyze_eq hparse, Analysis.sortReports, List.map_singleton,
    List.mergeSort_singleton]
  decide +kernel

theorem wrappedTree_liesIn : wrappedTree.LiesIn wrappedFile.text := by
  have hplaced : wrappedTree.Placed wrappedFile.text := by decide +kernel
  exact hplaced.liesIn

/-- The access over two lines is placed at its byte offset, and its first line is shown. -/
theorem wrapped_access_place_printed :
    (∀ tree, wrappedParser wrappedReport.text = some tree → tree.LiesIn wrappedReport.text) ∧
      wrappedReport.outputLines =
        ["a.cs:2:8: warning[WI01001]: Type name 'A\r\n .B' is unnecessarily qualified",
          "    int é=A", "    fix: remove `A\r\n .`"] ∧
      Located wrappedFile.text wrappedFinding "int é=A" := by
  have htree : ∀ tree, wrappedParser wrappedReport.text = some tree →
      tree.LiesIn wrappedReport.text := by
    intro tree h
    obtain rfl : wrappedTree = tree := Option.some.inj h
    exact wrappedTree_liesIn
  obtain ⟨-, hreports⟩ := printed_places_agree analyze_wrappedFile
  obtain ⟨hlines, hlocated, -⟩ := hreports wrappedReport List.mem_cons_self htree
  have hshown : wrappedReport.shownLine wrappedFinding = "int é=A" := by decide +kernel
  refine ⟨htree, ?_, ?_⟩
  · rw [hlines]
    decide +kernel
  · rw [← hshown]
    exact hlocated wrappedFinding List.mem_cons_self

end Report

end Unqualify
