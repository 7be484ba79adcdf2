import Unqualify.Proofs.Edit.Removal
import Unqualify.Proofs.Expression.Placed
import Unqualify.Proofs.Scan.Report
import Unqualify.Proofs.SymbolTable.Build

/-!
# Findings do not overlap

The findings of one file stand apart and in the order of the text, so all offered fixes can be
made together.

* `Scanner.pairwise_findingsOf`: the findings of a placed expression tree follow one another.
  Children of one node stand apart, and below a reported access nothing is reported.
* `Scanner.filterMap_offeredFix?`: the fixes are the removals of the qualifications of the offered
  accesses.

`Scanner.findings_apart_and_fixes_applied` follows for every text and every tree placed on it.
-/

namespace Unqualify

/-- What stands in an access before its last name. -/
def Access.qualifier (form : Access) : Extent :=
  { start := form.span.start, stop := form.name.span.start }

/-- The fix that takes the qualification of an access away. -/
def Access.removal (form : Access) : Fix :=
  { span := Rule.qualifierSpan form, replacement := "" }

namespace Access.Placed

variable {text : String} {form : Access}

theorem nonempty (h : form.Placed text) : form.span.start < form.span.stop :=
  Nat.lt_of_le_of_lt h.name_within.1 (Nat.lt_of_lt_of_le h.name_nonempty h.name_within.2)

theorem stop_removal (h : form.Placed text) : form.removal.span.stop = form.name.span.start := by
  have hwithin := h.name_within
  have hnonempty := h.name_nonempty
  simp only [Access.removal, Rule.qualifierSpan, Span.stop, Span.Within] at *
  omega

theorem range_removal (h : form.Placed text) : form.removal.range = form.qualifier := by
  rw [Fix.range, h.stop_removal]
  rfl

theorem isRemoval (h : form.Placed text) : form.removal.IsRemoval text where
  replacement_eq := rfl
  ordered := by
    rw [h.stop_removal]
    exact h.name_within.1
  start_boundary := h.start_boundary
  stop_boundary := by
    rw [h.stop_removal]
    exact h.name_boundary

end Access.Placed

/-- Every node below a placed one is placed. -/
theorem Expression.Placed.of_mem_preorder {text : String} {e n : Expression} (h : e.Placed text)
    (hn : n ∈ e.preorder) : n.Placed text := by
  induction h with
  | identifier name =>
    rw [List.mem_singleton.1 hn]
    exact .identifier name
  | aliased aliasName name span =>
    rw [List.mem_singleton.1 hn]
    exact .aliased aliasName name span
  | access range inside below ih =>
    rw [preorder_access, List.mem_cons] at hn
    rcases hn with rfl | hn
    · exact .access range inside below
    · exact ih hn
  | other inside inOrder below ih =>
    rw [preorder_other, List.mem_cons] at hn
    rcases hn with rfl | hn
    · exact .other inside inOrder below
    · obtain ⟨child, hchild, hn⟩ := List.mem_flatMap.1 hn
      exact ih child hchild hn

namespace Scanner

variable {s : Scanner} {oracle : Oracle} {m : Model} {text : String} {e : Expression}

/-! ### Where the findings stand -/

theorem within_of_mem_findingsOf (h : e.Placed text) {f : Finding}
    (hf : f ∈ s.findingsOf oracle e) : f.span.Within e.span ∧ f.span.start < f.span.stop := by
  induction h with
  | identifier name => cases hf
  | aliased aliasName name span => cases hf
  | @access left form range inside below ih =>
    rw [findingsOf_access, List.mem_append] at hf
    rcases hf with hf | hf
    · have hreport : s.report oracle form (oracle.resolve (.access left form)) = some f :=
        Option.mem_toList.1 hf
      obtain ⟨-, -, rfl⟩ := report_eq_some_iff.1 hreport
      exact ⟨⟨Nat.le_refl _, Nat.le_refl _⟩, range.nonempty⟩
    · exact ⟨(ih hf).1.trans inside, (ih hf).2⟩
  | other inside inOrder below ih =>
    rw [findingsOf_other] at hf
    obtain ⟨child, hchild, hf⟩ := List.mem_flatMap.1 hf
    exact ⟨(ih child hchild hf).1.trans (inside child hchild), (ih child hchild hf).2⟩

/-- **Findings stand apart, in the order of the text.** -/
theorem pairwise_findingsOf (hwf : m.table.WellFormed) (h : e.Placed text) :
    (s.findingsOf m.oracle e).Pairwise fun f g => f.span.stop ≤ g.span.start := by
  induction h with
  | identifier name => exact .nil
  | aliased aliasName name span => exact .nil
  | @access left form range inside below ih =>
    rw [findingsOf_access]
    cases hscan : s.scan m.oracle (.access left form) with
    | none => exact ih
    | some f =>
      rw [findingsOf_left hwf hscan]
      exact List.pairwise_singleton _ f
  | @other children span inside inOrder below ih =>
    rw [findingsOf_other, List.pairwise_flatMap]
    refine ⟨ih, inOrder.imp_of_mem fun {a b} ha hb hab f hf g hg => ?_⟩
    -- what is found in a child lies inside of it
    have hfa := (within_of_mem_findingsOf (below a ha) hf).1.2
    have hgb := (within_of_mem_findingsOf (below b hb) hg).1.1
    exact Nat.le_trans hfa (Nat.le_trans hab hgb)

/-! ### The fixes on offer -/

/-- The written form of an access that a scan offers to shorten. -/
def offeredForm? (s : Scanner) (oracle : Oracle) : Expression → Option Access
  | .access left form => if s.offers oracle (.access left form) then some form else none
  | _ => none

/-- The accesses that a scan offers to shorten, in document order. -/
def offered (s : Scanner) (oracle : Oracle) (root : Expression) : List Access :=
  root.preorder.filterMap (s.offeredForm? oracle)

theorem scan_bind_offeredFix? (n : Expression) :
    (s.scan oracle n).bind Finding.offeredFix? = (s.offeredForm? oracle n).map Access.removal := by
  cases n with
  | identifier name => rfl
  | aliased aliasName name span => rfl
  | other children span => rfl
  | access left form =>
    rw [offeredForm?]
    cases hoffer : (s.scan oracle (.access left form)).bind Finding.offeredFix? with
    | none => simp [offers, hoffer]
    | some fix =>
      obtain ⟨f, hscan, hfix⟩ := Option.bind_eq_some_iff.1 hoffer
      obtain ⟨-, hsuggest⟩ := (offeredFix?_eq_some_iff hscan).1 hfix
      obtain ⟨-, rfl⟩ := suggestFix_eq_ok_iff.1 hsuggest
      simp [offers, hoffer, Access.removal]

/-- The fixes that the findings offer remove the qualifications of the offered accesses. -/
theorem filterMap_offeredFix? :
    (s.findingsOf oracle e).filterMap Finding.offeredFix? =
      (s.offered oracle e).map Access.removal := by
  rw [findingsOf, offered, List.filterMap_filterMap, List.map_filterMap]
  exact congrArg (List.filterMap · e.preorder) (funext scan_bind_offeredFix?)

theorem exists_of_mem_offered {form : Access} (h : form ∈ s.offered oracle e) :
    ∃ left, .access left form ∈ e.preorder ∧ s.offers oracle (.access left form) = true := by
  obtain ⟨n, hn, hoffer⟩ := List.mem_filterMap.1 h
  cases n with
  | identifier name => cases hoffer
  | aliased aliasName name span => cases hoffer
  | other children span => cases hoffer
  | access left form' =>
    rw [offeredForm?] at hoffer
    split at hoffer
    · next hoffers =>
      cases hoffer
      exact ⟨left, hn, hoffers⟩
    · cases hoffer

theorem placed_of_mem_offered (h : e.Placed text) {form : Access}
    (hform : form ∈ s.offered oracle e) : form.Placed text := by
  obtain ⟨left, hmem, -⟩ := exists_of_mem_offered hform
  cases h.of_mem_preorder hmem with
  | access range inside below => exact range

/-- A fix starts with its finding and does not reach beyond it. -/
theorem span_of_offeredFix? (h : e.Placed text) {f : Finding} {fix : Fix}
    (hf : f ∈ s.findingsOf oracle e) (hfix : f.offeredFix? = some fix) :
    fix.span.start = f.span.start ∧ fix.span.stop ≤ f.span.stop := by
  obtain ⟨n, hn, hscan⟩ := List.mem_filterMap.1 hf
  obtain ⟨left, form, rfl, hspan, -⟩ := exists_access_of_scan hscan
  obtain ⟨-, hsuggest⟩ := (offeredFix?_eq_some_iff hscan).1 hfix
  obtain ⟨-, rfl⟩ := suggestFix_eq_ok_iff.1 hsuggest
  cases h.of_mem_preorder hn with
  | access range inside below =>
    refine ⟨by rw [hspan]; rfl, ?_⟩
    have hstop : (Rule.qualifierSpan form).stop = form.name.span.start := range.stop_removal
    have hname := range.name_nonempty
    have hwithin := range.name_within.2
    rw [hspan, hstop]
    omega

/-- Fixes stand apart as their findings do. -/
theorem pairwise_offeredFix? (hwf : m.table.WellFormed) (h : e.Placed text) :
    ((s.findingsOf m.oracle e).filterMap Finding.offeredFix?).Pairwise
      fun a b => a.span.start < b.span.start ∧ a.span.stop ≤ b.span.start := by
  rw [List.pairwise_filterMap]
  refine (pairwise_findingsOf hwf h).imp_of_mem fun {f g} hf hg hfg a ha b hb => ?_
  obtain ⟨hastart, hastop⟩ := span_of_offeredFix? h hf ha
  obtain ⟨hbstart, -⟩ := span_of_offeredFix? h hg hb
  have hnonempty := (within_of_mem_findingsOf h hf).2
  omega

/-- **Findings never overlap and every offered fix is applied.**  For every text and every syntax
tree placed on it, every table that can be built and every outline: the findings of a scan start
one after the other and each ends before the next one starts; applying their fixes skips none; and
what is left are the bytes of the text outside of the qualifications of the offered accesses, in
their order.  Offsets are 64-bit numbers, so a text has no more bytes than that. -/
theorem findings_apart_and_fixes_applied (updates : List SymbolTable.Update) (outline : Outline)
    (s : Scanner) (text : String) (tree : Tree) (hsize : text.utf8ByteSize ≤ maxOffset)
    (hplaced : tree.Placed text) :
    let m : Model := { table := SymbolTable.build updates, outline }
    let root := Expression.ofFile (Source.ofText text) tree
    let findings := (s.scanTree m.oracle .never root).findings
    let edit := Edit.apply text (findings.filterMap Finding.offeredFix?)
    findings.Pairwise (fun f g => f.span.start < g.span.start ∧ f.span.stop ≤ g.span.start) ∧
      edit.skipped = 0 ∧
      Text.bytes edit.text =
        Text.outside ((s.offered m.oracle root).map Access.qualifier) 0 (Text.bytes text) := by
  intro m root findings edit
  have hwf : m.table.WellFormed := (SymbolTable.reachable_build updates).wellFormed
  have hroot : root.Placed text :=
    @Expression.placed_ofFile (Source.ofText text) hsize tree hplaced
  have hfindings : findings = s.findingsOf m.oracle root := findings_scanTree_never ..
  have hfixes : findings.filterMap Finding.offeredFix? =
      (s.offered m.oracle root).map Access.removal := by
    rw [hfindings, filterMap_offeredFix?]
  have hapart := pairwise_offeredFix? (s := s) hwf hroot
  rw [← hfindings] at hapart
  have hremoval : ∀ fix ∈ findings.filterMap Finding.offeredFix?, fix.IsRemoval text := by
    intro fix hfix
    rw [hfixes] at hfix
    obtain ⟨form, hform, rfl⟩ := List.mem_map.1 hfix
    exact (placed_of_mem_offered hroot hform).isRemoval
  obtain ⟨hskipped, hbytes⟩ := Edit.apply_removals hsize hremoval
    (hapart.imp fun h => h.1) (hapart.imp fun h => h.2)
  refine ⟨?_, hskipped, ?_⟩
  · rw [hfindings]
    refine (pairwise_findingsOf hwf hroot).imp_of_mem fun {f g} hf _ hfg => ⟨?_, hfg⟩
    exact Nat.lt_of_lt_of_le (within_of_mem_findingsOf hroot hf).2 hfg
  · have hranges : ((s.offered m.oracle root).map Access.removal).map Fix.range =
        (s.offered m.oracle root).map Access.qualifier := by
      rw [List.map_map]
      exact List.map_congr_left fun form hform =>
        (placed_of_mem_offered hroot hform).range_removal
    rw [hbytes, hfixes, hranges]

/-- The syntax tree of `A.É(A.C)`. -/
def callTree : Tree :=
  let node (kind field : String) (start stop : Nat) (children : List Tree) : Tree :=
    .node { kind, field, named := true, start, stop } children
  node "compilation_unit" "" 0 9
    [node "invocation_expression" "" 0 9
      [node "member_access_expression" "function" 0 4
        [node "identifier" "expression" 0 1 [], node "identifier" "name" 2 4 []],
       node "argument_list" "arguments" 4 9
        [node "member_access_expression" "" 5 8
          [node "identifier" "expression" 5 6 [], node "identifier" "name" 7 8 []]]]]

/-- Both accesses of `A.É(A.C)` name a type, but `C` would be ambiguous: of two findings that
stand apart one offers a fix, and it removes the first two bytes. -/
theorem call_findings_apart_and_fixes_applied :
    let text := "A.É(A.C)"
    let updates := [.library "A.É", .library "A.C", .library "D.C"]
    let outline : Outline := { usings := [.types "A", .types "D"] }
    let m : Model := { table := SymbolTable.build updates, outline }
    let s : Scanner := { offerFixes := true }
    let root := Expression.ofFile (Source.ofText text) callTree
    let findings := (s.scanTree m.oracle .never root).findings
    let edit := Edit.apply text (findings.filterMap Finding.offeredFix?)
    text.utf8ByteSize ≤ maxOffset ∧ callTree.Placed text ∧ findings.length = 2 ∧
      findings.Pairwise (fun f g => f.span.start < g.span.start ∧ f.span.stop ≤ g.span.start) ∧
      edit.skipped = 0 ∧
      Text.bytes edit.text = Text.outside [{ start := 0, stop := 2 }] 0 (Text.bytes text) := by
  intro text updates outline m s root findings edit
  have hsize : text.utf8ByteSize ≤ maxOffset := by decide +kernel
  have hplaced : callTree.Placed text := by decide +kernel
  have htwo : findings.length = 2 := by
    rw [show findings = s.findingsOf m.oracle root from findings_scanTree_never ..]
    decide +kernel
  have hoffered : (s.offered m.oracle root).map Access.qualifier = [{ start := 0, stop := 2 }] := by
    decide +kernel
  obtain ⟨hapart, hskipped, hbytes⟩ :=
    findings_apart_and_fixes_applied updates outline s text callTree hsize hplaced
  exact ⟨hsize, hplaced, htwo, hapart, hskipped, hoffered ▸ hbytes⟩

end Scanner

end Unqualify
