import Unqualify.Proofs.Analysis.Reports
import Unqualify.Proofs.Edit.Removal
import Unqualify.Proofs.Expression.Origin
import Unqualify.Proofs.Scan.Report

/-!
# Findings and the text that they are about

A finding of a run is about an access of one of its files (`Analysis.exists_access_of_analyze`), and
an access comes from a node of the syntax tree of the file.  When the ranges of the tree lie in the
text, one inside the other (`Tree.LiesIn`), the text is cut by the access into what stands before
it, its qualifier, the rest with its last name, and what stands after it
(`Access.exists_cut`).  Nothing is asked of the order of siblings.
-/

namespace Unqualify

/-! ### Ranges in a text -/

/-- The ranges of a tree lie in a text, and every node holds its children. -/
inductive Tree.LiesIn (text : String) : Tree → Prop
  /-- A node with a range in the text whose children lie inside it. -/
  | node {label : Label} {children : List Tree} (range : label.Placed text)
    (inside : ∀ t ∈ children, t.label.extent.Within label.extent)
    (below : ∀ t ∈ children, t.LiesIn text) : Tree.LiesIn text (.node label children)

namespace Tree

variable {text : String} {tree t u : Tree}

theorem Placed.liesIn (h : tree.Placed text) : tree.LiesIn text := by
  induction h with
  | node range inside inOrder below ih => exact .node range inside ih

theorem LiesIn.range (h : tree.LiesIn text) : tree.label.Placed text := by
  cases h with
  | node range inside below => exact range

theorem LiesIn.child (h : tree.LiesIn text) (ht : t ∈ tree.children) :
    t.LiesIn text ∧ t.label.extent.Within tree.label.extent := by
  cases h with
  | node range inside below => exact ⟨below t ht, inside t ht⟩

theorem LiesIn.of_mem_places (h : tree.LiesIn text) {a : Address} (ht : (a, t) ∈ tree.places) :
    t.LiesIn text := by
  induction a generalizing tree with
  | nil =>
    rw [nil_mem_places.1 ht]
    exact h
  | cons i a ih =>
    obtain ⟨child, hchild, hbelow⟩ := cons_mem_places.1 ht
    exact ih (h.child (List.mem_of_getElem? hchild)).1 hbelow

end Tree

/-! ### Accesses in a text -/

theorem Text.slice_append (u t v : String) :
    slice (u ++ t ++ v) u.utf8ByteSize (u ++ t).utf8ByteSize = t := by
  rw [slice, slice?_eq_some_iff.2 ⟨u, v, rfl, rfl, rfl⟩, Option.getD_some]

/-- What a part of a range covers is part of what the range covers. -/
theorem Text.slice_subset {text : String} {inner outer : Label} (hinner : inner.Placed text)
    (houter : outer.Placed text) (hlt : inner.start < inner.stop)
    (hwithin : inner.extent.Within outer.extent) :
    (slice text inner.start inner.stop).toList ⊆ (slice text outer.start outer.stop).toList := by
  obtain ⟨hstart, hstop⟩ := hwithin
  simp only [Label.extent] at hstart hstop
  obtain ⟨before, part, after, htext, hbefore, hpart⟩ :=
    exists_split (Nat.le_of_lt hlt) hinner.start_boundary hinner.stop_boundary
  obtain ⟨u, whole, v, htext', hu, hwhole⟩ :=
    exists_split (show outer.start ≤ outer.stop by omega) houter.start_boundary houter.stop_boundary
  -- the range starts before the part and ends behind it
  obtain ⟨x, rfl, hfront⟩ : ∃ x, before = u ++ x ∧ whole ++ v = x ++ (part ++ after) :=
    exists_append_of_le (by rw [← String.append_assoc, ← htext', htext, String.append_assoc])
      (by omega)
  obtain ⟨y, hy, -⟩ : ∃ y, whole = x ++ part ++ y ∧ after = y ++ v :=
    exists_append_of_le (by rw [hfront, String.append_assoc]) (by
      simp only [String.utf8ByteSize_append] at *
      omega)
  have hslice : slice text inner.start inner.stop = part := by
    rw [← hbefore, ← hpart, htext]
    exact slice_append _ _ _
  have hslice' : slice text outer.start outer.stop = whole := by
    rw [← hu, ← hwhole, htext']
    exact slice_append _ _ _
  rw [hslice, hslice', hy]
  intro c hc
  simp [hc]

/-- A name is read from a range that is not empty. -/
theorem Expression.ReadFrom.lt {src : Source} {u : Tree} {name : SimpleName}
    (h : ReadFrom src u name) (hu : u.LiesIn src.text) :
    name.span = src.spanOf u.label ∧ u.label.start < u.label.stop := by
  cases h with
  | identifier kind nonempty => exact ⟨rfl, Text.lt_of_slice_ne_empty nonempty⟩
  | generic kind mem identifierKind nonempty apart =>
    refine ⟨rfl, ?_⟩
    obtain ⟨hstart, hstop⟩ := (hu.child mem).2
    have hlt := Text.lt_of_slice_ne_empty nonempty
    simp only [Label.extent] at hstart hstop
    omega

/-- The identifier of a name is part of what the node covers. -/
theorem Expression.ReadFrom.identifier_subset {src : Source} {u : Tree} {name : SimpleName}
    (h : ReadFrom src u name) (hu : u.LiesIn src.text) :
    name.identifier.toList ⊆ (src.covered u.label).toList := by
  cases h with
  | identifier kind nonempty => exact List.Subset.refl _
  | generic kind mem identifierKind nonempty apart =>
    obtain ⟨hchild, hwithin⟩ := hu.child mem
    exact Text.slice_subset hchild.range hu.range (Text.lt_of_slice_ne_empty nonempty) hwithin

namespace Access

/-- Where an access is cut out of a text, and its qualifier out of it. -/
structure Cut (text : String) (form : Access) (before qualifier rest after : String) : Prop where
  /-- The access is a part of the text. -/
  text_eq : text = before ++ (qualifier ++ rest) ++ after
  /-- Its own text is this part. -/
  own_eq : form.text = qualifier ++ rest
  /-- More than the qualifier is there. -/
  nonempty : rest ≠ ""
  /-- The last name is written in it. -/
  identifier_subset : form.name.identifier.toList ⊆ form.text.toList
  /-- It starts behind what stands before it. -/
  start_eq : form.span.start = before.utf8ByteSize
  /-- Its last name starts behind the qualifier. -/
  name_eq : form.name.span.start = (before ++ qualifier).utf8ByteSize
  /-- Its line is that of its start, as far as lines are counted. -/
  line_eq : form.span.line =
    min (Text.positionIn (Text.lineStarts text) form.span.start).line maxLine
  /-- Its column is that of its start, as far as columns are counted. -/
  column_eq : form.span.column =
    min (Text.positionIn (Text.lineStarts text) form.span.start).column maxLine

/-- **An access of a file is cut out of its text.** -/
theorem exists_cut {text : String} {tree : Tree} (htree : tree.LiesIn text) {left : Expression}
    {form : Access}
    (h : .access left form ∈ (Expression.ofFile (Source.ofText text) tree).preorder) :
    ∃ before qualifier rest after, Cut text form before qualifier rest after := by
  rw [← Expression.map_snd_places] at h
  obtain ⟨⟨a, e⟩, hplace, rfl⟩ := List.mem_map.1 h
  obtain ⟨t, ht, -, hspan, hown, u, hu, hname⟩ :=
    Site.exists_mirrored (.ofFile tree) hplace
  have hlies : t.LiesIn text := htree.of_mem_places ht
  obtain ⟨hliesName, hstart, hstop⟩ := hlies.child hu
  obtain ⟨hnameSpan, hlt⟩ := hname.lt hliesName
  simp only [Label.extent] at hstart hstop
  -- the text is cut where the access starts, where the name starts and where the access ends
  obtain ⟨before, qualifier, v, htext, hbefore, hqualifier⟩ :=
    Text.exists_split hstart hlies.range.start_boundary hliesName.range.start_boundary
  obtain ⟨front, rest, after, htext', hfront, hrest⟩ :=
    Text.exists_split (show u.label.start ≤ t.label.stop by omega) hliesName.range.start_boundary
      hlies.range.stop_boundary
  obtain ⟨rfl, rfl⟩ := Text.append_inj
    (by rw [← htext, htext', String.append_assoc]) (hqualifier.trans hfront.symm)
  have hwhole : text = before ++ (qualifier ++ rest) ++ after := by
    rw [htext]
    simp only [String.append_assoc]
  refine ⟨before, qualifier, rest, after, hwhole, ?_, ?_, ?_, ?_, ?_, by rw [hspan]; rfl,
    by rw [hspan]; rfl⟩
  · rw [hown]
    change Text.slice text t.label.start t.label.stop = _
    have hstop : (before ++ qualifier ++ rest).utf8ByteSize =
        (before ++ (qualifier ++ rest)).utf8ByteSize := by
      rw [String.append_assoc]
    rw [← hbefore, ← hrest, hstop, hwhole]
    exact Text.slice_append before (qualifier ++ rest) after
  · rintro rfl
    rw [String.append_empty] at hrest
    omega
  · rw [hown]
    refine List.Subset.trans (hname.identifier_subset hliesName) ?_
    exact Text.slice_subset hliesName.range hlies.range hlt ⟨hstart, hstop⟩
  · rw [hspan, hbefore]
    rfl
  · rw [hnameSpan, hqualifier]
    rfl

end Access

/-! ### Findings of a run -/

namespace Analysis

/-- The table of a run: what its library types and its files declare. -/
def runTable (parse : Parser) (files : List SourceFile) (config : Config) : SymbolTable :=
  SymbolTable.build (program config.libraryTypes (fun file => treeOfText parse file.text) files)

theorem tableOf_eq_runTable {parse : Parser} {files : List SourceFile} {config : Config}
    {prepared : List Prepared} {t : SymbolTable}
    (hprepared : files.mapM (prepare parse) = .ok prepared)
    (ht : tableOf config.libraryTypes prepared = .ok t) : t = runTable parse files config := by
  rw [mapM_prepare fun file hfile => (treeOf_eq_of_mapM_prepare hprepared file hfile).2]
    at hprepared
  cases hprepared
  rw [tableOf_prepared] at ht
  cases hfold : config.libraryTypes.foldlM addLibraryEntry SymbolTable.empty with
  | error e =>
    rw [hfold] at ht
    cases ht
  | ok t' =>
    rw [hfold] at ht
    cases ht
    rfl

/-- **A finding is about an access of a file.** -/
theorem exists_access_of_analyze {parse : Parser} {files : List SourceFile} {config : Config}
    {offerFixes : Bool} {signal : Nat → Signal} {reports : List Report}
    (h : analyze parse files config offerFixes signal = .ok reports) :
    ∀ r ∈ reports, ∃ file ∈ files, ∃ tree, parse file.text = some tree ∧
      r.path = file.path ∧ r.text = file.text ∧
      ∀ f ∈ r.findings, ∃ left form,
        .access left form ∈ (Expression.ofFile (Source.ofText file.text) tree).preorder ∧
        let oracle := oracleOf (runTable parse files config)
          (Outline.ofFile (Source.ofText file.text) tree)
        Scanner.report { offerFixes } oracle form (oracle.resolve (.access left form)) =
          some f := by
  intro r hr
  obtain ⟨prepared, t, hprepared, ht⟩ := exists_of_analyze h
  obtain rfl := tableOf_eq_runTable hprepared ht
  rw [analyze_eq_bind, hprepared, Except.bind, ht] at h
  cases h
  rw [mem_sortReports] at hr
  obtain ⟨⟨p, i⟩, hp, rfl⟩ := List.mem_map.1 hr
  have hmem : p ∈ prepared := List.mem_of_getElem? (List.mem_zipIdx_iff_getElem?.1 hp)
  obtain ⟨file, hfile, hprepare⟩ := exists_of_mem_of_mapM hprepared hmem
  cases htree : treeOf parse file with
  | error e =>
    rw [prepare, htree] at hprepare
    cases hprepare
  | ok tree =>
    rw [prepare, htree] at hprepare
    cases hprepare
    refine ⟨file, hfile, tree, (parse_eq_of_treeOf htree).2, path_reportAt .., ?_, ?_⟩
    · rw [reportAt]
      split <;> rfl
    · intro f hf
      rw [reportAt] at hf
      split at hf
      · have hwhole := (Scanner.findings_scanTree_prefix _ _ _ _).subset hf
        obtain ⟨e, he, hscan⟩ := List.mem_filterMap.1 hwhole
        obtain ⟨left, form, rfl, -⟩ := Scanner.exists_access_of_scan hscan
        exact ⟨left, form, he, hscan⟩
      · cases hf

end Analysis

end Unqualify
