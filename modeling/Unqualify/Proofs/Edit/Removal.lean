import Unqualify.Edit
import Mathlib.Data.List.Nodup

/-!
# Removing ranges from a text

Fixes that only take text away, none of them reaching into another, are all applied, and what they
leave of a text are its bytes outside of their ranges (`Edit.apply_removals`).

The edits are made from the end of the text to its start.  What holds in between is `Edit.Done`: a
beginning of the text that ends before all fixes made so far is still there, and what follows it
are the bytes outside of their ranges.  One more fix keeps this (`Edit.Done.step`), because it
lies in such a beginning.
-/

namespace Unqualify

/-- Whether an offset lies in one of several ranges. -/
def Extent.covers (ranges : List Extent) (offset : Nat) : Bool :=
  ranges.any fun range => range.contains offset

theorem Extent.covers_cons (range : Extent) (ranges : List Extent) (offset : Nat) :
    covers (range :: ranges) offset = (range.contains offset || covers ranges offset) :=
  List.any_cons

theorem Extent.covers_eq_false_iff {ranges : List Extent} {offset : Nat} :
    covers ranges offset = false ↔ ∀ range ∈ ranges, range.contains offset = false := by
  simp [covers]

namespace Text

/-- The bytes of a text. -/
def bytes (s : String) : List UInt8 := s.toByteArray.data.toList

@[simp] theorem bytes_append (s t : String) : bytes (s ++ t) = bytes s ++ bytes t := by
  simp [bytes]

@[simp] theorem length_bytes (s : String) : (bytes s).length = s.utf8ByteSize := by
  rw [← String.size_toByteArray]
  rfl

/-- Of two beginnings of a text, the shorter is a beginning of the longer. -/
theorem exists_append_of_le {u v a c : String} (h : u ++ v = a ++ c)
    (hle : u.utf8ByteSize ≤ a.utf8ByteSize) : ∃ x, a = u ++ x ∧ v = x ++ c := by
  have hchars : u.toList ++ v.toList = a.toList ++ c.toList := by
    rw [← String.toList_append, ← String.toList_append, h]
  have hofList {s t : String} {x : List Char} (hx : s.toList = t.toList ++ x) :
      s = t ++ String.ofList x := by
    apply String.toList_inj.1
    rw [String.toList_append, String.toList_ofList, hx]
  rcases List.append_eq_append_iff.1 hchars with ⟨x, ha, hv⟩ | ⟨x, hu, hc⟩
  · refine ⟨String.ofList x, hofList ha, ?_⟩
    apply String.toList_inj.1
    rw [String.toList_append, String.toList_ofList, hv]
  · -- then both have the same size, so they are the same
    have hu' := hofList hu
    have hzero : (String.ofList x).utf8ByteSize = 0 := by
      rw [hu', String.utf8ByteSize_append] at hle
      omega
    rw [String.utf8ByteSize_eq_zero_iff.1 hzero, String.append_empty] at hu'
    refine ⟨"", by rw [hu', String.append_empty], ?_⟩
    rw [String.empty_append]
    exact (append_inj h (by rw [hu'])).2

/-- Two boundaries cut a text into three. -/
theorem exists_split {s : String} {start stop : Nat} (hle : start ≤ stop)
    (hstart : IsBoundary s start) (hstop : IsBoundary s stop) :
    ∃ u t v, s = u ++ t ++ v ∧ u.utf8ByteSize = start ∧ (u ++ t).utf8ByteSize = stop := by
  let p : s.Pos := ⟨⟨start⟩, hstart⟩
  let q : s.Pos := ⟨⟨stop⟩, hstop⟩
  refine ⟨_, _, _, (append_extract s p q hle).symm, by simp [utf8ByteSize_extract, p], ?_⟩
  simp [utf8ByteSize_extract, p, q, Nat.add_sub_cancel' hle]

/-- The bytes outside of some ranges, in their order; the first byte stands at `first`. -/
def outside (ranges : List Extent) (first : Nat) (bs : List UInt8) : List UInt8 :=
  ((bs.zipIdx first).filter fun b => !Extent.covers ranges b.2).map (·.1)

variable {ranges others : List Extent} {first : Nat} {bs cs : List UInt8}

theorem outside_append : outside ranges first (bs ++ cs) =
    outside ranges first bs ++ outside ranges (first + bs.length) cs := by
  rw [outside, List.zipIdx_append, List.filter_append, List.map_append]
  rfl

/-- Bytes that no range covers stay. -/
theorem outside_eq_self
    (h : ∀ i, first ≤ i → i < first + bs.length → Extent.covers ranges i = false) :
    outside ranges first bs = bs := by
  rw [outside, List.filter_eq_self.2, List.zipIdx_map_fst]
  intro b hb
  obtain ⟨hlo, hhi, -⟩ := List.mem_zipIdx hb
  simp [h b.2 hlo hhi]

/-- Bytes that a range covers go. -/
theorem outside_eq_nil
    (h : ∀ i, first ≤ i → i < first + bs.length → Extent.covers ranges i = true) :
    outside ranges first bs = [] := by
  rw [outside, List.filter_eq_nil_iff.2, List.map_nil]
  intro b hb
  obtain ⟨hlo, hhi, -⟩ := List.mem_zipIdx hb
  simp [h b.2 hlo hhi]

/-- Only the ranges after the first byte matter. -/
theorem outside_congr (h : ∀ i, first ≤ i → Extent.covers ranges i = Extent.covers others i) :
    outside ranges first bs = outside others first bs := by
  rw [outside, outside]
  congr 1
  refine List.filter_congr fun b hb => ?_
  obtain ⟨hlo, -, -⟩ := List.mem_zipIdx hb
  rw [h b.2 hlo]

/-- One range before all others: what stands before it stays and what it covers goes. -/
theorem outside_cons {range : Extent} {before cut after : List UInt8}
    (hstart : first + before.length = range.start) (hstop : range.start + cut.length = range.stop)
    (hlater : ∀ other ∈ ranges, range.stop ≤ other.start) :
    outside (range :: ranges) first (before ++ cut ++ after) =
      before ++ outside ranges range.stop after := by
  have hbefore : outside (range :: ranges) first before = before := by
    refine outside_eq_self fun i _ hi => Extent.covers_eq_false_iff.2 fun other hother => ?_
    have hother' : range.start ≤ other.start := by
      rcases List.mem_cons.1 hother with rfl | hother
      · exact Nat.le_refl _
      · have := hlater other hother
        omega
    simp only [Extent.contains, Bool.and_eq_false_iff, decide_eq_false_iff_not]
    omega
  have hcut : outside (range :: ranges) range.start cut = [] := by
    refine outside_eq_nil fun i hlo hhi => ?_
    rw [Extent.covers_cons, Extent.contains_iff.2 ⟨hlo, hstop ▸ hhi⟩, Bool.true_or]
  have hafter : outside (range :: ranges) range.stop after = outside ranges range.stop after := by
    refine outside_congr fun i hi => ?_
    have hnot : range.contains i = false := by
      simp only [Extent.contains, Bool.and_eq_false_iff, decide_eq_false_iff_not]
      omega
    rw [Extent.covers_cons, hnot, Bool.false_or]
  rw [outside_append, outside_append, List.length_append, ← Nat.add_assoc, hstart, hstop, hbefore,
    hcut, hafter, List.append_nil]

end Text

/-- The range that a fix replaces. -/
def Fix.range (fix : Fix) : Extent :=
  { start := fix.span.start, stop := fix.span.stop }

/-- A fix takes a part of a text away. -/
structure Fix.IsRemoval (text : String) (fix : Fix) : Prop where
  /-- It puts nothing in the place. -/
  replacement_eq : fix.replacement = ""
  /-- It does not end before it starts. -/
  ordered : fix.span.start ≤ fix.span.stop
  /-- The text can be cut where it starts. -/
  start_boundary : Text.IsBoundary text fix.span.start
  /-- The text can be cut where it ends. -/
  stop_boundary : Text.IsBoundary text fix.span.stop

namespace Edit

/-- An edit is made when it ends at the floor or before and cuts the text into three. -/
theorem step_eq {e : Edit} {fix : Fix} {u t v : String} (htext : e.text = u ++ t ++ v)
    (hstart : u.utf8ByteSize = fix.span.start) (hstop : (u ++ t).utf8ByteSize = fix.span.stop)
    (hfloor : fix.span.stop ≤ e.floor) :
    e.step fix =
      { text := u ++ fix.replacement ++ v, floor := fix.span.start, skipped := e.skipped } := by
  have hsplice : Text.splice? e.text fix.span.start fix.span.stop fix.replacement =
      some (u ++ fix.replacement ++ v) :=
    Text.splice?_eq_some_iff.2 ⟨u, t, v, htext, hstart, hstop, rfl⟩
  rw [step, if_pos hfloor, hsplice]

/-- What a text looks like when some fixes, the last ones in it, have been made. -/
structure Done (text : String) (fixes : List Fix) (e : Edit) : Prop where
  /-- None was skipped. -/
  skipped_eq : e.skipped = 0
  /-- A beginning of the text that ends before all of them is still there, and open to edits. -/
  untouched : ∀ u v, text = u ++ v → (∀ fix ∈ fixes, u.utf8ByteSize ≤ fix.span.start) →
    u.utf8ByteSize ≤ e.floor ∧ ∃ w, e.text = u ++ w ∧
      Text.bytes w = Text.outside (fixes.map Fix.range) u.utf8ByteSize (Text.bytes v)

variable {text : String} {fixes : List Fix}

theorem done_start (hsize : text.utf8ByteSize ≤ maxOffset) : Done text [] (start text) := by
  refine ⟨rfl, fun u v htext _ => ⟨?_, v, htext, ?_⟩⟩
  · rw [htext, String.utf8ByteSize_append] at hsize
    exact Nat.le_trans (Nat.le_add_right _ _) hsize
  · exact (Text.outside_eq_self fun _ _ _ => rfl).symm

/-- One more fix, further to the start. -/
theorem Done.step {e : Edit} {fix : Fix} (h : Done text fixes e) (hremoval : fix.IsRemoval text)
    (hbefore : ∀ later ∈ fixes, fix.span.stop ≤ later.span.start) :
    Done text (fix :: fixes) (e.step fix) := by
  obtain ⟨a, t, b, htext, hstart, hstop⟩ :=
    Text.exists_split hremoval.ordered hremoval.start_boundary hremoval.stop_boundary
  -- up to the end of the fix nothing has been edited yet
  obtain ⟨hfloor, w, hw, hbytes⟩ :=
    h.untouched (a ++ t) b htext fun later hlater => hstop ▸ hbefore later hlater
  rw [step_eq hw hstart hstop (hstop ▸ hfloor), hremoval.replacement_eq, String.append_empty]
  refine ⟨h.skipped_eq, fun u v hsplit hu => ?_⟩
  have hfirst : u.utf8ByteSize ≤ fix.span.start := hu fix List.mem_cons_self
  obtain ⟨x, rfl, rfl⟩ := Text.exists_append_of_le (u := u) (v := v) (a := a) (c := t ++ b)
    (by rw [← hsplit, htext, String.append_assoc]) (hstart ▸ hfirst)
  refine ⟨hfirst, x ++ w, String.append_assoc, ?_⟩
  have hcut : fix.span.start + t.utf8ByteSize = fix.span.stop := by
    rw [← hstart, ← hstop]
    exact String.utf8ByteSize_append.symm
  rw [String.utf8ByteSize_append] at hstart
  have hranges : ∀ range ∈ fixes.map Fix.range, fix.range.stop ≤ range.start := by
    intro range hrange
    obtain ⟨later, hlater, rfl⟩ := List.mem_map.1 hrange
    exact hbefore later hlater
  calc Text.bytes (x ++ w)
      = Text.bytes x ++ Text.outside (fixes.map Fix.range) fix.range.stop (Text.bytes b) := by
        rw [Text.bytes_append, hbytes, hstop]
        rfl
    _ = Text.outside ((fix :: fixes).map Fix.range) u.utf8ByteSize
          (Text.bytes x ++ Text.bytes t ++ Text.bytes b) :=
        (Text.outside_cons (by rw [Text.length_bytes]; exact hstart)
          (by rw [Text.length_bytes]; exact hcut) hranges).symm
    _ = Text.outside ((fix :: fixes).map Fix.range) u.utf8ByteSize
          (Text.bytes (x ++ (t ++ b))) := by
        rw [Text.bytes_append, Text.bytes_append, List.append_assoc]

/-- Fixes are made from the end of the text to its start. -/
theorem pairwise_order (fixes : List Fix) :
    (order fixes).Pairwise fun a b => b.span.start ≤ a.span.start := by
  have hpairwise : (order fixes).Pairwise fun a b => decide (b.span.start ≤ a.span.start) :=
    List.pairwise_mergeSort (by simp only [decide_eq_true_eq]; omega)
      (by simp only [Bool.or_eq_true, decide_eq_true_eq]; omega) fixes
  exact hpairwise.imp of_decide_eq_true

/-- Fixes that start one after the other are made in the reverse of their order. -/
theorem order_eq_reverse (h : fixes.Pairwise fun a b => a.span.start < b.span.start) :
    order fixes = fixes.reverse := by
  have hsorted := pairwise_order fixes
  have hperm : (order fixes).Perm fixes := List.mergeSort_perm _ _
  -- no two start together, so the order decides
  have hnodup : (fixes.map (·.span.start)).Nodup := List.pairwise_map.2 (h.imp Nat.ne_of_lt)
  refine List.Perm.eq_of_pairwise (fun a b ha hb hba hab => ?_) hsorted
    (List.pairwise_reverse.2 (h.imp Nat.le_of_lt)) (hperm.trans (List.reverse_perm fixes).symm)
  exact List.inj_on_of_nodup_map hnodup (hperm.mem_iff.1 ha) (List.mem_reverse.1 hb)
    (Nat.le_antisymm hab hba)

/-- **Removals that do not overlap are all made**, and leave the bytes outside of their ranges. -/
theorem apply_removals (hsize : text.utf8ByteSize ≤ maxOffset)
    (hremoval : ∀ fix ∈ fixes, fix.IsRemoval text)
    (hstarts : fixes.Pairwise fun a b => a.span.start < b.span.start)
    (hapart : fixes.Pairwise fun a b => a.span.stop ≤ b.span.start) :
    (apply text fixes).skipped = 0 ∧
      Text.bytes (apply text fixes).text =
        Text.outside (fixes.map Fix.range) 0 (Text.bytes text) := by
  have hdone : Done text fixes (apply text fixes) := by
    rw [apply, order_eq_reverse hstarts, List.foldl_reverse]
    clear hstarts
    induction fixes with
    | nil => exact done_start hsize
    | cons fix fixes ih =>
      obtain ⟨hbefore, hrest⟩ := List.pairwise_cons.1 hapart
      exact (ih (fun later hlater => hremoval later (List.mem_cons_of_mem fix hlater)) hrest).step
        (hremoval fix List.mem_cons_self) hbefore
  obtain ⟨-, w, hw, hbytes⟩ := hdone.untouched "" text (by simp) (by simp)
  rw [String.empty_append] at hw
  rw [hw]
  exact ⟨hdone.skipped_eq, hbytes⟩

end Edit

end Unqualify
