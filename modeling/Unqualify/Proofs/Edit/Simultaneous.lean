import Unqualify.Proofs.Edit.Removal

/-!
# Fixes made at the same time

`Edit.apply` makes one fix after the other, and each is tested and made on the text that the ones
before it have left.  Nothing of this shows in the result (`Edit.apply_eq_replaceAll`): which fixes
are made can be told from the text as it was (`Edit.accepted`), and together they replace their
ranges of that text at the same time (`Edit.replaceAll`).

The reason is that a run only ever looks at a beginning of the text that it has not touched.  While
it goes on, that beginning is there as it was, and all that follows is the rest of the text with
the fixes made so far (`Edit.Midway`).  A fix that can still be made lies in the beginning, where
the two texts have the same characters, its end included (`Fix.fits_append_iff`).
-/

namespace Unqualify

namespace Text

/-- A beginning of a text has the boundaries of the text up to where it ends. -/
theorem isBoundary_append_iff {u v : String} {n : Nat} (h : n ≤ u.utf8ByteSize) :
    IsBoundary (u ++ v) n ↔ IsBoundary u n := by
  simp only [IsBoundary, String.Pos.Raw.isValid_iff_exists_append]
  constructor
  · rintro ⟨x, y, hsplit, hn⟩
    have hsize : n = x.utf8ByteSize := congrArg String.Pos.Raw.byteIdx hn
    obtain ⟨z, hz, -⟩ := exists_append_of_le hsplit.symm (by omega)
    exact ⟨x, z, hz, hn⟩
  · rintro ⟨x, y, rfl, hn⟩
    exact ⟨x, y ++ v, String.append_assoc, hn⟩

/-! ### Bytes put in and taken away -/

/-- A text with bytes put in and taken away: at every offset stands what is put in there and then
the byte itself, unless it is gone.  The first byte stands at `first`. -/
def weave (put : Nat → List UInt8) (gone : Nat → Bool) (first : Nat) : List UInt8 → List UInt8
  | [] => put first
  | b :: bs => put first ++ (if gone first then [] else [b]) ++ weave put gone (first + 1) bs

variable {put put' : Nat → List UInt8} {gone gone' : Nat → Bool} {first : Nat}

/-- Only what happens from the first byte on matters. -/
theorem weave_congr (hput : ∀ i, first ≤ i → put i = put' i)
    (hgone : ∀ i, first ≤ i → gone i = gone' i) (bs : List UInt8) :
    weave put gone first bs = weave put' gone' first bs := by
  induction bs generalizing first with
  | nil => exact hput first (Nat.le_refl _)
  | cons b bs ih =>
    have hrest : weave put gone (first + 1) bs = weave put' gone' (first + 1) bs := by
      apply ih
      · intro i hi
        exact hput i (by omega)
      · intro i hi
        exact hgone i (by omega)
    rw [weave, weave, hput first (Nat.le_refl _), hgone first (Nat.le_refl _), hrest]

/-- What is put in before all else comes first. -/
theorem weave_put {new : List UInt8} (hfirst : put' first = new ++ put first)
    (hlater : ∀ i, first < i → put' i = put i) (bs : List UInt8) :
    weave put' gone first bs = new ++ weave put gone first bs := by
  cases bs with
  | nil => exact hfirst
  | cons b bs =>
    have hrest : weave put' gone (first + 1) bs = weave put gone (first + 1) bs := by
      apply weave_congr
      · intro i hi
        exact hlater i (by omega)
      · intro i _
        rfl
    rw [weave, weave, hfirst, hrest]
    simp only [List.append_assoc]

/-- Bytes that stay and between which nothing is put in. -/
theorem weave_kept {bs : List UInt8} (hput : ∀ i, first ≤ i → i < first + bs.length → put i = [])
    (hgone : ∀ i, first ≤ i → i < first + bs.length → gone i = false) (cs : List UInt8) :
    weave put gone first (bs ++ cs) = bs ++ weave put gone (first + bs.length) cs := by
  induction bs generalizing first with
  | nil => rfl
  | cons b bs ih =>
    rw [List.length_cons] at hput hgone
    have hrest := @ih (first + 1) (fun i hlo hhi => hput i (by omega) (by omega))
      (fun i hlo hhi => hgone i (by omega) (by omega))
    rw [List.cons_append, weave, hput first (Nat.le_refl _) (by omega),
      hgone first (Nat.le_refl _) (by omega), hrest, List.length_cons, Nat.add_right_comm,
      Nat.add_assoc]
    rfl

/-- Bytes that go and between which nothing is put in. -/
theorem weave_gone {bs : List UInt8} (hput : ∀ i, first ≤ i → i < first + bs.length → put i = [])
    (hgone : ∀ i, first ≤ i → i < first + bs.length → gone i = true) (cs : List UInt8) :
    weave put gone first (bs ++ cs) = weave put gone (first + bs.length) cs := by
  induction bs generalizing first with
  | nil => rfl
  | cons b bs ih =>
    rw [List.length_cons] at hput hgone
    have hrest := @ih (first + 1) (fun i hlo hhi => hput i (by omega) (by omega))
      (fun i hlo hhi => hgone i (by omega) (by omega))
    rw [List.cons_append, weave, hput first (Nat.le_refl _) (by omega),
      hgone first (Nat.le_refl _) (by omega), hrest, List.length_cons, Nat.add_right_comm,
      Nat.add_assoc]
    rfl

end Text

/-! ### Fixes on a text -/

/-- The range of a fix is a part of a text. -/
structure Fix.Fits (fix : Fix) (text : String) : Prop where
  /-- It does not end before it starts. -/
  ordered : fix.span.start ≤ fix.span.stop
  /-- The text can be cut where it starts. -/
  start_boundary : Text.IsBoundary text fix.span.start
  /-- The text can be cut where it ends. -/
  stop_boundary : Text.IsBoundary text fix.span.stop

instance (fix : Fix) (text : String) : Decidable (fix.Fits text) :=
  decidable_of_iff
    (fix.span.start ≤ fix.span.stop ∧ Text.IsBoundary text fix.span.start ∧
      Text.IsBoundary text fix.span.stop)
    ⟨fun h => ⟨h.1, h.2.1, h.2.2⟩, fun h => ⟨h.ordered, h.start_boundary, h.stop_boundary⟩⟩

namespace Fix

variable {fix : Fix} {text u v : String}

theorem Fits.stop_le (h : fix.Fits text) : fix.span.stop ≤ text.utf8ByteSize :=
  h.stop_boundary.le_rawEndPos

/-- What fits cuts the text into three. -/
theorem Fits.exists_split (h : fix.Fits text) : ∃ a t b, text = a ++ t ++ b ∧
    a.utf8ByteSize = fix.span.start ∧ (a ++ t).utf8ByteSize = fix.span.stop :=
  Text.exists_split h.ordered h.start_boundary h.stop_boundary

theorem fits_of_split {a t b : String} (htext : text = a ++ t ++ b)
    (hstart : a.utf8ByteSize = fix.span.start) (hstop : (a ++ t).utf8ByteSize = fix.span.stop) :
    fix.Fits text := by
  refine ⟨?_, ?_, ?_⟩
  · rw [← hstart, ← hstop, String.utf8ByteSize_append]
    exact Nat.le_add_right _ _
  · rw [← hstart, htext, String.append_assoc]
    exact String.Pos.Raw.isValid_iff_exists_append.2 ⟨a, t ++ b, rfl, rfl⟩
  · rw [← hstop, htext]
    exact String.Pos.Raw.isValid_iff_exists_append.2 ⟨a ++ t, b, rfl, rfl⟩

/-- What fits into a beginning of a text fits into the text and ends there or before. -/
theorem fits_append_iff :
    fix.span.stop ≤ u.utf8ByteSize ∧ fix.Fits (u ++ v) ↔ fix.Fits u := by
  constructor
  · rintro ⟨hstop, hordered, hstart', hstop'⟩
    have hstart : fix.span.start ≤ u.utf8ByteSize := by omega
    exact ⟨hordered, (Text.isBoundary_append_iff hstart).1 hstart',
      (Text.isBoundary_append_iff hstop).1 hstop'⟩
  · intro h
    have hstop := h.stop_le
    have hstart : fix.span.start ≤ u.utf8ByteSize := by
      have := h.ordered
      omega
    exact ⟨hstop, h.ordered, (Text.isBoundary_append_iff hstart).2 h.start_boundary,
      (Text.isBoundary_append_iff hstop).2 h.stop_boundary⟩

/-- What fixes put in at an offset, in their order. -/
def putAt (fixes : List Fix) (offset : Nat) : List UInt8 :=
  (fixes.filter fun fix => fix.span.start == offset).flatMap fun fix => Text.bytes fix.replacement

theorem putAt_cons (fix : Fix) (fixes : List Fix) (offset : Nat) :
    putAt (fix :: fixes) offset =
      (if fix.span.start = offset then Text.bytes fix.replacement else []) ++
        putAt fixes offset := by
  unfold putAt
  by_cases h : fix.span.start = offset <;> simp [h]

/-- Nothing is put in before the first fix. -/
theorem putAt_eq_nil {fixes : List Fix} {offset : Nat}
    (h : ∀ fix ∈ fixes, offset < fix.span.start) : putAt fixes offset = [] := by
  have hnone : (fixes.filter fun fix => fix.span.start == offset) = [] := by
    rw [List.filter_eq_nil_iff]
    intro fix hfix
    have := h fix hfix
    simp only [beq_iff_eq]
    omega
  rw [putAt, hnone]
  rfl

/-- A fix takes nothing away before it starts nor from where it ends. -/
theorem contains_range_eq_false {offset : Nat}
    (h : offset < fix.span.start ∨ fix.span.stop ≤ offset) : fix.range.contains offset = false := by
  rw [Bool.eq_false_iff]
  intro hcontains
  have hinside : fix.span.start ≤ offset ∧ offset < fix.span.stop :=
    Extent.contains_iff.1 hcontains
  omega

/-- Nothing is taken away before the first fix. -/
theorem covers_eq_false {fixes : List Fix} {offset : Nat}
    (h : ∀ fix ∈ fixes, offset < fix.span.start) :
    Extent.covers (fixes.map range) offset = false := by
  rw [Extent.covers_eq_false_iff]
  intro r hr
  obtain ⟨fix, hfix, rfl⟩ := List.mem_map.1 hr
  exact contains_range_eq_false (Or.inl (h fix hfix))

/-- One more fix before all others puts in its text and takes away its range; from there up to the
others everything stays. -/
theorem weave_cons {fixes : List Fix} {cut between rest : List UInt8}
    (hcut : fix.span.start + cut.length = fix.span.stop)
    (hlater : ∀ later ∈ fixes, fix.span.stop + between.length ≤ later.span.start) :
    Text.weave (putAt (fix :: fixes)) (Extent.covers ((fix :: fixes).map range)) fix.span.start
        (cut ++ (between ++ rest)) =
      Text.bytes fix.replacement ++ (between ++
        Text.weave (putAt fixes) (Extent.covers (fixes.map range))
          (fix.span.stop + between.length) rest) := by
  have hput (i : Nat) (hi : i < fix.span.stop + between.length) : putAt fixes i = [] :=
    putAt_eq_nil fun later hmem => Nat.lt_of_lt_of_le hi (hlater later hmem)
  have hgone (i : Nat) (hi : i < fix.span.stop + between.length) :
      Extent.covers (fixes.map range) i = false :=
    covers_eq_false fun later hmem => Nat.lt_of_lt_of_le hi (hlater later hmem)
  have hcovers (i : Nat) : Extent.covers ((fix :: fixes).map range) i =
      (fix.range.contains i || Extent.covers (fixes.map range) i) :=
    Extent.covers_cons _ _ _
  have hbehind (i : Nat) (hi : fix.span.stop ≤ i) :
      Extent.covers ((fix :: fixes).map range) i = Extent.covers (fixes.map range) i := by
    rw [hcovers, contains_range_eq_false (Or.inr hi), Bool.false_or]
  have hfirst : putAt (fix :: fixes) fix.span.start =
      Text.bytes fix.replacement ++ putAt fixes fix.span.start := by
    rw [putAt_cons, if_pos rfl]
  have hrest (i : Nat) (hi : fix.span.start < i) : putAt (fix :: fixes) i = putAt fixes i := by
    rw [putAt_cons, if_neg (by omega)]
    rfl
  rw [Text.weave_put hfirst hrest, Text.weave_gone, hcut, Text.weave_kept]
  · congr 2
    apply Text.weave_congr
    · intro i _
      rfl
    · intro i hi
      exact hbehind i (by omega)
  · intro i _ hi
    exact hput i hi
  · intro i hlo hi
    rw [hbehind i hlo, hgone i hi]
  · intro i _ hi
    exact hput i (by omega)
  · intro i hlo hi
    rw [hcut] at hi
    rw [hcovers, Extent.contains_iff.2 ⟨hlo, hi⟩, Bool.true_or]

end Fix

namespace Edit

/-- The bytes of a text in which fixes replace their ranges at the same time, by its offsets.
Where several start, they put in their texts in the order in which they are listed. -/
def replaceAll (fixes : List Fix) (bs : List UInt8) : List UInt8 :=
  Text.weave (Fix.putAt fixes) (Extent.covers (fixes.map Fix.range)) 0 bs

/-- A fix can be made on a text after others: it ends where the last one of them starts or before,
if there was one, and its range is a part of the text. -/
def Accepts (text : String) (floor : Option Nat) (fix : Fix) : Prop :=
  (∀ n ∈ floor, fix.span.stop ≤ n) ∧ fix.Fits text

instance (text : String) (floor : Option Nat) (fix : Fix) : Decidable (Accepts text floor fix) :=
  inferInstanceAs (Decidable (_ ∧ _))

/-- The fixes that can be made on a text one after the other.  `floor` is where the last one made
before them starts. -/
def accepted (text : String) : Option Nat → List Fix → List Fix
  | _, [] => []
  | floor, fix :: fixes =>
    if Accepts text floor fix then fix :: accepted text (some fix.span.start) fixes
    else accepted text floor fixes

/-! ### Order and ranges -/

theorem perm_order (fixes : List Fix) : (order fixes).Perm fixes := List.mergeSort_perm _ _

/-- Fixes that start together keep their order. -/
theorem filter_order (fixes : List Fix) (n : Nat) :
    (order fixes).filter (·.span.start == n) = fixes.filter (·.span.start == n) := by
  have htogether : (fixes.filter (·.span.start == n)).Pairwise
      fun a b => decide (b.span.start ≤ a.span.start) := by
    apply List.pairwise_of_forall_mem_list
    intro a ha b hb
    have ha' := of_decide_eq_true (List.mem_filter.1 ha).2
    have hb' := of_decide_eq_true (List.mem_filter.1 hb).2
    exact decide_eq_true (by omega)
  have hsub : (fixes.filter (·.span.start == n)).Sublist (order fixes) :=
    List.sublist_mergeSort (by simp only [decide_eq_true_eq]; omega)
      (by simp only [Bool.or_eq_true, decide_eq_true_eq]; omega) htogether List.filter_sublist
  have hfilter := hsub.filter (·.span.start == n)
  rw [List.filter_filter] at hfilter
  simp only [Bool.and_self] at hfilter
  exact (hfilter.eq_of_length ((perm_order fixes).filter _).length_eq.symm).symm

theorem stop_le_of_mem_accepted {text : String} {n : Nat} {fixes : List Fix} {fix : Fix}
    (h : fix ∈ accepted text (some n) fixes) : fix.span.stop ≤ n := by
  induction fixes generalizing n with
  | nil => cases h
  | cons f fixes ih =>
    rw [accepted] at h
    split at h
    · next haccepts =>
      have hf : f.span.stop ≤ n := haccepts.1 n rfl
      rcases List.mem_cons.1 h with rfl | h
      · exact hf
      · have hlater := ih h
        have hordered := haccepts.2.ordered
        omega
    · exact ih h

/-- Each accepted fix ends where the one accepted before it starts, or before. -/
theorem pairwise_accepted (text : String) (floor : Option Nat) (fixes : List Fix) :
    (accepted text floor fixes).Pairwise fun a b => b.span.stop ≤ a.span.start := by
  induction fixes generalizing floor with
  | nil => exact .nil
  | cons fix fixes ih =>
    rw [accepted]
    split
    · exact List.pairwise_cons.2 ⟨fun later hlater => stop_le_of_mem_accepted hlater, ih _⟩
    · exact ih _

/-! ### A run in the middle -/

theorem step_of_not_fits {e : Edit} {fix : Fix}
    (h : ¬ (fix.span.stop ≤ e.floor ∧ fix.Fits e.text)) :
    e.step fix = { e with skipped := e.skipped + 1 } := by
  rw [step]
  by_cases hfloor : fix.span.stop ≤ e.floor
  · have hnone : Text.splice? e.text fix.span.start fix.span.stop fix.replacement = none := by
      rw [Option.eq_none_iff_forall_ne_some]
      intro r hr
      obtain ⟨a, t, b, htext, hstart, hstop, -⟩ := Text.splice?_eq_some_iff.1 hr
      exact h ⟨hfloor, Fix.fits_of_split htext hstart hstop⟩
    rw [if_pos hfloor, hnone]
  · rw [if_neg hfloor]

/-- A run in the middle: the beginning `kept` of the text is as it was, and behind it the fixes
`made` so far, the latest one first, have replaced their ranges at the same time. -/
structure Midway (text kept : String) (made : List Fix) (floor : Option Nat) (e : Edit) :
    Prop where
  /-- What can be made after them on the text as it was fits into the beginning. -/
  accepts_iff : ∀ fix : Fix, Accepts text floor fix ↔ fix.Fits kept
  /-- So does what can be made on the text as it is. -/
  open_iff : ∀ fix : Fix, fix.span.stop ≤ e.floor ∧ fix.Fits e.text ↔ fix.Fits kept
  /-- They all start behind the beginning. -/
  le_start : ∀ fix ∈ made, kept.utf8ByteSize ≤ fix.span.start
  /-- What follows the beginning in the two texts. -/
  exists_rest : ∃ old new, text = kept ++ old ∧ e.text = kept ++ new ∧
    Text.bytes new = Text.weave (Fix.putAt made) (Extent.covers (made.map Fix.range))
      kept.utf8ByteSize (Text.bytes old)

variable {text kept : String} {made : List Fix} {floor : Option Nat} {e : Edit}

theorem midway_start (text : String) : Midway text text [] none (start text) where
  accepts_iff := by
    intro fix
    simp [Accepts]
  open_iff := by
    intro fix
    have hstop : fix.span.stop ≤ maxOffset := Nat.min_le_right _ _
    exact and_iff_right hstop
  le_start := by simp
  exists_rest := ⟨"", "", by simp, by simp [start], rfl⟩

/-- A fix that is skipped leaves the run where it is. -/
theorem Midway.skip (h : Midway text kept made floor e) (n : Nat) :
    Midway text kept made floor { e with skipped := n } :=
  ⟨h.accepts_iff, h.open_iff, h.le_start, h.exists_rest⟩

/-- A fix that is made moves the run to where the fix starts. -/
theorem Midway.step {fix : Fix} (h : Midway text kept made floor e) (hfits : fix.Fits kept) :
    ∃ before, Midway text before (fix :: made) (some fix.span.start) (e.step fix) ∧
      (e.step fix).skipped = e.skipped := by
  obtain ⟨a, t, b, rfl, hstart, hstop⟩ := hfits.exists_split
  obtain ⟨old, new, htext, hnew, hbytes⟩ := h.exists_rest
  obtain ⟨hfloor, -⟩ := (h.open_iff fix).2 hfits
  have hsize : (a ++ t ++ b).utf8ByteSize = fix.span.stop + b.utf8ByteSize := by
    rw [String.utf8ByteSize_append, hstop]
  have hcut : fix.span.start + t.utf8ByteSize = fix.span.stop := by
    rw [← hstart, ← hstop, String.utf8ByteSize_append]
  have hlater (later : Fix) (hmem : later ∈ made) :
      fix.span.stop + b.utf8ByteSize ≤ later.span.start := hsize ▸ h.le_start later hmem
  rw [step_eq (t := t) (v := b ++ new) (by rw [hnew, String.append_assoc]) hstart hstop hfloor]
  refine ⟨a, ⟨?_, ?_, ?_, t ++ (b ++ old), fix.replacement ++ (b ++ new), ?_, ?_, ?_⟩, rfl⟩
  · intro other
    rw [← Fix.fits_append_iff (v := t ++ (b ++ old)), hstart, Accepts, htext]
    simp [String.append_assoc]
  · intro other
    rw [← Fix.fits_append_iff (u := a) (v := fix.replacement ++ (b ++ new)), hstart]
    simp only [String.append_assoc]
  · intro other hother
    rcases List.mem_cons.1 hother with rfl | hother
    · exact Nat.le_of_eq hstart
    · have := hlater other hother
      omega
  · rw [htext]
    simp only [String.append_assoc]
  · rw [String.append_assoc]
  · simp only [Text.bytes_append]
    rw [hstart, Fix.weave_cons (by rwa [Text.length_bytes])
      (by simpa only [Text.length_bytes] using hlater), hbytes, hsize, Text.length_bytes]

/-- **A whole run**: the fixes that are made are the accepted ones, and all others are skipped. -/
theorem Midway.foldl (h : Midway text kept made floor e) (fixes : List Fix) :
    (∃ before last, Midway text before ((accepted text floor fixes).reverse ++ made) last
      (fixes.foldl Edit.step e)) ∧
    (accepted text floor fixes).length + (fixes.foldl Edit.step e).skipped =
      fixes.length + e.skipped := by
  induction fixes generalizing kept made floor e with
  | nil => exact ⟨⟨kept, floor, h⟩, rfl⟩
  | cons fix fixes ih =>
    rw [List.foldl_cons, accepted, List.length_cons]
    by_cases haccepts : Accepts text floor fix
    · rw [if_pos haccepts, List.length_cons, List.reverse_cons, List.append_assoc]
      obtain ⟨before, hnext, hskipped⟩ := h.step ((h.accepts_iff fix).1 haccepts)
      obtain ⟨hrun, hcount⟩ := ih hnext
      refine ⟨hrun, ?_⟩
      omega
    · rw [if_neg haccepts]
      have hskip : e.step fix = { e with skipped := e.skipped + 1 } := by
        apply step_of_not_fits
        rw [h.open_iff, ← h.accepts_iff]
        exact haccepts
      obtain ⟨hrun, hcount⟩ := ih (h.skip (e.skipped + 1))
      rw [hskip]
      refine ⟨hrun, ?_⟩
      rw [hcount]
      exact (Nat.add_right_comm _ 1 _).symm

/-- At the end of a run the fixes made have replaced their ranges of the whole text at the same
time. -/
theorem Midway.bytes_text (h : Midway text kept made floor e) :
    Text.bytes e.text = replaceAll made (Text.bytes text) := by
  obtain ⟨old, new, htext, hnew, hbytes⟩ := h.exists_rest
  have hbefore (i : Nat) (hi : i < 0 + (Text.bytes kept).length) :
      ∀ fix ∈ made, i < fix.span.start := by
    intro fix hfix
    have := h.le_start fix hfix
    rw [Text.length_bytes] at hi
    omega
  rw [replaceAll, hnew, htext, Text.bytes_append, Text.bytes_append, hbytes, Text.weave_kept
      (fun i _ hi => Fix.putAt_eq_nil (hbefore i hi))
      (fun i _ hi => Fix.covers_eq_false (hbefore i hi)),
    Text.length_bytes, Nat.zero_add]

/-- **Applying fixes is one simultaneous replacement.**  The fixes are taken by descending start,
and in the given order where they start together; those that are accepted replace their ranges of
the original text, the later one first where two start together, which leaves a text again; no two
of them overlap, and all others are skipped. -/
theorem apply_eq_replaceAll (text : String) (fixes : List Fix) :
    let taken := order fixes
    let made := accepted text none taken
    (taken.Perm fixes ∧ (taken.Pairwise fun a b => b.span.start ≤ a.span.start) ∧
      ∀ n, taken.filter (·.span.start == n) = fixes.filter (·.span.start == n)) ∧
    Text.bytes (apply text fixes).text = replaceAll made.reverse (Text.bytes text) ∧
    ByteArray.IsValidUTF8 ⟨(replaceAll made.reverse (Text.bytes text)).toArray⟩ ∧
    (made.Pairwise fun a b => b.span.stop ≤ a.span.start) ∧
    made.length + (apply text fixes).skipped = fixes.length := by
  intro taken made
  obtain ⟨⟨before, last, hrun⟩, hcount⟩ := (midway_start text).foldl taken
  rw [List.append_nil] at hrun
  have hbytes : Text.bytes (apply text fixes).text =
      replaceAll made.reverse (Text.bytes text) := hrun.bytes_text
  refine ⟨⟨perm_order fixes, pairwise_order fixes, filter_order fixes⟩, hbytes, ?_,
    pairwise_accepted text none taken, ?_⟩
  · rw [← hbytes, Text.bytes, Array.toArray_toList]
    exact (apply text fixes).text.isValidUTF8
  · rw [(perm_order fixes).length_eq] at hcount
    exact hcount

example : replaceAll [⟨⟨1, 0, 1, 2⟩, "x"⟩, ⟨⟨1, 1, 1, 2⟩, "y"⟩] (Text.bytes "abc") =
    Text.bytes "axyc" := by decide +kernel

end Edit

end Unqualify
