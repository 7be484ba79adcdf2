import Unqualify.Proofs.Model.Relocate
import Unqualify.Proofs.Scan.Disjoint
import Mathlib.Data.List.Induction

/-!
# Fixes made together

All fixes of a file are computed on one text and made at once.  Removing qualifications moves what
stands behind them towards the start (`Extent.shift`), and offsets inside a qualification fall on
its first one.  Still no name changes its meaning: a scope never begins or ends inside of a fixed
access, so the byte before the end of a scope stays, and the shift keeps that end
(`Scanner.keptBy_shift`).  Each fix is then as right after the others as it was alone
(`Scanner.lookup_after_fixes`).
-/

namespace Unqualify

namespace Extent

variable (ranges : List Extent)

/-- The number of offsets before `offset` that lie in one of the ranges. -/
def coveredBefore (offset : Nat) : Nat :=
  (List.range offset).countP (covers ranges)

/-- Where an offset goes when the ranges are removed: back by the number of bytes removed before it
(`length_outside`). -/
def shift (offset : Nat) : Nat :=
  offset - coveredBefore ranges offset

variable {ranges}

theorem shift_succ (offset : Nat) :
    shift ranges (offset + 1) =
      shift ranges offset + if covers ranges offset then 0 else 1 := by
  have hle : coveredBefore ranges offset ≤ offset := by
    have := List.countP_le_length (p := covers ranges) (l := List.range offset)
    rwa [List.length_range] at this
  have hsucc : coveredBefore ranges (offset + 1) =
      coveredBefore ranges offset + if covers ranges offset then 1 else 0 := by
    rw [coveredBefore, List.range_succ, List.countP_append, List.countP_singleton]
    rfl
  rw [shift, hsucc, shift]
  split <;> omega

theorem shift_mono {a b : Nat} (h : a ≤ b) : shift ranges a ≤ shift ranges b := by
  induction h with
  | refl => exact Nat.le_refl _
  | step _ ih =>
    rw [shift_succ]
    exact Nat.le_trans ih (Nat.le_add_right _ _)

/-- An offset right behind a byte that stays is kept apart from all offsets before it. -/
theorem shift_lt_iff {point : Nat} (h : ∀ last, point = last + 1 → covers ranges last = false)
    (offset : Nat) : shift ranges offset < shift ranges point ↔ offset < point := by
  constructor
  · intro hlt
    by_contra hge
    exact Nat.not_lt.2 (shift_mono (Nat.not_lt.1 hge)) hlt
  · intro hlt
    obtain ⟨last, rfl⟩ : ∃ last, point = last + 1 := ⟨point - 1, by omega⟩
    have hmono : shift ranges offset ≤ shift ranges last := shift_mono (Nat.lt_succ_iff.1 hlt)
    rw [shift_succ, h last rfl]
    exact Nat.lt_succ_of_le hmono

/-- The shift is right: the first bytes of a text end there when the ranges are gone. -/
theorem length_outside (bs : List UInt8) :
    (Text.outside ranges 0 bs).length = shift ranges bs.length := by
  induction bs using List.reverseRecOn with
  | nil => rfl
  | append_singleton bs b ih =>
    rw [Text.outside_append, List.length_append, ih, List.length_append, List.length_singleton,
      shift_succ, Nat.zero_add]
    cases hcovers : covers ranges bs.length with
    | true => simp [Text.outside, hcovers]
    | false => simp [Text.outside, hcovers]

end Extent

/-- An offset lies strictly inside an access. -/
def Access.HoldsInside (form : Access) (offset : Nat) : Prop :=
  form.span.start < offset ∧ offset < form.span.stop

instance (form : Access) (offset : Nat) : Decidable (form.HoldsInside offset) :=
  inferInstanceAs (Decidable (_ ∧ _))

/-- An access contains its last name, which is not empty. -/
def Access.HasName (form : Access) : Prop :=
  form.name.span.start < form.name.span.stop ∧ form.name.span.Within form.span

instance (form : Access) : Decidable form.HasName :=
  inferInstanceAs (Decidable (_ ∧ _ ∧ _))

namespace Scanner

/-- A point that is not strictly inside a fixed access stands behind a byte that stays. -/
theorem covers_eq_false {fixed : List Access} (hname : ∀ form ∈ fixed, form.HasName) {last : Nat}
    (h : ∀ form ∈ fixed, ¬form.HoldsInside (last + 1)) :
    Extent.covers (fixed.map Access.qualifier) last = false := by
  rw [Extent.covers_eq_false_iff]
  intro range hrange
  obtain ⟨form, hform, rfl⟩ := List.mem_map.1 hrange
  obtain ⟨hnonempty, -, hwithin⟩ := hname form hform
  rw [← Bool.not_eq_true, Extent.contains_iff]
  rintro ⟨hstart, hstop⟩
  -- the name stands between the byte and the end of the access
  refine h form hform ⟨Nat.lt_succ_of_le hstart, ?_⟩
  simp only [Access.qualifier] at hstop
  omega

theorem keptBy_shift {fixed : List Access} (hname : ∀ form ∈ fixed, form.HasName) {e : Extent}
    (h : ∀ form ∈ fixed, ¬form.HoldsInside e.start ∧ ¬form.HoldsInside e.stop) :
    e.KeptBy (Extent.shift (fixed.map Access.qualifier)) where
  start_kept := Extent.shift_lt_iff fun _ hlast =>
    covers_eq_false hname fun form hform => hlast ▸ (h form hform).1
  stop_kept := Extent.shift_lt_iff fun _ hlast =>
    covers_eq_false hname fun form hform => hlast ▸ (h form hform).2

/-- **Fixes made together change no other name.**  Take any table, any file, and any of the
accesses that a scan of the file offers to shorten, such that each contains its last name and no
scope of the file begins or ends strictly inside one of them.  Remove their qualifications and
move all scopes accordingly.  Then every name means at every offset what it meant before; and the
short name of each of these accesses, where it stands now, means what the access denotes. -/
theorem lookup_after_fixes (table : SymbolTable) (outline : Outline) (s : Scanner)
    (root : Expression) (fixed : List Access)
    (hoffered : ∀ form ∈ fixed, form ∈ s.offered (Analysis.oracleOf table outline) root)
    (hname : ∀ form ∈ fixed, form.HasName)
    (hscopes : ∀ e ∈ outline.extents, ∀ form ∈ fixed,
      ¬form.HoldsInside e.start ∧ ¬form.HoldsInside e.stop) :
    let shift := Extent.shift (fixed.map Access.qualifier)
    let before : Model := { table, outline }
    let after : Model := { table, outline := outline.relocate shift }
    (∀ offset name, after.lookup (shift offset) name = before.lookup offset name) ∧
      ∀ form ∈ fixed, ∃ left, .access left form ∈ root.preorder ∧
        after.lookup (shift form.span.start) form.name.identifier =
          .unique (before.resolve (.access left form)) := by
  intro shift before after
  have hkept : ∀ e ∈ before.outline.extents, e.KeptBy shift := fun e he =>
    keptBy_shift hname (hscopes e he)
  have hlookup (offset : Nat) (name : String) :
      after.lookup (shift offset) name = before.lookup offset name :=
    Model.lookup_relocate hkept offset name
  refine ⟨hlookup, fun form hform => ?_⟩
  obtain ⟨left, hmem, hoffers⟩ := exists_of_mem_offered (hoffered form hform)
  refine ⟨left, hmem, ?_⟩
  rw [hlookup]
  exact (lookup_of_offers hoffers).2

/-- The access `A.name` at an offset. -/
def shortAccess (start : Nat) (name : String) : Expression :=
  let operand : SimpleName := { identifier := "A", span := ⟨start, 1, 1, start + 1⟩, text := "A" }
  let last : SimpleName :=
    { identifier := name, span := ⟨start + 2, 1, 1, start + 3⟩, text := name }
  .access (.identifier operand)
    { name := last, span := ⟨start, 3, 1, start + 1⟩, text := "A." ++ name }

/-- Two accesses in one type: after both fixes the second stands two bytes closer to the start, in
the moved extents of its namespace, its type and a local name, and `C` there means `A.C`. -/
theorem two_accesses_lookup_after_fixes :
    let table := SymbolTable.build [.library "A.B", .library "A.C"]
    let outline : Outline :=
      { blocks := [{ name := "N", extent := ⟨0, 40⟩, usings := [.types "A"] }]
        types := [{ inNamespace := "N", outer := [], name := "T", members := ["M"],
                    extent := ⟨4, 39⟩ }]
        locals := [{ name := "x", extent := ⟨10, 38⟩ }] }
    let s : Scanner := { offerFixes := true }
    let root : Expression := .other [shortAccess 20 "B", shortAccess 30 "C"] ⟨0, 40, 1, 1⟩
    let fixed := s.offered (Analysis.oracleOf table outline) root
    let shift := Extent.shift (fixed.map Access.qualifier)
    let after : Model := { table, outline := outline.relocate shift }
    fixed.length = 2 ∧ shift 30 = 28 ∧ (∀ form ∈ fixed, form.HasName) ∧
      (∀ e ∈ outline.extents, ∀ form ∈ fixed,
        ¬form.HoldsInside e.start ∧ ¬form.HoldsInside e.stop) ∧
      (∀ offset name, after.lookup (shift offset) name =
        Model.lookup { table, outline } offset name) ∧
      ∀ form ∈ fixed, ∃ left, .access left form ∈ root.preorder ∧
        after.lookup (shift form.span.start) form.name.identifier =
          .unique (Model.resolve { table, outline } (.access left form)) := by
  intro table outline s root fixed shift after
  have hlength : fixed.length = 2 := by decide +kernel
  have hshift : shift 30 = 28 := by decide +kernel
  have hname : ∀ form ∈ fixed, form.HasName := by decide +kernel
  have hscopes : ∀ e ∈ outline.extents, ∀ form ∈ fixed,
      ¬form.HoldsInside e.start ∧ ¬form.HoldsInside e.stop := by decide +kernel
  exact ⟨hlength, hshift, hname, hscopes,
    lookup_after_fixes table outline s root fixed (fun _ hform => hform) hname hscopes⟩

end Scanner

end Unqualify
