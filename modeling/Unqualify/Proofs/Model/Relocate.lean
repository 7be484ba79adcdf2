import Unqualify.Model

/-!
# Names in a text that has moved

The meaning of a name depends on the offsets of a file in two ways only: which extents an offset
lies in, and which of two extents starts first.  So a map of offsets that keeps the ends of all
extents apart from what lies before them (`Extent.KeptBy`) changes no meaning, even when it sends
other offsets to the same place: a name at an offset means what the name means at the image of the
offset among the images of the extents (`Model.lookup_relocate`).
-/

namespace Unqualify

/-- A range with both ends moved. -/
def Extent.relocate (f : Nat → Nat) (e : Extent) : Extent :=
  { start := f e.start, stop := f e.stop }

/-- A map of offsets keeps the ends of a range: what lies before an end, and nothing else, goes
before its image. -/
structure Extent.KeptBy (f : Nat → Nat) (e : Extent) : Prop where
  /-- The start is kept. -/
  start_kept : ∀ offset, f offset < f e.start ↔ offset < e.start
  /-- The end is kept. -/
  stop_kept : ∀ offset, f offset < f e.stop ↔ offset < e.stop

theorem Extent.KeptBy.le_start_iff {f : Nat → Nat} {e : Extent} (h : e.KeptBy f) (offset : Nat) :
    f e.start ≤ f offset ↔ e.start ≤ offset := by
  rw [← Nat.not_lt, ← Nat.not_lt, h.start_kept]

theorem Extent.KeptBy.contains_relocate {f : Nat → Nat} {e : Extent} (h : e.KeptBy f)
    (offset : Nat) : (e.relocate f).contains (f offset) = e.contains offset := by
  simp only [contains, relocate, h.le_start_iff, h.stop_kept]

/-- A type declaration with its range moved. -/
def TypeDeclaration.relocate (f : Nat → Nat) (d : TypeDeclaration) : TypeDeclaration :=
  { d with extent := d.extent.relocate f }

/-- A namespace block with its range moved. -/
def NamespaceBlock.relocate (f : Nat → Nat) (b : NamespaceBlock) : NamespaceBlock :=
  { b with extent := b.extent.relocate f }

/-- A local name with its range moved. -/
def Local.relocate (f : Nat → Nat) (l : Local) : Local :=
  { l with extent := l.extent.relocate f }

namespace Outline

/-- The outline of a file whose offsets have moved: both ends of every extent are mapped. -/
def relocate (f : Nat → Nat) (o : Outline) : Outline :=
  { o with
    blocks := o.blocks.map (·.relocate f)
    types := o.types.map (·.relocate f)
    locals := o.locals.map (·.relocate f) }

/-- The extents of all scopes of a file. -/
def extents (o : Outline) : List Extent :=
  o.blocks.map (·.extent) ++ o.types.map (·.extent) ++ o.locals.map (·.extent)

theorem mem_extents {o : Outline} {e : Extent} :
    e ∈ o.extents ↔ (∃ b ∈ o.blocks, b.extent = e) ∨ (∃ d ∈ o.types, d.extent = e) ∨
      ∃ l ∈ o.locals, l.extent = e := by
  simp only [extents, List.mem_append, List.mem_map, or_assoc]

end Outline

namespace Model

/-- The meaning of names in a file whose offsets have moved. -/
def relocate (f : Nat → Nat) (m : Model) : Model :=
  { m with outline := m.outline.relocate f }

variable {f : Nat → Nat}

/-- The innermost block stays the innermost: blocks start in the same order as before. -/
theorem innermost?_relocate {bs : List NamespaceBlock} (h : ∀ b ∈ bs, b.extent.KeptBy f) :
    innermost? (bs.map (·.relocate f)) = (innermost? bs).map (·.relocate f) := by
  induction bs with
  | nil => rfl
  | cons b bs ih =>
    have hb := h b List.mem_cons_self
    rw [List.map_cons, innermost?, innermost?, ih fun c hc => h c (List.mem_cons_of_mem b hc)]
    cases innermost? bs with
    | none => rfl
    | some c =>
      -- it is enough that the start of one of the two is kept
      have horder : (b.relocate f).extent.start ≤ (c.relocate f).extent.start ↔
          b.extent.start ≤ c.extent.start := hb.le_start_iff c.extent.start
      simp only [Option.map_some]
      by_cases hle : b.extent.start ≤ c.extent.start
      · rw [if_pos hle, if_pos (horder.2 hle), Option.map_some]
      · rw [if_neg hle, if_neg fun h' => hle (horder.1 h'), Option.map_some]

/-- The scopes around an offset are the moved scopes around its image. -/
theorem filter_contains_relocate {α : Type} (extent : α → Extent) (move : α → α)
    (hmove : ∀ a, extent (move a) = (extent a).relocate f) {scopes : List α}
    (h : ∀ a ∈ scopes, (extent a).KeptBy f) (offset : Nat) :
    (scopes.map move).filter (fun a => (extent a).contains (f offset)) =
      (scopes.filter fun a => (extent a).contains offset).map move := by
  rw [List.filter_map]
  congr 1
  refine List.filter_congr fun a ha => ?_
  rw [Function.comp, hmove, (h a ha).contains_relocate]

variable {m : Model}

/-- What a level knows does not depend on offsets. -/
theorem bindLevels_relocate (name : String) (levels : List Level) :
    (m.relocate f).bindLevels name levels = m.bindLevels name levels := by
  induction levels with
  | nil => rfl
  | cons level levels ih =>
    have hlevel : (m.relocate f).bindLevel name level = m.bindLevel name level := rfl
    rw [bindLevels, bindLevels, hlevel, ih]

variable (hkept : ∀ e ∈ m.outline.extents, e.KeptBy f)

include hkept

theorem bindLocal?_relocate (offset : Nat) (name : String) :
    (m.relocate f).bindLocal? (f offset) name = m.bindLocal? offset name := by
  have hlocals : ∀ l ∈ m.outline.locals, l.extent.KeptBy f := fun l hl =>
    hkept l.extent (Outline.mem_extents.2 (Or.inr (Or.inr ⟨l, hl, rfl⟩)))
  have hany : ((m.relocate f).outline.locals.any fun l =>
      l.name == name && l.extent.contains (f offset)) =
      m.outline.locals.any fun l => l.name == name && l.extent.contains offset := by
    rw [relocate, Outline.relocate, List.any_map, Bool.eq_iff_iff, List.any_eq_true,
      List.any_eq_true]
    refine exists_congr fun l => and_congr_right fun hl => ?_
    rw [Function.comp, ← (hlocals l hl).contains_relocate offset]
    rfl
  rw [bindLocal?, hany, bindLocal?]

theorem typesAround_relocate (offset : Nat) :
    (m.relocate f).typesAround (f offset) = (m.typesAround offset).map (·.relocate f) := by
  have htypes : ∀ d ∈ m.outline.types, d.extent.KeptBy f := fun d hd =>
    hkept d.extent (Outline.mem_extents.2 (Or.inr (Or.inl ⟨d, hd, rfl⟩)))
  have hfilter : (m.relocate f).outline.types.filter (·.extent.contains (f offset)) =
      (m.outline.types.filter (·.extent.contains offset)).map (·.relocate f) :=
    filter_contains_relocate TypeDeclaration.extent (·.relocate f) (fun _ => rfl) htypes offset
  rw [typesAround, hfilter, typesAround, List.map_mergeSort]
  -- the sort sees the same comparisons
  intro a _ b hb
  exact decide_eq_decide.2
    ((htypes b (List.mem_filter.1 hb).1).le_start_iff a.extent.start).symm

theorem bindInTypes?_relocate (offset : Nat) (name : String) :
    (m.relocate f).bindInTypes? (f offset) name = m.bindInTypes? offset name := by
  rw [bindInTypes?, typesAround_relocate hkept, List.findSome?_map]
  rfl

theorem levels_relocate (offset : Nat) : (m.relocate f).levels (f offset) = m.levels offset := by
  have hblocks : ∀ b ∈ m.outline.blocks, b.extent.KeptBy f := fun b hb =>
    hkept b.extent (Outline.mem_extents.2 (Or.inl ⟨b, hb, rfl⟩))
  have haround : (m.relocate f).outline.blocks.filter (·.extent.contains (f offset)) =
      (m.outline.blocks.filter (·.extent.contains offset)).map (·.relocate f) :=
    filter_contains_relocate NamespaceBlock.extent (·.relocate f) (fun _ => rfl) hblocks offset
  rw [levels, haround, innermost?_relocate fun b hb => hblocks b (List.mem_filter.1 hb).1]
  simp only [Option.map_map, List.filter_map, List.flatMap_map]
  rfl

/-- **A map that keeps the ends of all extents changes no meaning.** -/
theorem lookup_relocate (offset : Nat) (name : String) :
    (m.relocate f).lookup (f offset) name = m.lookup offset name := by
  have hbind : (m.relocate f).bind (f offset) name = m.bind offset name := by
    rw [bind, bindLocal?_relocate hkept, bindInTypes?_relocate hkept, levels_relocate hkept,
      bindLevels_relocate, bind]
  rw [lookup, hbind]
  rfl

end Model

end Unqualify
