import Unqualify.Proofs.Outline.Reading
import Unqualify.Model

/-!
# What a name depends on

The meaning of a simple name at an offset depends on the local names that are visible there, on the
types around it, and on the namespaces around it with their directives, of which the extents count
only by where they start.  Files that agree in these at an offset agree in what every name means
there, whatever the program declares (`Model.lookup_congr`).
-/

namespace Unqualify

/-- What counts of a namespace block around an offset: its name, where it starts, and its
directives. -/
def NamespaceBlock.key (b : NamespaceBlock) : String × Nat × List Using :=
  (b.name, b.extent.start, b.usings)

namespace Model

theorem map_key_innermost?_congr {bs bs' : List NamespaceBlock}
    (h : bs.map (·.key) = bs'.map (·.key)) :
    (innermost? bs).map (·.key) = (innermost? bs').map (·.key) := by
  induction bs generalizing bs' with
  | nil =>
    cases bs' with
    | nil => rfl
    | cons b' bs' => cases h
  | cons b bs ih =>
    cases bs' with
    | nil => cases h
    | cons b' bs' =>
      rw [List.map_cons, List.map_cons, List.cons.injEq] at h
      obtain ⟨hb, hbs⟩ := h
      have hrest := ih hbs
      have hstart : b.extent.start = b'.extent.start := congrArg (fun k => k.2.1) hb
      rw [innermost?, innermost?]
      cases hc : innermost? bs with
      | none =>
        cases hc' : innermost? bs' with
        | none => simpa using hb
        | some c' => simp [hc, hc'] at hrest
      | some c =>
        cases hc' : innermost? bs' with
        | none => simp [hc, hc'] at hrest
        | some c' =>
          have hkey : c.key = c'.key := by simpa [hc, hc'] using hrest
          have hcstart : c.extent.start = c'.extent.start := congrArg (fun k => k.2.1) hkey
          simp only [hstart, hcstart]
          split_ifs
          · simpa using hkey
          · simpa using hb

/-- The directives of the blocks of a name. -/
theorem flatMap_usings_congr {bs bs' : List NamespaceBlock}
    (h : bs.map (·.key) = bs'.map (·.key)) (level : String) :
    (bs.filter (·.name == level)).flatMap (·.usings) =
      (bs'.filter (·.name == level)).flatMap (·.usings) := by
  have hkeys (bs : List NamespaceBlock) : (bs.filter (·.name == level)).flatMap (·.usings) =
      ((bs.map (·.key)).filter (·.1 == level)).flatMap (·.2.2) := by
    rw [List.filter_map, List.flatMap_map]
    rfl
  rw [hkeys, hkeys, h]

variable {table : SymbolTable} {o o' : Outline} {offset : Nat}

theorem levels_congr
    (hblocks : (o.blocks.filter (·.extent.contains offset)).map (·.key) =
      (o'.blocks.filter (·.extent.contains offset)).map (·.key))
    (husings : o.usings = o'.usings) :
    ({ table, outline := o } : Model).levels offset =
      ({ table, outline := o' } : Model).levels offset := by
  have hname := map_key_innermost?_congr hblocks
  have hinnermost : ((innermost? (o.blocks.filter (·.extent.contains offset))).map (·.name)) =
      (innermost? (o'.blocks.filter (·.extent.contains offset))).map (·.name) := by
    have := congrArg (Option.map Prod.fst) hname
    simpa [Function.comp_def, NamespaceBlock.key] using this
  simp only [levels, hinnermost, husings, flatMap_usings_congr hblocks]

theorem bindLocal?_congr (h : Outline.visible offset o.locals = Outline.visible offset o'.locals)
    (name : String) :
    ({ table, outline := o } : Model).bindLocal? offset name =
      ({ table, outline := o' } : Model).bindLocal? offset name := by
  have hany (locals : List Local) :
      (locals.any fun l => l.name == name && l.extent.contains offset) =
        (Outline.visible offset locals).contains name := by
    rw [Outline.visible, List.contains_eq_any_beq, List.any_map, List.any_filter]
    refine congrArg (locals.any ·) (funext fun l => ?_)
    rw [Bool.and_comm, Function.comp, Bool.beq_comm]
  simp only [bindLocal?, hany, h]

theorem bindLevels_congr (name : String) (levels : List Level) :
    ({ table, outline := o } : Model).bindLevels name levels =
      ({ table, outline := o' } : Model).bindLevels name levels := by
  induction levels with
  | nil => rfl
  | cons level levels ih =>
    have hlevel : ({ table, outline := o } : Model).bindLevel name level =
        ({ table, outline := o' } : Model).bindLevel name level := rfl
    rw [bindLevels, bindLevels, hlevel, ih]

/-- **Files that agree around an offset agree in what every name means there.** -/
theorem lookup_congr (hlocals : Outline.visible offset o.locals = Outline.visible offset o'.locals)
    (htypes : o.types = o'.types)
    (hblocks : (o.blocks.filter (·.extent.contains offset)).map (·.key) =
      (o'.blocks.filter (·.extent.contains offset)).map (·.key))
    (husings : o.usings = o'.usings) (name : String) :
    ({ table, outline := o } : Model).lookup offset name =
      ({ table, outline := o' } : Model).lookup offset name := by
  have hinTypes : ({ table, outline := o } : Model).bindInTypes? offset name =
      ({ table, outline := o' } : Model).bindInTypes? offset name := by
    simp only [bindInTypes?, typesAround, htypes]
  have hbind : ({ table, outline := o } : Model).bind offset name =
      ({ table, outline := o' } : Model).bind offset name := by
    rw [bind, bind, bindLocal?_congr hlocals, hinTypes, levels_congr hblocks husings,
      bindLevels_congr]
  rw [lookup, lookup, hbind]

end Model

end Unqualify
