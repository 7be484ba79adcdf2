import Unqualify.Proofs.SymbolTable.Entity
import Unqualify.Proofs.SymbolTable.Outlines

/-!
# Declared types and the types that represent them

A declared type stands at a path: in a namespace and inside other types.  A type of the table
represents the path when it is found there, outermost type first, each one as a member of the
namespace or type around it (`SymbolTable.Represents`).

A type represents at most one path (`SymbolTable.Represents.unique`), and its full name is that of
the path.  Types are found by full name, so a declared path is represented as long as no other
declared path spells the full name of one of the types on the way
(`SymbolTable.MadeFrom.exists_represents`).  Of two paths that spell one full name, at most one is
represented (`SymbolTable.Represents.eq_of_fullName`); so two library types spelled alike cannot
both be (`SymbolTable.library_types_spelled_alike`).
-/

namespace Unqualify

open TypeDeclaration (pathsOf mem_pathsOf)

namespace SymbolTable

variable {t : SymbolTable}

/-- The type `id` stands at a path: it lives in the namespace of the path, its containers stand at
the paths around it, and it is found under its name in its container, or else in its namespace. -/
inductive Represents (t : SymbolTable) : TypePath → TypeId → Prop
  | topLevel {space name : String} {id : TypeId} {s : TypeSymbol} (hs : t.types[id]? = some s)
      (hspace : s.inNamespace = space) (hcont : s.container = none)
      (hmember : t.memberOf? (.nameSpace space) name = some (.type id)) :
      Represents t ⟨space, name, []⟩ id
  | nested {space name outer : String} {containers : List String} {c id : TypeId} {s : TypeSymbol}
      (hs : t.types[id]? = some s) (hspace : s.inNamespace = space) (hcont : s.container = some c)
      (hcontainer : Represents t ⟨space, outer, containers⟩ c)
      (hmember : t.memberOf? (.type c) name = some (.type id)) :
      Represents t ⟨space, name, outer :: containers⟩ id

namespace Represents

/-- A type that represents a path has its full name. -/
theorem fullName?_eq {p : TypePath} {id : TypeId} (h : t.Represents p id) (hwf : t.WellFormed) :
    t.fullName? id = some p.fullName := by
  induction h with
  | topLevel hs hspace hcont hmember =>
    rw [memberOf?_nameSpace_eq_type_iff, topLevelType?_eq_some_iff hwf] at hmember
    obtain ⟨s, hs, -, hname⟩ := hmember
    rw [fullName?, hs, Option.map_some, hname, TypePath.fullName_topLevel]
  | nested hs hspace hcont hcontainer hmember ih =>
    obtain ⟨owner, howner, ⟨inner, hinner, heq⟩ | heq⟩ := memberOf?_type_eq_some hmember
    · cases heq
      obtain ⟨s, hs, -, hname⟩ := (hwf.nested_eq_some_iff howner).1 hinner
      rw [fullName?, howner, Option.map_some, Option.some.injEq] at ih
      rw [fullName?, hs, Option.map_some, hname, ih, TypePath.fullName_nested]
    · cases heq

/-- **A type represents at most one path.** -/
theorem unique {p q : TypePath} {id : TypeId} (hp : t.Represents p id) (hq : t.Represents q id)
    (hwf : t.WellFormed) : p = q := by
  have hname : p.fullName = q.fullName :=
    Option.some.inj ((hp.fullName?_eq hwf).symm.trans (hq.fullName?_eq hwf))
  -- outwards: both paths have the same containers, since the type has only one
  induction hp generalizing q with
  | @topLevel space name id s hs hspace hcont _ =>
    cases hq with
    | @topLevel space' name' id s' hs' hspace' _ _ =>
      obtain rfl : s = s' := Option.some.inj (hs.symm.trans hs')
      obtain rfl : space = space' := hspace.symm.trans hspace'
      rw [TypePath.fullName_topLevel, TypePath.fullName_topLevel] at hname
      rw [Name.join_right_inj.1 hname]
    | nested hs' _ hcont' _ _ =>
      rw [Option.some.inj (hs.symm.trans hs'), hcont'] at hcont
      cases hcont
  | @nested space name outer containers c id s hs hspace hcont hcontainer _ ih =>
    cases hq with
    | topLevel hs' _ hcont' _ =>
      rw [Option.some.inj (hs.symm.trans hs'), hcont'] at hcont
      cases hcont
    | @nested space' name' outer' containers' c' id s' hs' _ hcont' hcontainer' _ =>
      obtain rfl : s = s' := Option.some.inj (hs.symm.trans hs')
      obtain rfl : c = c' := Option.some.inj (hcont.symm.trans hcont')
      have howner := ih hcontainer' (Option.some.inj
        ((hcontainer.fullName?_eq hwf).symm.trans (hcontainer'.fullName?_eq hwf)))
      rw [TypePath.fullName_nested, TypePath.fullName_nested, howner, String.append_right_inj]
        at hname
      cases howner
      rw [hname]

/-- **Of two paths that spell one full name, at most one is represented.** -/
theorem eq_of_fullName {p q : TypePath} {i j : TypeId} (hp : t.Represents p i)
    (hq : t.Represents q j) (hwf : t.WellFormed) (hname : p.fullName = q.fullName) : p = q := by
  have hi := hp.fullName?_eq hwf
  have hj := hq.fullName?_eq hwf
  rw [hwf.fullName?_eq_iff] at hi hj
  rw [hname, hj] at hi
  obtain rfl := Option.some.inj hi
  exact hp.unique hq hwf

end Represents

/-! ### Declared paths -/

/-- The full name of `p` is spelled by no other path. -/
def SpelledOnce (ps : List TypePath) (p : TypePath) : Prop :=
  ∀ q ∈ ps, q.fullName = p.fullName → q = p

instance (ps : List TypePath) (p : TypePath) : Decidable (SpelledOnce ps p) :=
  inferInstanceAs (Decidable (∀ q ∈ ps, _ → _))

/-- A declared path that no other one spells is that of a type. -/
theorem MadeFrom.exists_placedAt {ds : List TypeDeclaration} (h : MadeFrom ds t)
    (hwf : t.WellFormed) (henclosed : ∀ d ∈ ds, d.EnclosedIn ds) {p : TypePath}
    (hp : p ∈ pathsOf ds) (honce : SpelledOnce (pathsOf ds) p) :
    ∃ (id : TypeId) (s : TypeSymbol), t.types[id]? = some s ∧ t.PlacedAt s p := by
  obtain ⟨d, hd, rfl⟩ := TypeDeclaration.exists_path_eq henclosed hp
  obtain ⟨id, hid⟩ := h.found d hd
  obtain ⟨s, hs, hname⟩ := hwf.exists_of_byFullName hid
  obtain ⟨q, hq, hplaced⟩ := h.placed id s hs
  obtain rfl : q = d.path :=
    honce q hq (hplaced.fullName_eq.symm.trans (hname.trans d.fullName_path.symm))
  exact ⟨id, s, hs, hplaced⟩

/-- **A declared path is represented** if the full names on the way to it are spelled once. -/
theorem MadeFrom.exists_represents {ds : List TypeDeclaration} (h : MadeFrom ds t)
    (hwf : t.WellFormed) (henclosed : ∀ d ∈ ds, d.EnclosedIn ds) {p : TypePath}
    (hp : p ∈ pathsOf ds) (honce : ∀ q ∈ p.withContainers, SpelledOnce (pathsOf ds) q) :
    ∃ id, t.Represents p id := by
  obtain ⟨space, name, containers⟩ := p
  -- inwards, from the outermost type
  induction containers generalizing name with
  | nil =>
    obtain ⟨id, s, hs, hplaced⟩ :=
      h.exists_placedAt hwf henclosed hp (honce _ List.mem_cons_self)
    have hcont : s.container = none := (hplaced.container_eq_none_iff hwf hs).2 rfl
    refine ⟨id, .topLevel hs hplaced.inNamespace_eq hcont ?_⟩
    rw [memberOf?_nameSpace_eq_type_iff, topLevelType?_eq_some_iff hwf]
    exact ⟨s, hs, hcont, by rw [hplaced.fullName_eq, TypePath.fullName_topLevel]⟩
  | cons outer containers ih =>
    have hcontainer : ⟨space, outer, containers⟩ ∈ pathsOf ds := by
      obtain ⟨d, hd, heq⟩ := TypeDeclaration.exists_path_eq henclosed hp
      refine mem_pathsOf.2 ⟨d, hd, ?_⟩
      rw [heq]
      exact List.mem_cons_of_mem _ List.mem_cons_self
    obtain ⟨c, hc⟩ := ih outer hcontainer fun q hq => honce q (List.mem_cons_of_mem _ hq)
    obtain ⟨id, s, hs, hplaced⟩ :=
      h.exists_placedAt hwf henclosed hp (honce _ List.mem_cons_self)
    -- the container of the type has the full name that `c` has
    obtain ⟨c', hcont, hname⟩ : ∃ c', s.container = some c' ∧
        t.fullName? c' = some (TypePath.fullName ⟨space, outer, containers⟩) :=
      Option.bind_eq_some_iff.1 hplaced.container_eq
    obtain ⟨owner, howner, hfull⟩ := Option.map_eq_some_iff.1 hname
    obtain ⟨owner', howner', hfull'⟩ := Option.map_eq_some_iff.1 (hc.fullName?_eq hwf)
    obtain rfl := hwf.eq_of_fullName howner howner' (hfull.trans hfull'.symm)
    refine ⟨id, .nested hs hplaced.inNamespace_eq hcont hc ?_⟩
    have hnested : owner.nested[name]? = some id := by
      rw [hwf.nested_eq_some_iff howner]
      exact ⟨s, hs, hcont, by rw [hplaced.fullName_eq, TypePath.fullName_nested, hfull]⟩
    simp [memberOf?, howner, hnested]

/-- **Declared types are represented.**  Take any list of updates and any path that they declare,
outer types counted, such that no other declared path spells its full name or that of a type around
it.  Then a type of the table represents the path, it represents no other path, and its members are
those that the declarations of this path declare. -/
theorem declared_types_represented (updates : List Update) (p : TypePath)
    (hp : p ∈ pathsOf (declarations updates))
    (honce : ∀ q ∈ p.withContainers, SpelledOnce (pathsOf (declarations updates)) q) :
    ∃ (id : TypeId) (s : TypeSymbol),
      (build updates).types[id]? = some s ∧ (build updates).Represents p id ∧
      (∀ q, (build updates).Represents q id → q = p) ∧
      ∀ name, name ∈ s.members ↔
        ∃ d ∈ declarations updates, d.path = p ∧ name ∈ d.members := by
  have hmade := madeFrom_build updates
  have hwf := (reachable_build updates).wellFormed
  have henclosed (d : TypeDeclaration) (hd : d ∈ declarations updates) :
      d.EnclosedIn (declarations updates) :=
    Outline.enclosedIn_declarations (fun _ => regular_outlines) hd
  obtain ⟨id, hid⟩ := hmade.exists_represents hwf henclosed hp honce
  obtain ⟨s, hs, hname⟩ := Option.map_eq_some_iff.1 (hid.fullName?_eq hwf)
  refine ⟨id, s, hs, hid, fun q hq => hq.unique hid hwf, fun name => ?_⟩
  rw [hmade.members_iff id s hs]
  refine exists_congr fun d => and_congr_right fun hd => and_congr_left fun _ => ?_
  rw [hname, ← d.fullName_path]
  exact ⟨honce p List.mem_cons_self d.path (TypeDeclaration.path_mem_pathsOf hd),
    congrArg TypePath.fullName⟩

/-- A nested library type is represented next to a type of its simple name in its namespace. -/
theorem nested_library_type_represented :
    let updates := [.library "N.A+B", .library "N.B"]
    let p : TypePath := { inNamespace := "N", name := "B", containers := ["A"] }
    p ∈ pathsOf (declarations updates) ∧
      (∀ q ∈ p.withContainers, SpelledOnce (pathsOf (declarations updates)) q) ∧
      ∃ (id : TypeId) (s : TypeSymbol),
        (build updates).types[id]? = some s ∧ (build updates).Represents p id ∧
        (∀ q, (build updates).Represents q id → q = p) ∧
        ∀ name, name ∈ s.members ↔
          ∃ d ∈ declarations updates, d.path = p ∧ name ∈ d.members := by
  intro updates p
  have hp : p ∈ pathsOf (declarations updates) := by decide +kernel
  have honce : ∀ q ∈ p.withContainers, SpelledOnce (pathsOf (declarations updates)) q := by
    decide +kernel
  exact ⟨hp, honce, declared_types_represented updates p hp honce⟩

/-- Library types spelled alike: a type `B` in a type `A` takes the place of the type `B` in the
namespace `A`, which is declared but not represented. -/
theorem library_types_spelled_alike :
    let updates := [.library "A+B", .library "A.B"]
    let p : TypePath := { inNamespace := "A", name := "B", containers := [] }
    p ∈ pathsOf (declarations updates) ∧ ¬∃ id, (build updates).Represents p id := by
  intro updates p
  have hnone : (build updates).memberOf? (.nameSpace "A") "B" = none := by decide +kernel
  refine ⟨by decide +kernel, ?_⟩
  rintro ⟨id, hid⟩
  change (build updates).Represents ⟨"A", "B", []⟩ id at hid
  cases hid with
  | topLevel _ _ _ hmember =>
    rw [hnone] at hmember
    cases hmember

end SymbolTable

end Unqualify
