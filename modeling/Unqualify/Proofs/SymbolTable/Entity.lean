import Unqualify.Proofs.SymbolTable.Step

/-!
# Entities of a well-formed table

The rule only sees descriptions of entities.  In a well-formed table the description of a type
directly inside a namespace determines the type (`SymbolTable.eq_of_describe_eq`), and such a
type, like a namespace, is reached through a namespace only, never through another type
(`SymbolTable.exists_nameSpace_of_memberOf?`).
-/

namespace Unqualify

namespace SymbolTable

variable {t : SymbolTable}

/-- A type that is reached through a namespace: it has no container. -/
def IsTopLevel (t : SymbolTable) (e : Entity) : Prop :=
  ∃ id s, e = .type id ∧ t.types[id]? = some s ∧ s.container = none

theorem describe_type {id : TypeId} {s : TypeSymbol} (hs : t.types[id]? = some s) :
    t.describe (.type id) =
      { kind := .namedType, fullName := s.fullName, containingType := s.container.bind t.fullName?,
        containingNamespace := s.inNamespace } := by
  rw [describe, hs]

/-- The rule recognises the types without a container by their description. -/
theorem isNamespacedType_describe_iff (h : t.WellFormed) {e : Entity} :
    (t.describe e).isNamespacedType = true ↔ t.IsTopLevel e := by
  cases e with
  | localName name => simp [describe, Symbol.isNamespacedType, IsTopLevel]
  | nameSpace name => simp [describe, Symbol.isNamespacedType, IsTopLevel]
  | member owner name =>
    cases ho : t.types[owner]? <;>
      simp [describe, ho, Symbol.isNamespacedType, Symbol.unknown, IsTopLevel]
  | type id =>
    cases hs : t.types[id]? with
    | none => simp [describe, hs, Symbol.isNamespacedType, Symbol.unknown, IsTopLevel]
    | some s =>
      rw [describe_type hs]
      cases hc : s.container with
      | none => simp [Symbol.isNamespacedType, IsTopLevel, hs, hc]
      | some c =>
        -- the container is in the table, so the description names it
        obtain ⟨-, p, -, hp, -, -⟩ := h.nested_of_container id c s hs hc
        simp [Symbol.isNamespacedType, IsTopLevel, hs, hc, fullName?, hp]

/-- **A description determines a top-level type.** -/
theorem eq_of_describe_eq (h : t.WellFormed) {a b : Entity} (ha : t.IsTopLevel a)
    (heq : t.describe b = t.describe a) : b = a := by
  have hb : t.IsTopLevel b := by
    rw [← isNamespacedType_describe_iff h] at ha ⊢
    rw [heq]
    exact ha
  obtain ⟨i, s, rfl, hs, -⟩ := ha
  obtain ⟨j, s', rfl, hs', -⟩ := hb
  rw [describe_type hs, describe_type hs'] at heq
  rw [h.eq_of_fullName hs' hs (congrArg Symbol.fullName heq)]

/-- Nested types are the types with that container, under the name that their full name adds to
it. -/
theorem WellFormed.nested_eq_some_iff (h : t.WellFormed) {c id : TypeId} {p : TypeSymbol}
    (hp : t.types[c]? = some p) {name : String} :
    p.nested[name]? = some id ↔ ∃ s, t.types[id]? = some s ∧ s.container = some c ∧
      s.fullName = p.fullName ++ "." ++ name := by
  constructor
  · exact h.container_of_nested c id p name hp
  · rintro ⟨s, hs, hcont, hname⟩
    obtain ⟨-, p', name', hp', hname', hnested⟩ := h.nested_of_container id c s hs hcont
    obtain rfl : p = p' := Option.some.inj (hp.symm.trans hp')
    obtain rfl : name = name' := String.append_right_inj _ |>.1 (hname.symm.trans hname')
    exact hnested

/-- A type directly in a namespace is a type without container, found under the joined name. -/
theorem topLevelType?_eq_some_iff (h : t.WellFormed) {space name : String} {id : TypeId} :
    t.topLevelType? space name = some id ↔
      ∃ s, t.types[id]? = some s ∧ s.container = none ∧ s.fullName = Name.join space name := by
  simp only [topLevelType?, Option.bind_eq_bind, Option.bind_eq_some_iff]
  constructor
  · rintro ⟨id', hid', s, hs, hsome⟩
    split_ifs at hsome with hcont
    obtain rfl := Option.some.inj hsome
    obtain ⟨s', hs', hname⟩ := h.exists_of_byFullName hid'
    obtain rfl : s = s' := Option.some.inj (hs.symm.trans hs')
    exact ⟨s, hs, Option.isNone_iff_eq_none.1 hcont, hname⟩
  · rintro ⟨s, hs, hcont, hname⟩
    exact ⟨id, (h.byFullName_iff _ id).2 ⟨s, hs, hname⟩, s, hs, by rw [hcont]; rfl⟩

theorem memberOf?_nameSpace_eq_type_iff {space name : String} {id : TypeId} :
    t.memberOf? (.nameSpace space) name = some (.type id) ↔
      t.topLevelType? space name = some id := by
  rw [memberOf?]
  cases t.topLevelType? space name with
  | some id' => simp
  | none => simp

theorem memberOf?_type_eq_some {id : TypeId} {name : String} {e : Entity}
    (hm : t.memberOf? (.type id) name = some e) :
    ∃ p, t.types[id]? = some p ∧
      ((∃ inner, p.nested[name]? = some inner ∧ e = .type inner) ∨ e = .member id name) := by
  simp only [memberOf?, Option.bind_eq_bind, Option.bind_eq_some_iff] at hm
  obtain ⟨p, hp, hm⟩ := hm
  refine ⟨p, hp, ?_⟩
  split at hm
  · next inner hinner => exact Or.inl ⟨inner, hinner, (Option.some.inj hm).symm⟩
  · split_ifs at hm
    exact Or.inr (Option.some.inj hm).symm

/-- **Namespaces and top-level types are reached through namespaces only.** -/
theorem exists_nameSpace_of_memberOf? (h : t.WellFormed) {e e' : Entity} {name : String}
    (hm : t.memberOf? e name = some e')
    (he' : (∃ space, e' = .nameSpace space) ∨ t.IsTopLevel e') : ∃ space, e = .nameSpace space := by
  cases e with
  | nameSpace space => exact ⟨space, rfl⟩
  | localName x => simp [memberOf?] at hm
  | member owner x => simp [memberOf?] at hm
  | type id =>
    exfalso
    obtain ⟨p, hp, ⟨inner, hinner, rfl⟩ | rfl⟩ := memberOf?_type_eq_some hm
    · -- a nested type has a container
      obtain ⟨s, hs, hc, -⟩ := h.container_of_nested id inner p name hp hinner
      rcases he' with ⟨space, he'⟩ | ⟨inner', s', he', hs', hc'⟩
      · cases he'
      · cases he'
        rw [hs] at hs'
        cases hs'
        rw [hc] at hc'
        cases hc'
    · rcases he' with ⟨space, he'⟩ | ⟨inner', s', he', -, -⟩ <;> cases he'

end SymbolTable

end Unqualify
