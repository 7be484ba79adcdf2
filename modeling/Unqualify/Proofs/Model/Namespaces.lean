import Unqualify.Model
import Mathlib.Data.List.Basic

/-!
# Namespaces that names denote

Whatever way a name is bound, through the types around it, the namespaces around it or a directive:
when it denotes a namespace, that namespace is one of the table
(`Model.mem_namespaces_of_entityOf?`).  The global namespace is never denoted; it only stands left
of the first name of a path.
-/

namespace Unqualify

namespace SymbolTable

variable {t : SymbolTable}

theorem childNamespace?_eq_some_iff {space name child : String} :
    t.childNamespace? space name = some child ↔
      Name.join space name = child ∧ child ∈ t.namespaces := by
  simp only [childNamespace?, Option.ite_none_right_eq_some, Option.some.injEq,
    Std.ExtTreeSet.contains_iff_mem]
  constructor
  · rintro ⟨hmem, rfl⟩
    exact ⟨rfl, hmem⟩
  · rintro ⟨rfl, hmem⟩
    exact ⟨hmem, rfl⟩

theorem mem_namespaces_of_memberOf? {e : Entity} {name space : String}
    (h : t.memberOf? e name = some (.nameSpace space)) : space ∈ t.namespaces := by
  cases e with
  | nameSpace outer =>
    rw [memberOf?] at h
    split at h
    · cases h
    · obtain ⟨child, hchild, heq⟩ := Option.map_eq_some_iff.1 h
      cases heq
      exact (childNamespace?_eq_some_iff.1 hchild).2
  | type id =>
    simp only [memberOf?, Option.bind_eq_bind, Option.bind_eq_some_iff] at h
    obtain ⟨s, -, h⟩ := h
    split at h
    · cases h
    · split_ifs at h
      cases h
  | localName x => cases h
  | member owner x => cases h

theorem mem_namespaces_of_follow? {e : Entity} {names : List String} {space : String}
    (hne : names ≠ []) (h : t.follow? e names = some (.nameSpace space)) :
    space ∈ t.namespaces := by
  induction names generalizing e with
  | nil => exact absurd rfl hne
  | cons name names ih =>
    rw [follow?, Option.bind_eq_some_iff] at h
    obtain ⟨e', he', h⟩ := h
    cases names with
    | nil =>
      cases h
      exact mem_namespaces_of_memberOf? he'
    | cons name' names' => exact ih (List.cons_ne_nil _ _) h

theorem mem_namespaces_of_resolvePath? {path space : String}
    (h : t.resolvePath? path = some (.nameSpace space)) : space ∈ t.namespaces :=
  mem_namespaces_of_follow? (by simp [Name.segments, Text.split, Text.splitAt_ne_nil]) h

end SymbolTable

namespace Model

variable {m : Model}

theorem mem_namespaces_of_bindAlias? {usings : List Using} {name space : String}
    (h : m.bindAlias? usings name = some (.nameSpace space)) : space ∈ m.table.namespaces := by
  obtain ⟨u, -, hu⟩ := List.exists_of_findSome?_eq_some h
  obtain ⟨target, -, htarget⟩ := Option.bind_eq_some_iff.1 hu
  exact SymbolTable.mem_namespaces_of_resolvePath? htarget

theorem mem_namespaces_of_imported? {u : Using} {name space : String}
    (h : m.imported? name u = some (.nameSpace space)) : space ∈ m.table.namespaces := by
  cases u with
  | aliasOf aliasName target => cases h
  | types path =>
    obtain ⟨id, -, heq⟩ := Option.map_eq_some_iff.1 h
    cases heq
  | members path =>
    rw [imported?] at h
    split at h
    · exact SymbolTable.mem_namespaces_of_memberOf? h
    · cases h

theorem mem_namespaces_of_bindUsings {usings : List Using} {name space : String}
    (h : m.bindUsings usings name = .found (.nameSpace space)) : space ∈ m.table.namespaces := by
  rw [bindUsings] at h
  split at h
  · next entity halias =>
    cases h
    exact mem_namespaces_of_bindAlias? halias
  · split at h
    · cases h
    · next entity hentities =>
      cases h
      have hmem : Entity.nameSpace space ∈ usings.filterMap (m.imported? name) := by
        rw [← List.mem_eraseDups, hentities]
        exact List.mem_singleton_self _
      obtain ⟨u, -, hu⟩ := List.mem_filterMap.1 hmem
      exact mem_namespaces_of_imported? hu
    · cases h

theorem mem_namespaces_of_bindLevel {level : Level} {name space : String}
    (h : m.bindLevel name level = .found (.nameSpace space)) : space ∈ m.table.namespaces := by
  rw [bindLevel] at h
  split at h
  · cases h
  · split at h
    · next hchild =>
      cases h
      exact (SymbolTable.childNamespace?_eq_some_iff.1 hchild).2
    · exact mem_namespaces_of_bindUsings h

theorem mem_namespaces_of_bindLevels {levels : List Level} {name space : String}
    (h : m.bindLevels name levels = .found (.nameSpace space)) : space ∈ m.table.namespaces := by
  induction levels with
  | nil => cases h
  | cons level levels ih =>
    rw [bindLevels] at h
    split at h
    · exact ih h
    · exact mem_namespaces_of_bindLevel h

theorem mem_namespaces_of_bind {offset : Nat} {name space : String}
    (h : m.bind offset name = .found (.nameSpace space)) : space ∈ m.table.namespaces := by
  rw [bind] at h
  split at h
  · next entity hentity =>
    cases h
    rcases Option.or_eq_some_iff.1 hentity with hlocal | ⟨-, hmember⟩
    · rw [bindLocal?] at hlocal
      split_ifs at hlocal
      cases hlocal
    · obtain ⟨d, -, hd⟩ := List.exists_of_findSome?_eq_some hmember
      obtain ⟨id, -, hid⟩ := Option.bind_eq_some_iff.1 hd
      exact SymbolTable.mem_namespaces_of_memberOf? hid
  · exact mem_namespaces_of_bindLevels h

/-- **A namespace that an expression denotes is one of the table.** -/
theorem mem_namespaces_of_entityOf? {e : Expression} {space : String}
    (h : m.entityOf? e = some (.nameSpace space)) : space ∈ m.table.namespaces := by
  cases e with
  | identifier name =>
    rw [entityOf?] at h
    split at h
    · next hfound =>
      cases h
      exact mem_namespaces_of_bind hfound
    · cases h
  | access left form =>
    rw [entityOf?, Option.bind_eq_some_iff] at h
    obtain ⟨owner, -, hmember⟩ := h
    exact SymbolTable.mem_namespaces_of_memberOf? hmember
  | aliased aliasName name span =>
    rw [entityOf?, bindAliased?] at h
    split_ifs at h
    · exact SymbolTable.mem_namespaces_of_memberOf? (e := .nameSpace "") h
    · obtain ⟨root, -, hmember⟩ := Option.bind_eq_some_iff.1 h
      exact SymbolTable.mem_namespaces_of_memberOf? hmember
  | other children span => cases h

end Model

end Unqualify
