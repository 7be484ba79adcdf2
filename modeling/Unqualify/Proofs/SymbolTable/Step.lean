import Unqualify.Proofs.Name
import Unqualify.SymbolTable.Entity
import Mathlib.Logic.Relation

/-!
# How a symbol table grows

Whatever is merged into a table, the table changes by three elementary steps (`SymbolTable.Step`):
a namespace is declared, a type of a new full name is added below a container that is already
there, or a type gets members.  A table that comes from another one by such steps is one it
`Grows` to.

`SymbolTable.WellFormed` collects what holds between the types, the index by full name and the
namespaces of a table, and `SymbolTable.Step.wellFormed` says that every step preserves it.
-/

namespace Unqualify

/-- A type with one more nested type, provided that `isContainer` holds. -/
def TypeSymbol.withNested (s : TypeSymbol) (name : String) (id : TypeId) (isContainer : Prop)
    [Decidable isContainer] : TypeSymbol :=
  { s with nested := if isContainer then s.nested.insert name id else s.nested }

theorem TypeSymbol.nested_withNested (s : TypeSymbol) (name : String) (id : TypeId)
    (isContainer : Prop) [Decidable isContainer] (inner : String) :
    (s.withNested name id isContainer).nested[inner]? =
      if isContainer ∧ name = inner then some id else s.nested[inner]? := by
  by_cases h : isContainer <;> simp [withNested, h, Std.ExtTreeMap.getElem?_insert]

namespace SymbolTable

variable {t t' : SymbolTable}

/-- The full name that a type called `name` gets: below its container, or directly in its
namespace. -/
def nameBelow? (t : SymbolTable) (inNamespace name : String) : Option TypeId → Option String
  | none => some (Name.join inNamespace name)
  | some c => (t.fullName? c).map (· ++ "." ++ name)

/-- One elementary change of a table. -/
inductive Step (t : SymbolTable) : SymbolTable → Prop
  /-- A namespace is declared. -/
  | declareNamespace (name : String) : Step t (t.declareNamespace name)
  /-- A type is added under a full name that was free; its namespace is declared. -/
  | addType (inNamespace fullName name : String) (container : Option TypeId)
      (fresh : t.byFullName[fullName]? = none)
      (placed : t.nameBelow? inNamespace name container = some fullName)
      (declared : Name.Proper inNamespace → inNamespace ∈ t.namespaces) :
      Step t (t.addType inNamespace fullName name container)
  /-- A type gets members. -/
  | addMembers (id : TypeId) (members : List String) : Step t (t.addMembers id members)

/-- A table comes from another one by elementary changes. -/
def Grows (t t' : SymbolTable) : Prop := Relation.ReflTransGen Step t t'

/-- What holds between the parts of a table. -/
structure WellFormed (t : SymbolTable) : Prop where
  /-- The index maps a full name to a number exactly when the type of that number has it. -/
  byFullName_iff : ∀ (fullName : String) (id : TypeId),
    t.byFullName[fullName]? = some id ↔ ∃ s, t.types[id]? = some s ∧ s.fullName = fullName
  /-- A type with a container comes after it, extends its full name by one name, and is listed
  under that name among its nested types. -/
  nested_of_container : ∀ (id c : TypeId) (s : TypeSymbol),
    t.types[id]? = some s → s.container = some c →
      c < id ∧ ∃ p name, t.types[c]? = some p ∧ s.fullName = p.fullName ++ "." ++ name ∧
        p.nested[name]? = some id
  /-- A nested type has the type that lists it as its container and extends its full name by
  the name it is listed under. -/
  container_of_nested : ∀ (c id : TypeId) (p : TypeSymbol) (name : String),
    t.types[c]? = some p → p.nested[name]? = some id →
      ∃ s, t.types[id]? = some s ∧ s.container = some c ∧
        s.fullName = p.fullName ++ "." ++ name
  /-- No namespace has an empty segment. -/
  proper_of_mem : ∀ space ∈ t.namespaces, Name.Proper space
  /-- With a namespace, the namespace around it is there. -/
  parent_mem : ∀ space ∈ t.namespaces, 1 < (Name.segments space).length →
    Name.parent space ∈ t.namespaces
  /-- The namespace of every type is there, unless it has an empty segment. -/
  inNamespace_mem : ∀ (id : TypeId) (s : TypeSymbol), t.types[id]? = some s →
    Name.Proper s.inNamespace → s.inNamespace ∈ t.namespaces

/-! ### What a step changes -/

theorem mem_foldl_insert (names : List String) (set : NameSet) (x : String) :
    x ∈ names.foldl (·.insert ·) set ↔ x ∈ names ∨ x ∈ set := by
  induction names generalizing set with
  | nil => simp
  | cons name names ih =>
    rw [List.foldl_cons, ih, Std.ExtTreeSet.mem_insert, Std.LawfulEqOrd.compare_eq_iff_eq,
      List.mem_cons, eq_comm]
    tauto

@[simp] theorem mem_namespaces_declareNamespace {name space : String} :
    space ∈ (t.declareNamespace name).namespaces ↔
      space ∈ Name.withParents name ∨ space ∈ t.namespaces :=
  mem_foldl_insert _ _ _

@[simp] theorem types_declareNamespace (name : String) :
    (t.declareNamespace name).types = t.types := rfl

@[simp] theorem byFullName_declareNamespace (name : String) :
    (t.declareNamespace name).byFullName = t.byFullName := rfl

@[simp] theorem namespaces_addType (inNamespace fullName name : String)
    (container : Option TypeId) :
    (t.addType inNamespace fullName name container).namespaces = t.namespaces := rfl

theorem byFullName_addType (inNamespace fullName name : String) (container : Option TypeId)
    (q : String) :
    (t.addType inNamespace fullName name container).byFullName[q]? =
      if fullName = q then some t.types.size else t.byFullName[q]? := by
  simp only [addType, Std.ExtTreeMap.getElem?_insert, Std.LawfulEqOrd.compare_eq_iff_eq]

theorem exists_of_nameBelow? {inNamespace name fullName : String} {c : TypeId}
    (h : t.nameBelow? inNamespace name (some c) = some fullName) :
    ∃ p, t.types[c]? = some p ∧ fullName = p.fullName ++ "." ++ name := by
  simp only [nameBelow?, fullName?, Option.map_map, Option.map_eq_some_iff] at h
  obtain ⟨p, hp, rfl⟩ := h
  exact ⟨p, hp, rfl⟩

theorem lt_size_of_nameBelow? {inNamespace name fullName : String} {c : TypeId}
    (h : t.nameBelow? inNamespace name (some c) = some fullName) : c < t.types.size := by
  obtain ⟨p, hp, -⟩ := exists_of_nameBelow? h
  exact (Array.getElem?_eq_some_iff.1 hp).1

/-- An added type has the next number; of the others, only its container changes. -/
theorem types_addType {inNamespace fullName name : String} {container : Option TypeId}
    (placed : t.nameBelow? inNamespace name container = some fullName) (id : TypeId) :
    (t.addType inNamespace fullName name container).types[id]? =
      if id = t.types.size then
        some { inNamespace, container, fullName, members := ∅, nested := ∅ }
      else
        t.types[id]?.map (·.withNested name t.types.size (container = some id)) := by
  cases container with
  | none => simp [addType, Array.getElem?_push, TypeSymbol.withNested]
  | some c =>
    have hc := lt_size_of_nameBelow? placed
    simp only [addType, Array.getElem?_modify, Array.getElem?_push, Option.some.injEq]
    by_cases hid : id = t.types.size
    · simp [hid, Nat.ne_of_lt hc]
    · by_cases hcid : c = id <;> simp [hid, hcid, TypeSymbol.withNested]

theorem types_addType_size {inNamespace fullName name : String} {container : Option TypeId}
    (placed : t.nameBelow? inNamespace name container = some fullName) :
    (t.addType inNamespace fullName name container).types[t.types.size]? =
      some { inNamespace, container, fullName, members := ∅, nested := ∅ } :=
  (types_addType placed t.types.size).trans (if_pos rfl)

theorem types_addType_of_some {inNamespace fullName name : String} {container : Option TypeId}
    (placed : t.nameBelow? inNamespace name container = some fullName) {id : TypeId}
    {s : TypeSymbol} (hs : t.types[id]? = some s) :
    (t.addType inNamespace fullName name container).types[id]? =
      some (s.withNested name t.types.size (container = some id)) := by
  have hlt := (Array.getElem?_eq_some_iff.1 hs).1
  rw [types_addType placed, if_neg (Nat.ne_of_lt hlt), hs]
  rfl

/-- A type of the larger table is the added one or one that was there before. -/
theorem types_addType_cases {inNamespace fullName name : String} {container : Option TypeId}
    (placed : t.nameBelow? inNamespace name container = some fullName) {id : TypeId}
    {s' : TypeSymbol}
    (hs' : (t.addType inNamespace fullName name container).types[id]? = some s') :
    (id = t.types.size ∧ s' = { inNamespace, container, fullName, members := ∅, nested := ∅ }) ∨
      ∃ s, t.types[id]? = some s ∧
        s' = s.withNested name t.types.size (container = some id) := by
  by_cases hid : id = t.types.size
  · subst hid
    exact Or.inl ⟨rfl, Option.some.inj (hs'.symm.trans (types_addType_size placed))⟩
  · rw [types_addType placed, if_neg hid] at hs'
    obtain ⟨s, hs, rfl⟩ := Option.map_eq_some_iff.1 hs'
    exact Or.inr ⟨s, hs, rfl⟩

@[simp] theorem namespaces_addMembers (id : TypeId) (members : List String) :
    (t.addMembers id members).namespaces = t.namespaces := rfl

@[simp] theorem byFullName_addMembers (id : TypeId) (members : List String) :
    (t.addMembers id members).byFullName = t.byFullName := rfl

/-- Members are added to one type and nothing else of it changes. -/
theorem types_addMembers (id : TypeId) (members : List String) (j : TypeId) :
    (t.addMembers id members).types[j]? = t.types[j]?.map fun s =>
      { s with members := if id = j then members.foldl (·.insert ·) s.members else s.members } := by
  simp only [addMembers, Array.getElem?_modify]
  by_cases h : id = j <;> simp [h]

theorem types_addMembers_of_some {id j : TypeId} {members : List String} {s : TypeSymbol}
    (hs : t.types[j]? = some s) :
    ∃ names, (t.addMembers id members).types[j]? = some { s with members := names } :=
  ⟨_, by rw [types_addMembers, hs]; rfl⟩

theorem types_addMembers_cases {id j : TypeId} {members : List String} {s' : TypeSymbol}
    (hs' : (t.addMembers id members).types[j]? = some s') :
    ∃ s names, t.types[j]? = some s ∧ s' = { s with members := names } := by
  rw [types_addMembers] at hs'
  obtain ⟨s, hs, rfl⟩ := Option.map_eq_some_iff.1 hs'
  exact ⟨s, _, hs, rfl⟩

/-! ### The invariant -/

theorem wellFormed_empty : empty.WellFormed := by
  constructor <;> simp [empty]

namespace WellFormed

/-- A number found under a full name is the number of a type. -/
theorem exists_of_byFullName (h : t.WellFormed) {fullName : String} {id : TypeId}
    (hid : t.byFullName[fullName]? = some id) :
    ∃ s, t.types[id]? = some s ∧ s.fullName = fullName :=
  (h.byFullName_iff fullName id).1 hid

/-- Two types of one full name are the same type. -/
theorem eq_of_fullName (h : t.WellFormed) {i j : TypeId} {s s' : TypeSymbol}
    (hi : t.types[i]? = some s) (hj : t.types[j]? = some s') (hname : s.fullName = s'.fullName) :
    i = j := by
  have hbi := (h.byFullName_iff s'.fullName i).2 ⟨s, hi, hname⟩
  have hbj := (h.byFullName_iff s'.fullName j).2 ⟨s', hj, rfl⟩
  exact Option.some.inj (hbi.symm.trans hbj)

theorem declareNamespace (h : t.WellFormed) (name : String) :
    (t.declareNamespace name).WellFormed where
  byFullName_iff := h.byFullName_iff
  nested_of_container := h.nested_of_container
  container_of_nested := h.container_of_nested
  proper_of_mem := by
    intro space hspace
    rcases mem_namespaces_declareNamespace.1 hspace with hnew | hold
    · exact Name.proper_of_mem_withParents hnew
    · exact h.proper_of_mem space hold
  parent_mem := by
    intro space hspace hlen
    rw [mem_namespaces_declareNamespace] at hspace ⊢
    rcases hspace with hnew | hold
    · exact Or.inl (Name.parent_mem_withParents hnew hlen)
    · exact Or.inr (h.parent_mem space hold hlen)
  inNamespace_mem := by
    intro id s hs hproper
    exact mem_namespaces_declareNamespace.2 (Or.inr (h.inNamespace_mem id s hs hproper))

/-- The members of the types play no part in the invariant. -/
theorem addMembers (h : t.WellFormed) (id : TypeId) (members : List String) :
    (t.addMembers id members).WellFormed where
  byFullName_iff := by
    intro q j
    rw [byFullName_addMembers, h.byFullName_iff]
    constructor
    · rintro ⟨s, hs, rfl⟩
      obtain ⟨names, hs'⟩ := types_addMembers_of_some hs
      exact ⟨_, hs', rfl⟩
    · rintro ⟨s', hs', rfl⟩
      obtain ⟨s, names, hs, rfl⟩ := types_addMembers_cases hs'
      exact ⟨s, hs, rfl⟩
  nested_of_container := by
    intro j c s' hs' hcont
    obtain ⟨s, names, hs, rfl⟩ := types_addMembers_cases hs'
    obtain ⟨hlt, p, name, hp, hname, hnested⟩ := h.nested_of_container j c s hs hcont
    obtain ⟨names', hp'⟩ := types_addMembers_of_some hp
    exact ⟨hlt, _, name, hp', hname, hnested⟩
  container_of_nested := by
    intro c j p' name hp' hnested
    obtain ⟨p, names, hp, rfl⟩ := types_addMembers_cases hp'
    obtain ⟨s, hs, hcont, hname⟩ := h.container_of_nested c j p name hp hnested
    obtain ⟨names', hs'⟩ := types_addMembers_of_some hs
    exact ⟨_, hs', hcont, hname⟩
  proper_of_mem := h.proper_of_mem
  parent_mem := h.parent_mem
  inNamespace_mem := by
    intro j s' hs' hproper
    obtain ⟨s, names, hs, rfl⟩ := types_addMembers_cases hs'
    exact h.inNamespace_mem j s hs hproper

theorem fullName_ne_of_fresh (h : t.WellFormed) {fullName : String}
    (fresh : t.byFullName[fullName]? = none) {id : TypeId} {s : TypeSymbol}
    (hs : t.types[id]? = some s) : s.fullName ≠ fullName := by
  rintro rfl
  rw [(h.byFullName_iff s.fullName id).2 ⟨s, hs, rfl⟩] at fresh
  cases fresh

theorem addType (h : t.WellFormed) {inNamespace fullName name : String}
    {container : Option TypeId} (fresh : t.byFullName[fullName]? = none)
    (placed : t.nameBelow? inNamespace name container = some fullName)
    (declared : Name.Proper inNamespace → inNamespace ∈ t.namespaces) :
    (t.addType inNamespace fullName name container).WellFormed where
  byFullName_iff := by
    intro q id
    rw [byFullName_addType]
    by_cases hq : fullName = q
    · -- the new name belongs to the new type and to none that was there
      subst hq
      rw [if_pos rfl, Option.some.injEq]
      constructor
      · rintro rfl
        exact ⟨_, types_addType_size placed, rfl⟩
      · rintro ⟨s', hs', hname⟩
        rcases types_addType_cases placed hs' with ⟨rfl, -⟩ | ⟨s, hs, rfl⟩
        · rfl
        · exact (h.fullName_ne_of_fresh fresh hs hname).elim
    · rw [if_neg hq, h.byFullName_iff]
      constructor
      · rintro ⟨s, hs, rfl⟩
        exact ⟨_, types_addType_of_some placed hs, rfl⟩
      · rintro ⟨s', hs', hname⟩
        rcases types_addType_cases placed hs' with ⟨-, rfl⟩ | ⟨s, hs, rfl⟩
        · exact absurd hname hq
        · exact ⟨s, hs, hname⟩
  nested_of_container := by
    intro id c s' hs' hcont
    rcases types_addType_cases placed hs' with ⟨rfl, rfl⟩ | ⟨s, hs, rfl⟩
    · -- the new type: its container lists it last
      obtain rfl : container = some c := hcont
      obtain ⟨p, hp, hname⟩ := exists_of_nameBelow? placed
      refine ⟨lt_size_of_nameBelow? placed, _, name, types_addType_of_some placed hp, hname, ?_⟩
      simp [TypeSymbol.nested_withNested]
    · obtain ⟨hlt, p, inner, hp, hname, hnested⟩ := h.nested_of_container id c s hs hcont
      refine ⟨hlt, _, inner, types_addType_of_some placed hp, hname, ?_⟩
      -- the new type is listed under another name, or its full name would not be free
      rw [TypeSymbol.nested_withNested, if_neg, hnested]
      rintro ⟨rfl, rfl⟩
      obtain ⟨p', hp', hname'⟩ := exists_of_nameBelow? placed
      obtain rfl : p = p' := Option.some.inj (hp.symm.trans hp')
      exact h.fullName_ne_of_fresh fresh hs (hname.trans hname'.symm)
  container_of_nested := by
    intro c id p' inner hp' hnested
    rcases types_addType_cases placed hp' with ⟨-, rfl⟩ | ⟨p, hp, rfl⟩
    · simp at hnested
    · rw [TypeSymbol.nested_withNested] at hnested
      split_ifs at hnested with hcase
      · -- the entry is the one that was just made
        obtain ⟨rfl, rfl⟩ := hcase
        obtain rfl := Option.some.inj hnested
        obtain ⟨p', hp', hname⟩ := exists_of_nameBelow? placed
        obtain rfl : p = p' := Option.some.inj (hp.symm.trans hp')
        exact ⟨_, types_addType_size placed, rfl, hname⟩
      · obtain ⟨s, hs, hcont, hname⟩ := h.container_of_nested c id p inner hp hnested
        exact ⟨_, types_addType_of_some placed hs, hcont, hname⟩
  proper_of_mem := h.proper_of_mem
  parent_mem := h.parent_mem
  inNamespace_mem := by
    intro id s' hs' hproper
    rcases types_addType_cases placed hs' with ⟨-, rfl⟩ | ⟨s, hs, rfl⟩
    · exact declared hproper
    · exact h.inNamespace_mem id s hs hproper

end WellFormed

/-- **Every step preserves the invariant.** -/
theorem Step.wellFormed (hstep : Step t t') (h : t.WellFormed) : t'.WellFormed := by
  cases hstep with
  | declareNamespace name => exact h.declareNamespace name
  | addType _ _ _ _ fresh placed declared => exact h.addType fresh placed declared
  | addMembers id members => exact h.addMembers id members

/-- What a step preserves, growth preserves. -/
theorem Grows.invariant {I : SymbolTable → Prop} (hgrows : Grows t t') (h : I t)
    (hstep : ∀ t t', Step t t' → I t → I t') : I t' := by
  induction hgrows with
  | refl => exact h
  | tail _ hlast ih => exact hstep _ _ hlast ih

theorem Grows.wellFormed (hgrows : Grows t t') (h : t.WellFormed) : t'.WellFormed :=
  hgrows.invariant h fun _ _ hstep => hstep.wellFormed

end SymbolTable

end Unqualify
