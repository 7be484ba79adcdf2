import Unqualify.Proofs.SymbolTable.Build

/-!
# What a table contains

Which types a table has, where they stand and which members they have is determined by the type
declarations it was made from, one after the other (`SymbolTable.MadeFrom`):

* every declared type is found under its full name;
* every type stands at a declared path, in its namespace and inside its containers.  Of several
  declarations that spell one full name in different places, one of them has decided;
* its members are those of all declarations that spell its full name.
-/

namespace Unqualify

/-- Where a type stands: in a namespace, and inside other types. -/
structure TypePath where
  /-- Namespace; empty for the global one. -/
  inNamespace : String
  /-- Simple name. -/
  name : String
  /-- Simple names of the enclosing types, innermost first. -/
  containers : List String
  deriving DecidableEq

namespace TypePath

/-- The full name of the type at a path. -/
def fullName (p : TypePath) : String :=
  SymbolTable.fullNameOf p.inNamespace (p.name :: p.containers)

theorem fullName_topLevel (space name : String) :
    fullName ⟨space, name, []⟩ = Name.join space name := by
  simp [fullName, SymbolTable.fullNameOf, Name.ofSegments]

theorem fullName_nested (space name outer : String) (containers : List String) :
    fullName ⟨space, name, outer :: containers⟩ =
      fullName ⟨space, outer, containers⟩ ++ "." ++ name :=
  SymbolTable.fullNameOf_cons space name (List.cons_ne_nil outer containers)

/-- The path of the enclosing type. -/
def container? (p : TypePath) : Option TypePath :=
  match p.containers with
  | [] => none
  | name :: containers => some { p with name, containers }

/-- The paths of nested types, given by their simple names, innermost first. -/
def along (space : String) : List String → List TypePath
  | [] => []
  | name :: containers => ⟨space, name, containers⟩ :: along space containers

/-- A path and the paths of all enclosing types. -/
def withContainers (p : TypePath) : List TypePath :=
  along p.inNamespace (p.name :: p.containers)

end TypePath

namespace TypeDeclaration

/-- Where a declared type stands. -/
def path (d : TypeDeclaration) : TypePath :=
  { inNamespace := d.inNamespace, name := d.name, containers := d.outer.reverse }

theorem fullName_path (d : TypeDeclaration) : d.path.fullName = d.fullName := by
  simp [path, TypePath.fullName, SymbolTable.fullNameOf, fullName]

/-- The paths of declared types, outer types counted. -/
def pathsOf (ds : List TypeDeclaration) : List TypePath :=
  ds.flatMap fun d => d.path.withContainers

theorem mem_pathsOf {ds : List TypeDeclaration} {p : TypePath} :
    p ∈ pathsOf ds ↔ ∃ d ∈ ds, p ∈ d.path.withContainers :=
  List.mem_flatMap

theorem path_mem_pathsOf {ds : List TypeDeclaration} {d : TypeDeclaration} (hd : d ∈ ds) :
    d.path ∈ pathsOf ds :=
  mem_pathsOf.2 ⟨d, hd, List.mem_cons_self⟩

end TypeDeclaration

open TypeDeclaration (pathsOf mem_pathsOf)

namespace SymbolTable

variable {t t' : SymbolTable}

/-! ### What growth keeps -/

/-- A type keeps its namespace, its container and its full name. -/
structure KeptAs (s s' : TypeSymbol) : Prop where
  inNamespace_eq : s'.inNamespace = s.inNamespace
  container_eq : s'.container = s.container
  fullName_eq : s'.fullName = s.fullName

theorem Step.exists_kept (hstep : Step t t') {id : TypeId} {s : TypeSymbol}
    (hs : t.types[id]? = some s) : ∃ s', t'.types[id]? = some s' ∧ KeptAs s s' := by
  cases hstep with
  | declareNamespace name => exact ⟨s, hs, rfl, rfl, rfl⟩
  | addType _ _ _ _ _ placed _ => exact ⟨_, types_addType_of_some placed hs, rfl, rfl, rfl⟩
  | addMembers i members =>
    obtain ⟨names, hs'⟩ := types_addMembers_of_some hs
    exact ⟨_, hs', rfl, rfl, rfl⟩

theorem Step.fullName?_eq (hstep : Step t t') {id : TypeId} {fullName : String}
    (h : t.fullName? id = some fullName) : t'.fullName? id = some fullName := by
  obtain ⟨s, hs, rfl⟩ := Option.map_eq_some_iff.1 h
  obtain ⟨s', hs', hkept⟩ := hstep.exists_kept hs
  rw [fullName?, hs', Option.map_some, hkept.fullName_eq]

theorem Grows.fullName?_eq (hgrows : Grows t t') {id : TypeId} {fullName : String}
    (h : t.fullName? id = some fullName) : t'.fullName? id = some fullName :=
  hgrows.invariant h fun _ _ hstep => hstep.fullName?_eq

theorem WellFormed.fullName?_eq_iff (h : t.WellFormed) {id : TypeId} {fullName : String} :
    t.fullName? id = some fullName ↔ t.byFullName[fullName]? = some id := by
  rw [h.byFullName_iff, fullName?, Option.map_eq_some_iff]

/-- The index by full name only grows. -/
theorem Grows.byFullName_eq (hgrows : Grows t t') (h : t.WellFormed) {id : TypeId}
    {fullName : String} (hid : t.byFullName[fullName]? = some id) :
    t'.byFullName[fullName]? = some id := by
  rw [← (hgrows.wellFormed h).fullName?_eq_iff]
  rw [← h.fullName?_eq_iff] at hid
  exact hgrows.fullName?_eq hid

/-- The full name of the container is known. -/
theorem WellFormed.exists_fullName?_of_container (h : t.WellFormed) {id c : TypeId} {s : TypeSymbol}
    (hs : t.types[id]? = some s) (hc : s.container = some c) :
    ∃ fullName, t.fullName? c = some fullName := by
  obtain ⟨-, p, -, hp, -, -⟩ := h.nested_of_container id c s hs hc
  exact ⟨p.fullName, by rw [fullName?, hp, Option.map_some]⟩

/-! ### Types at paths -/

/-- A type stands at a path: its namespace, its full name and the full name of its container are
those of the path. -/
structure PlacedAt (t : SymbolTable) (s : TypeSymbol) (p : TypePath) : Prop where
  inNamespace_eq : s.inNamespace = p.inNamespace
  fullName_eq : s.fullName = p.fullName
  container_eq : s.container.bind t.fullName? = p.container?.map TypePath.fullName

theorem PlacedAt.grow {s s' : TypeSymbol} {p : TypePath} {id : TypeId} (h : t.PlacedAt s p)
    (hwf : t.WellFormed) (hs : t.types[id]? = some s) (hgrows : Grows t t') (hkept : KeptAs s s') :
    t'.PlacedAt s' p where
  inNamespace_eq := hkept.inNamespace_eq.trans h.inNamespace_eq
  fullName_eq := hkept.fullName_eq.trans h.fullName_eq
  container_eq := by
    rw [hkept.container_eq, ← h.container_eq]
    cases hc : s.container with
    | none => rfl
    | some c =>
      obtain ⟨fullName, hname⟩ := hwf.exists_fullName?_of_container hs hc
      rw [Option.bind_some, Option.bind_some, hname, hgrows.fullName?_eq hname]

/-- What stands at a path has a container exactly when the path has one. -/
theorem PlacedAt.container_eq_none_iff {s : TypeSymbol} {p : TypePath} {id : TypeId}
    (h : t.PlacedAt s p) (hwf : t.WellFormed) (hs : t.types[id]? = some s) :
    s.container = none ↔ p.containers = [] := by
  have hcont := h.container_eq
  cases hc : s.container with
  | none =>
    rw [hc, Option.bind_none, eq_comm, Option.map_eq_none_iff] at hcont
    cases hp : p.containers with
    | nil => simp
    | cons name containers => simp [TypePath.container?, hp] at hcont
  | some c =>
    obtain ⟨fullName, hname⟩ := hwf.exists_fullName?_of_container hs hc
    rw [hc, Option.bind_some, hname] at hcont
    cases hp : p.containers with
    | nil => simp [TypePath.container?, hp] at hcont
    | cons name containers => simp

/-- A type of the table after `ensurePath` was there before, with perhaps fewer nested types, or
it is new, without members, and stands along the path. -/
theorem types_ensurePath (h : t.WellFormed) {space : String}
    (declared : Name.Proper space → space ∈ t.namespaces) (path : List String) {id : TypeId}
    {s' : TypeSymbol} (hs' : (ensurePath space path t).2.types[id]? = some s') :
    (∃ s nested, t.types[id]? = some s ∧ s' = { s with nested }) ∨
      (s'.members = ∅ ∧ t.byFullName[s'.fullName]? = none ∧
        ∃ p ∈ TypePath.along space path, (ensurePath space path t).2.PlacedAt s' p) := by
  induction path generalizing s' with
  | nil => exact Or.inl ⟨s', s'.nested, hs', rfl⟩
  | cons name containers ih =>
    cases hfound : t.byFullName[fullNameOf space (name :: containers)]? with
    | some id' =>
      rw [ensurePath_cons_some hfound] at hs'
      exact Or.inl ⟨s', s'.nested, hs', rfl⟩
    | none =>
      obtain ⟨hgrows, hensures⟩ := grows_ensurePath h declared containers
      have hplaced := hensures.nameBelow? name
      have hstep := Step.addType space _ name _ (fresh_after_containers hfound) hplaced
        (by rwa [namespaces_ensurePath])
      rw [ensurePath_cons_none hfound] at hs' ⊢
      rcases types_addType_cases hplaced hs' with ⟨-, rfl⟩ | ⟨s, hs, rfl⟩
      · -- the type itself
        refine Or.inr ⟨rfl, hfound, _, List.mem_cons_self, rfl, rfl, ?_⟩
        cases containers with
        | nil =>
          rw [show (ensurePath space [] t).1 = none from hensures]
          rfl
        | cons outer outers =>
          obtain ⟨c, hc, hname⟩ := hensures
          rw [hc] at hstep ⊢
          exact hstep.fullName?_eq hname
      · -- a type that was there after the containers had been found or added
        rcases ih hs with ⟨s₀, nested, hs₀, rfl⟩ | ⟨hmembers, hfresh, p, hp, hplacedAt⟩
        · exact Or.inl ⟨s₀, _, hs₀, rfl⟩
        · exact Or.inr ⟨hmembers, hfresh, p, List.mem_cons_of_mem _ hp,
            hplacedAt.grow (hgrows.wellFormed h) hs (.single hstep) ⟨rfl, rfl, rfl⟩⟩

/-! ### Merging declarations -/

/-- The types of the table are those that the declarations `ds` declare. -/
structure MadeFrom (ds : List TypeDeclaration) (t : SymbolTable) : Prop where
  /-- Every declared type is found under its full name. -/
  found : ∀ d ∈ ds, ∃ id, t.byFullName[d.fullName]? = some id
  /-- Every type stands at a declared path, outer types counted. -/
  placed : ∀ (id : TypeId) (s : TypeSymbol), t.types[id]? = some s →
    ∃ p ∈ pathsOf ds, t.PlacedAt s p
  /-- The members of a type are those of all declarations of its full name. -/
  members_iff : ∀ (id : TypeId) (s : TypeSymbol), t.types[id]? = some s → ∀ name,
    name ∈ s.members ↔ ∃ d ∈ ds, d.fullName = s.fullName ∧ name ∈ d.members

theorem madeFrom_empty : MadeFrom [] empty := by
  constructor <;> simp [empty]

theorem MadeFrom.declareNamespace {ds : List TypeDeclaration} (h : MadeFrom ds t) (name : String) :
    MadeFrom ds (t.declareNamespace name) where
  found := h.found
  placed := by
    intro id s hs
    obtain ⟨p, hp, hplaced⟩ := h.placed id s hs
    exact ⟨p, hp, hplaced.inNamespace_eq, hplaced.fullName_eq, hplaced.container_eq⟩
  members_iff := h.members_iff

theorem MadeFrom.foldl_declareNamespace {ds : List TypeDeclaration} (h : MadeFrom ds t)
    (names : List String) : MadeFrom ds (names.foldl SymbolTable.declareNamespace t) := by
  induction names generalizing t with
  | nil => exact h
  | cons name names ih => exact ih (h.declareNamespace name)

/-- Merging a declaration adds its members to the type that was found or added for it. -/
theorem exists_addDeclaration_eq (h : t.WellFormed) {d : TypeDeclaration}
    (declared : Name.Proper d.inNamespace → d.inNamespace ∈ t.namespaces) :
    let found := ensurePath d.inNamespace (d.name :: d.outer.reverse) t
    ∃ id, found.2.fullName? id = some d.fullName ∧
      t.addDeclaration d = found.2.addMembers id d.members := by
  intro found
  obtain ⟨-, id, hid, hname⟩ := grows_ensurePath h declared (d.name :: d.outer.reverse)
  refine ⟨id, hname.trans (congrArg some d.fullName_path), ?_⟩
  rw [addDeclaration, ensureType_eq]
  split
  · next id' t' heq =>
    obtain rfl : id' = id := Option.some.inj ((congrArg Prod.fst heq).symm.trans hid)
    rw [show found.2 = t' from congrArg Prod.snd heq]
  · next t' heq => exact absurd ((congrArg Prod.fst heq).symm.trans hid) (by simp)

theorem mem_members_addMembers {id j : TypeId} {members : List String} {s s' : TypeSymbol}
    (hs : t.types[j]? = some s) (hs' : (t.addMembers id members).types[j]? = some s')
    {name : String} : name ∈ s'.members ↔ (id = j ∧ name ∈ members) ∨ name ∈ s.members := by
  rw [types_addMembers, hs, Option.map_some] at hs'
  obtain rfl := Option.some.inj hs'
  by_cases h : id = j <;> simp [h, mem_foldl_insert]

/-- Finding or adding a path changes no members. -/
theorem MadeFrom.members_ensurePath {ds : List TypeDeclaration} (h : MadeFrom ds t)
    (hwf : t.WellFormed) {space : String} (declared : Name.Proper space → space ∈ t.namespaces)
    (path : List String) {id : TypeId} {s : TypeSymbol}
    (hs : (ensurePath space path t).2.types[id]? = some s) (name : String) :
    name ∈ s.members ↔ ∃ d ∈ ds, d.fullName = s.fullName ∧ name ∈ d.members := by
  rcases types_ensurePath hwf declared path hs with ⟨s₀, nested, hs₀, rfl⟩ | ⟨hmembers, hfresh, -⟩
  · exact h.members_iff id s₀ hs₀ name
  · -- a new type has a full name that nothing declared so far spells
    rw [hmembers]
    simp only [Std.ExtTreeSet.not_mem_empty, false_iff]
    rintro ⟨d, hd, hname, -⟩
    obtain ⟨id', hid'⟩ := h.found d hd
    rw [hname, hfresh] at hid'
    cases hid'

/-- **Merging one declaration.** -/
theorem MadeFrom.addDeclaration {ds : List TypeDeclaration} (h : MadeFrom ds t)
    (hwf : t.WellFormed) {d : TypeDeclaration}
    (declared : Name.Proper d.inNamespace → d.inNamespace ∈ t.namespaces) :
    MadeFrom (ds ++ [d]) (t.addDeclaration d) := by
  have hgrows := (grows_ensurePath hwf declared (d.name :: d.outer.reverse)).1
  have hwf₁ := hgrows.wellFormed hwf
  obtain ⟨target, htarget, heq⟩ := exists_addDeclaration_eq hwf declared
  have hstep := Step.addMembers (t := (ensurePath d.inNamespace (d.name :: d.outer.reverse) t).2)
    target d.members
  rw [heq]
  constructor
  · intro d' hd'
    rcases List.mem_append.1 hd' with hd' | hd'
    · obtain ⟨id, hid⟩ := h.found d' hd'
      exact ⟨id, hgrows.byFullName_eq hwf hid⟩
    · obtain rfl := List.mem_singleton.1 hd'
      exact ⟨target, hwf₁.fullName?_eq_iff.1 htarget⟩
  · intro id s hs
    obtain ⟨s₁, names, hs₁, rfl⟩ := types_addMembers_cases hs
    rcases types_ensurePath hwf declared _ hs₁ with ⟨s₀, nested, hs₀, rfl⟩ | ⟨-, -, p, hp, hplaced⟩
    · obtain ⟨p, hp, hplaced⟩ := h.placed id s₀ hs₀
      obtain ⟨d', hd', hp⟩ := mem_pathsOf.1 hp
      exact ⟨p, mem_pathsOf.2 ⟨d', List.mem_append_left _ hd', hp⟩,
        hplaced.grow hwf hs₀ (hgrows.tail hstep) ⟨rfl, rfl, rfl⟩⟩
    · exact ⟨p, mem_pathsOf.2 ⟨d, by simp, hp⟩,
        hplaced.grow hwf₁ hs₁ (.single hstep) ⟨rfl, rfl, rfl⟩⟩
  · intro id s hs name
    obtain ⟨s₁, names, hs₁, rfl⟩ := types_addMembers_cases hs
    -- the members go to the one type that has the full name
    have hid : target = id ↔ d.fullName = s₁.fullName := by
      constructor
      · rintro rfl
        rw [fullName?, hs₁, Option.map_some] at htarget
        exact (Option.some.inj htarget).symm
      · intro hname
        obtain ⟨s₂, hs₂, hname₂⟩ := Option.map_eq_some_iff.1 htarget
        exact hwf₁.eq_of_fullName hs₂ hs₁ (hname₂.trans hname)
    rw [mem_members_addMembers hs₁ hs, hid, h.members_ensurePath hwf declared _ hs₁ name]
    simp only [List.mem_append, List.mem_singleton, or_and_right, exists_or, exists_eq_left]
    exact or_comm

theorem MadeFrom.foldl_addDeclaration {ds new : List TypeDeclaration} (h : MadeFrom ds t)
    (hwf : t.WellFormed)
    (declared : ∀ d ∈ new, Name.Proper d.inNamespace → d.inNamespace ∈ t.namespaces) :
    MadeFrom (ds ++ new) (new.foldl SymbolTable.addDeclaration t) := by
  induction new generalizing t ds with
  | nil => simpa using h
  | cons d new ih =>
    have hd := declared d List.mem_cons_self
    have hnext := ih (h.addDeclaration hwf hd) ((grows_addDeclaration hwf hd).wellFormed hwf)
      fun d' hd' => by
        rw [namespaces_addDeclaration]
        exact declared d' (List.mem_cons_of_mem _ hd')
    rwa [List.append_assoc] at hnext

/-- **Merging a file.** -/
theorem MadeFrom.addFile {ds : List TypeDeclaration} (h : MadeFrom ds t) (hwf : t.WellFormed)
    {o : Outline} (hdecl : o.DeclaredIn "") : MadeFrom (ds ++ o.types) (t.addFile o) := by
  have hwf' := (grows_foldl_declareNamespace t o.namespaces).wellFormed hwf
  exact (h.foldl_declareNamespace o.namespaces).foldl_addDeclaration hwf'
    fun d hd => mem_namespaces_of_declaredIn hdecl hd

end SymbolTable

end Unqualify
