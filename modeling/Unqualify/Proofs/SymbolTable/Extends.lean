import Unqualify.Proofs.SymbolTable.Entity
import Unqualify.Proofs.SymbolTable.Outlines

/-!
# Later tables

A table is only added to.  Whatever is merged into it, the types that are there keep their numbers
and their places, and keep their members and nested types beside new ones
(`SymbolTable.Extends`); every new type has a full name that was free and stands at a path that was
merged (`SymbolTable.AddsOnly`).  Both are shown for the elementary steps and for the find-or-add
recursion, and carried along from there.

The steps of `SymbolTable.Step` declare the namespace of a type before the type, as the outlines of
files do.  Nothing asks for that when declarations are merged, and types do not depend on it: any
declarations do to the types of a table what they do once their namespaces are declared
(`SymbolTable.withNamespaces_addFile`).  So a table need not be well formed, as long as it can be
made so by other namespaces (`SymbolTable.TypesWellFormed`).
-/

namespace Unqualify

open TypeDeclaration (pathsOf)

/-- A type goes on as another one: it stays in its place, and its members and nested types are
kept. -/
structure TypeSymbol.Extends (s s' : TypeSymbol) : Prop where
  /-- The place of the type is kept. -/
  kept : SymbolTable.KeptAs s s'
  /-- Members are kept. -/
  members : ∀ name ∈ s.members, name ∈ s'.members
  /-- Nested types are kept, with their numbers. -/
  nested : ∀ (name : String) (id : TypeId), s.nested[name]? = some id → s'.nested[name]? = some id

theorem TypeSymbol.Extends.refl (s : TypeSymbol) : s.Extends s :=
  ⟨⟨rfl, rfl, rfl⟩, fun _ h => h, fun _ _ h => h⟩

theorem TypeSymbol.Extends.trans {s s' s'' : TypeSymbol} (h : s.Extends s') (h' : s'.Extends s'') :
    s.Extends s'' where
  kept :=
    { inNamespace_eq := h'.kept.inNamespace_eq.trans h.kept.inNamespace_eq
      container_eq := h'.kept.container_eq.trans h.kept.container_eq
      fullName_eq := h'.kept.fullName_eq.trans h.kept.fullName_eq }
  members := fun name hname => h'.members name (h.members name hname)
  nested := fun name id hid => h'.nested name id (h.nested name id hid)

namespace SymbolTable

variable {t t' t'' : SymbolTable}

/-- A later table: every type is there under its number, with at least what it had, and so is every
namespace. -/
structure Extends (t t' : SymbolTable) : Prop where
  /-- Types go on under their numbers. -/
  types : ∀ (id : TypeId) (s : TypeSymbol), t.types[id]? = some s →
    ∃ s', t'.types[id]? = some s' ∧ s.Extends s'
  /-- Namespaces are kept. -/
  namespaces : ∀ space ∈ t.namespaces, space ∈ t'.namespaces

theorem Extends.refl (t : SymbolTable) : t.Extends t :=
  ⟨fun _ s hs => ⟨s, hs, .refl s⟩, fun _ h => h⟩

theorem Extends.trans (h : t.Extends t') (h' : t'.Extends t'') : t.Extends t'' where
  types := by
    intro id s hs
    obtain ⟨s', hs', hext⟩ := h.types id s hs
    obtain ⟨s'', hs'', hext'⟩ := h'.types id s' hs'
    exact ⟨s'', hs'', hext.trans hext'⟩
  namespaces := fun space hspace => h'.namespaces space (h.namespaces space hspace)

/-- The types of `t'` that `t` does not have are new under their full names, and stand at paths
among `ps`. -/
def AddsOnly (t t' : SymbolTable) (ps : List TypePath) : Prop :=
  ∀ (id : TypeId) (s' : TypeSymbol), t'.types[id]? = some s' → t.types[id]? = none →
    t.byFullName[s'.fullName]? = none ∧ ∃ p ∈ ps, t'.PlacedAt s' p

/-! ### Elementary steps -/

/-- An added type takes no name that its container has for a nested type. -/
theorem extends_withNested (h : t.WellFormed) {inNamespace fullName name : String}
    {container : Option TypeId} (fresh : t.byFullName[fullName]? = none)
    (placed : t.nameBelow? inNamespace name container = some fullName) {id : TypeId}
    {s : TypeSymbol} (hs : t.types[id]? = some s) :
    s.Extends (s.withNested name t.types.size (container = some id)) where
  kept := ⟨rfl, rfl, rfl⟩
  members := fun _ hmember => hmember
  nested := by
    intro inner id' hinner
    rw [TypeSymbol.nested_withNested, if_neg, hinner]
    rintro ⟨rfl, rfl⟩
    obtain ⟨p, hp, rfl⟩ := exists_of_nameBelow? placed
    obtain rfl : s = p := Option.some.inj (hs.symm.trans hp)
    obtain ⟨s', hs', -, hname⟩ := h.container_of_nested id id' s name hs hinner
    exact h.fullName_ne_of_fresh fresh hs' hname

/-- **Every step makes a later table.** -/
theorem Step.extends (hstep : Step t t') (h : t.WellFormed) : t.Extends t' := by
  cases hstep with
  | declareNamespace name =>
    exact ⟨fun _ s hs => ⟨s, hs, .refl s⟩, fun _ hspace =>
      mem_namespaces_declareNamespace.2 (Or.inr hspace)⟩
  | addType _ _ _ _ fresh placed _ =>
    exact ⟨fun _ s hs => ⟨_, types_addType_of_some placed hs, extends_withNested h fresh placed hs⟩,
      fun _ hspace => hspace⟩
  | addMembers id members =>
    refine ⟨fun j s hs => ?_, fun _ hspace => hspace⟩
    obtain ⟨names, hs'⟩ := types_addMembers_of_some hs
    refine ⟨_, hs', ⟨rfl, rfl, rfl⟩, fun name hname => ?_, fun _ _ hinner => hinner⟩
    exact (mem_members_addMembers hs hs').2 (Or.inr hname)

theorem Grows.extends (hgrows : Grows t t') (h : t.WellFormed) : t.Extends t' := by
  induction hgrows with
  | refl => exact .refl t
  | tail hfirst hlast ih => exact ih.trans (hlast.extends (Grows.wellFormed hfirst h))

/-! ### New types -/

theorem AddsOnly.trans {ps qs : List TypePath} (h : t.AddsOnly t' ps) (h' : t'.AddsOnly t'' qs)
    (hwf : t.WellFormed) (hgrows : Grows t t') (hgrows' : Grows t' t'') :
    t.AddsOnly t'' (ps ++ qs) := by
  intro id s'' hs'' hnone
  cases hs' : t'.types[id]? with
  | some s' =>
    -- new in the first table already
    obtain ⟨hfresh, p, hp, hplaced⟩ := h id s' hs' hnone
    have hwf' := hgrows.wellFormed hwf
    obtain ⟨s₀, hs₀, hext⟩ := (hgrows'.extends hwf').types id s' hs'
    obtain rfl : s'' = s₀ := Option.some.inj (hs''.symm.trans hs₀)
    rw [hext.kept.fullName_eq]
    exact ⟨hfresh, p, List.mem_append_left _ hp, hplaced.grow hwf' hs' hgrows' hext.kept⟩
  | none =>
    obtain ⟨hfresh, p, hp, hplaced⟩ := h' id s'' hs'' hs'
    refine ⟨?_, p, List.mem_append_right _ hp, hplaced⟩
    cases hid : t.byFullName[s''.fullName]? with
    | none => rfl
    | some i =>
      rw [hgrows.byFullName_eq hwf hid] at hfresh
      cases hfresh

theorem addsOnly_ensurePath (h : t.WellFormed) {space : String}
    (declared : Name.Proper space → space ∈ t.namespaces) (path : List String) :
    t.AddsOnly (ensurePath space path t).2 (TypePath.along space path) := by
  intro id s' hs' hnone
  rcases types_ensurePath h declared path hs' with ⟨s, nested, hs, -⟩ | ⟨-, hfresh, hplaced⟩
  · rw [hnone] at hs
    cases hs
  · exact ⟨hfresh, hplaced⟩

theorem addsOnly_addMembers (id : TypeId) (members : List String) :
    t.AddsOnly (t.addMembers id members) [] := by
  intro j s' hs' hnone
  obtain ⟨s, names, hs, -⟩ := types_addMembers_cases hs'
  rw [hnone] at hs
  cases hs

theorem addsOnly_addDeclaration (h : t.WellFormed) {d : TypeDeclaration}
    (declared : Name.Proper d.inNamespace → d.inNamespace ∈ t.namespaces) :
    t.AddsOnly (t.addDeclaration d) d.path.withContainers := by
  obtain ⟨id, -, heq⟩ := exists_addDeclaration_eq h declared
  have hgrows := (grows_ensurePath h declared (d.name :: d.outer.reverse)).1
  have hadds := (addsOnly_ensurePath h declared (d.name :: d.outer.reverse)).trans
    (addsOnly_addMembers id d.members) h hgrows (.single (.addMembers id d.members))
  rw [heq]
  rwa [List.append_nil] at hadds

/-- Merging declarations adds the declared types and the types around them. -/
theorem addsOnly_foldl_addDeclaration (h : t.WellFormed) {ds : List TypeDeclaration}
    (declared : ∀ d ∈ ds, Name.Proper d.inNamespace → d.inNamespace ∈ t.namespaces) :
    t.AddsOnly (ds.foldl addDeclaration t) (pathsOf ds) := by
  induction ds generalizing t with
  | nil =>
    intro id s' hs' hnone
    rw [List.foldl_nil, hnone] at hs'
    cases hs'
  | cons d ds ih =>
    have hd := declared d List.mem_cons_self
    have hfirst := grows_addDeclaration h hd
    have hwf := hfirst.wellFormed h
    have hrest : ∀ d' ∈ ds, Name.Proper d'.inNamespace →
        d'.inNamespace ∈ (t.addDeclaration d).namespaces := by
      intro d' hd'
      rw [namespaces_addDeclaration]
      exact declared d' (List.mem_cons_of_mem _ hd')
    exact (addsOnly_addDeclaration h hd).trans (ih hwf hrest) h hfirst
      (grows_foldl_addDeclaration hwf hrest)

/-! ### Types do not depend on namespaces -/

/-- The table with other namespaces. -/
def withNamespaces (t : SymbolTable) (spaces : NameSet) : SymbolTable :=
  { t with namespaces := spaces }

variable {spaces : NameSet}

theorem ensurePath_withNamespaces (space : String) (path : List String) :
    ensurePath space path (t.withNamespaces spaces) =
      ((ensurePath space path t).1, (ensurePath space path t).2.withNamespaces spaces) := by
  induction path with
  | nil => rfl
  | cons name containers ih =>
    -- the index by full name is the same in both tables
    have hsame : (t.withNamespaces spaces).byFullName = t.byFullName := rfl
    cases hfound : t.byFullName[fullNameOf space (name :: containers)]? with
    | some id => rw [ensurePath_cons_some hfound, ensurePath_cons_some (hsame ▸ hfound)]
    | none =>
      rw [ensurePath_cons_none hfound, ensurePath_cons_none (hsame ▸ hfound), ih]
      rfl

theorem addDeclaration_withNamespaces (d : TypeDeclaration) :
    (t.withNamespaces spaces).addDeclaration d = (t.addDeclaration d).withNamespaces spaces := by
  simp only [addDeclaration, ensureType_eq, ensurePath_withNamespaces]
  generalize ensurePath d.inNamespace (d.name :: d.outer.reverse) t = found
  obtain ⟨_ | id, t'⟩ := found <;> rfl

theorem foldl_addDeclaration_withNamespaces (ds : List TypeDeclaration) :
    ds.foldl addDeclaration (t.withNamespaces spaces) =
      (ds.foldl addDeclaration t).withNamespaces spaces := by
  induction ds generalizing t with
  | nil => rfl
  | cons d ds ih => rw [List.foldl_cons, List.foldl_cons, addDeclaration_withNamespaces, ih]

theorem foldl_declareNamespace_eq (names : List String) :
    names.foldl declareNamespace t =
      t.withNamespaces (names.foldl declareNamespace t).namespaces := by
  induction names generalizing t with
  | nil => rfl
  | cons name names ih =>
    rw [List.foldl_cons, ih]
    rfl

/-- **What declarations do to the types of a table** does not depend on its namespaces, nor on those
that are declared with them. -/
theorem withNamespaces_addFile (o : Outline) (spaces : NameSet) :
    (t.addFile o).withNamespaces spaces =
      o.types.foldl addDeclaration (t.withNamespaces spaces) := by
  rw [addFile, foldl_declareNamespace_eq, foldl_addDeclaration_withNamespaces,
    foldl_addDeclaration_withNamespaces]
  rfl

/-- The table is well formed up to its namespaces: with others it would be. -/
def TypesWellFormed (t : SymbolTable) : Prop :=
  ∃ spaces, (t.withNamespaces spaces).WellFormed

theorem WellFormed.typesWellFormed (h : t.WellFormed) : t.TypesWellFormed :=
  ⟨t.namespaces, h⟩

namespace TypesWellFormed

/-- The namespaces that make the table well formed can be chosen to hold those of given
declarations. -/
theorem exists_declaring (h : t.TypesWellFormed) (ds : List TypeDeclaration) :
    ∃ spaces, (t.withNamespaces spaces).WellFormed ∧
      ∀ d ∈ ds, Name.Proper d.inNamespace → d.inNamespace ∈ spaces := by
  obtain ⟨spaces, hwf⟩ := h
  let names := ds.map (·.inNamespace)
  have hgrows := grows_foldl_declareNamespace (t.withNamespaces spaces) names
  refine ⟨(names.foldl declareNamespace (t.withNamespaces spaces)).namespaces, ?_, ?_⟩
  · have heq := foldl_declareNamespace_eq (t := t.withNamespaces spaces) names
    exact heq ▸ hgrows.wellFormed hwf
  · intro d hd hproper
    exact mem_namespaces_foldl_declareNamespace.2
      (Or.inl ⟨d.inNamespace, List.mem_map_of_mem hd, Name.self_mem_withParents hproper⟩)

theorem addFile (h : t.TypesWellFormed) (o : Outline) : (t.addFile o).TypesWellFormed := by
  obtain ⟨spaces, hwf, hdeclared⟩ := h.exists_declaring o.types
  refine ⟨spaces, ?_⟩
  rw [withNamespaces_addFile]
  exact (grows_foldl_addDeclaration hwf hdeclared).wellFormed hwf

/-- **Merging declarations makes a later table**, whatever they declare. -/
theorem extends_addFile (h : t.TypesWellFormed) (o : Outline) : t.Extends (t.addFile o) where
  types := by
    obtain ⟨spaces, hwf, hdeclared⟩ := h.exists_declaring o.types
    have hext := (grows_foldl_addDeclaration hwf hdeclared).extends hwf
    rw [← withNamespaces_addFile] at hext
    exact hext.types
  namespaces := fun _ hspace => mem_namespaces_addFile.2 (Or.inr hspace)

theorem addsOnly_addFile (h : t.TypesWellFormed) (o : Outline) :
    t.AddsOnly (t.addFile o) (pathsOf o.types) := by
  obtain ⟨spaces, hwf, hdeclared⟩ := h.exists_declaring o.types
  have hadds := addsOnly_foldl_addDeclaration hwf hdeclared
  rw [← withNamespaces_addFile] at hadds
  intro id s' hs' hnone
  obtain ⟨hfresh, p, hp, hplaced⟩ := hadds id s' hs' hnone
  exact ⟨hfresh, p, hp, hplaced.inNamespace_eq, hplaced.fullName_eq, hplaced.container_eq⟩

theorem fullName_ne_of_fresh (h : t.TypesWellFormed) {fullName : String}
    (fresh : t.byFullName[fullName]? = none) {id : TypeId} {s : TypeSymbol}
    (hs : t.types[id]? = some s) : s.fullName ≠ fullName := by
  obtain ⟨spaces, hwf⟩ := h
  exact WellFormed.fullName_ne_of_fresh hwf fresh hs

end TypesWellFormed

/-! ### Descriptions -/

theorem Extends.fullName?_eq (h : t.Extends t') {id : TypeId} {fullName : String}
    (hname : t.fullName? id = some fullName) : t'.fullName? id = some fullName := by
  obtain ⟨s, hs, rfl⟩ := Option.map_eq_some_iff.1 hname
  obtain ⟨s', hs', hext⟩ := h.types id s hs
  rw [fullName?, hs', Option.map_some, hext.kept.fullName_eq]

/-- A later table describes a type and its members as the table does. -/
theorem Extends.describe_eq (h : t.Extends t') (hwf : t.TypesWellFormed) {id : TypeId}
    {s : TypeSymbol} (hs : t.types[id]? = some s) :
    t'.describe (.type id) = t.describe (.type id) ∧
      ∀ name, t'.describe (.member id name) = t.describe (.member id name) := by
  obtain ⟨s', hs', hext⟩ := h.types id s hs
  have hcontainer : s.container.bind t'.fullName? = s.container.bind t.fullName? := by
    cases hc : s.container with
    | none => rfl
    | some c =>
      obtain ⟨spaces, hwf⟩ := hwf
      obtain ⟨fullName, hname⟩ := hwf.exists_fullName?_of_container hs hc
      have hname : t.fullName? c = some fullName := hname
      rw [Option.bind_some, Option.bind_some, hname, h.fullName?_eq hname]
  constructor
  · rw [describe_type hs, describe_type hs', hext.kept.fullName_eq, hext.kept.container_eq,
      hext.kept.inNamespace_eq, hcontainer]
  · intro name
    simp only [describe, hs, hs', hext.kept.fullName_eq, hext.kept.inNamespace_eq]

/-! ### Merging -/

/-- Something to merge into a table. -/
inductive Merge where
  /-- The declarations of a file, as they stand. -/
  | declarations (o : Outline)
  /-- A library type as it is written. -/
  | library (entry : String)

/-- Merge something into a table.  A malformed library type is an error. -/
def merge (t : SymbolTable) : Merge → Except Error SymbolTable
  | .declarations o => .ok (t.addFile o)
  | .library entry => Analysis.addLibraryEntry t entry

/-- The table after merging something into it, or after failing to. -/
def after (t : SymbolTable) (m : Merge) : SymbolTable :=
  match t.merge m with
  | .ok t' => t'
  | .error _ => t

/-- The table of everything that is merged, in order. -/
def merged (ms : List Merge) : SymbolTable := ms.foldl after empty

/-- What is declared by merging something; a malformed library type declares nothing. -/
def Merge.outline : Merge → Outline
  | .declarations o => o
  | .library entry => ((LibraryType.parse? entry).map LibraryType.outline).getD {}

theorem merge_eq_ok {m : Merge} (h : t.merge m = .ok t') : t' = t.addFile m.outline := by
  cases m with
  | declarations o => exact (Except.ok.inj h).symm
  | library entry =>
    rw [merge, Analysis.addLibraryEntry] at h
    rw [Merge.outline]
    cases hl : LibraryType.parse? entry with
    | none => rw [hl] at h; cases h
    | some l =>
      rw [hl] at h
      exact (Except.ok.inj h).symm.trans (addLibraryType_eq_addFile l)

theorem after_of_ok {m : Merge} (h : t.merge m = .ok t') : t.after m = t' := by
  rw [after, h]

theorem after_of_error {m : Merge} {e : Error} (h : t.merge m = .error e) : t.after m = t := by
  rw [after, h]

theorem TypesWellFormed.after (h : t.TypesWellFormed) (m : Merge) :
    (t.after m).TypesWellFormed ∧ t.Extends (t.after m) := by
  cases hm : t.merge m with
  | error e =>
    rw [after_of_error hm]
    exact ⟨h, .refl t⟩
  | ok t' =>
    rw [after_of_ok hm, merge_eq_ok hm]
    exact ⟨h.addFile m.outline, h.extends_addFile m.outline⟩

/-- Whatever is merged one after the other, the table is a later one in the end. -/
theorem TypesWellFormed.foldl_after (h : t.TypesWellFormed) (ms : List Merge) :
    (ms.foldl SymbolTable.after t).TypesWellFormed ∧
      t.Extends (ms.foldl SymbolTable.after t) := by
  induction ms generalizing t with
  | nil => exact ⟨h, .refl t⟩
  | cons m ms ih =>
    obtain ⟨hnext, hext⟩ := h.after m
    obtain ⟨hlast, hext'⟩ := ih hnext
    exact ⟨hlast, hext.trans hext'⟩

theorem typesWellFormed_merged (ms : List Merge) : (merged ms).TypesWellFormed :=
  (wellFormed_empty.typesWellFormed.foldl_after ms).1

end SymbolTable

end Unqualify
