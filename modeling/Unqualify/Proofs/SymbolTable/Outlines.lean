import Unqualify.Proofs.SymbolTable.Contents

/-!
# Tables made from outlines

A library type counts as the outline of a file that declares it, the types around it and its
namespace (`LibraryType.outline`).  So every table that can be built is made by merging outlines
(`SymbolTable.build_eq_ofOutlines`), and what is known of the outlines of files holds of all of them
(`Outline.Regular`).

What a table made from outlines contains is what they declare together
(`SymbolTable.madeFrom_ofOutlines`, `SymbolTable.mem_namespaces_ofOutlines`), and merging one of
them again changes nothing (`SymbolTable.addFile_eq_self`).
-/

namespace Unqualify

/-! ### Paths of enclosed types -/

namespace TypeDeclaration

/-- When the types around declared types are declared, every declared path is that of a
declaration. -/
theorem exists_path_eq {ds : List TypeDeclaration} (henclosed : ∀ d ∈ ds, d.EnclosedIn ds)
    {p : TypePath} (hp : p ∈ pathsOf ds) : ∃ d ∈ ds, d.path = p := by
  obtain ⟨d, hd, hp⟩ := mem_pathsOf.1 hp
  rw [TypePath.withContainers] at hp
  -- from the declaration outwards, one enclosing type at a time
  induction hcontainers : d.path.containers generalizing d with
  | nil =>
    rw [hcontainers] at hp
    have hself : p = ⟨d.path.inNamespace, d.path.name, []⟩ := List.mem_singleton.1 hp
    exact ⟨d, hd, by rw [hself, ← hcontainers]⟩
  | cons name containers ih =>
    rcases List.mem_cons.1 hp with rfl | hp
    · exact ⟨d, hd, rfl⟩
    · have hreverse : d.outer.reverse = name :: containers := hcontainers
      rcases henclosed d hd with houter | ⟨d', hd', hspace, houter⟩
      · rw [houter] at hreverse
        cases hreverse
      · have hpath : d'.path.name :: d'.path.containers = name :: containers := by
          rw [← hreverse, ← houter, List.reverse_append]
          rfl
        refine ih d' hd' ?_ (List.cons.inj hpath).2
        rwa [hpath, show d'.path.inNamespace = d.path.inNamespace from hspace, ← hcontainers]

end TypeDeclaration

namespace Outline

/-- What holds of the outlines of files and of library types. -/
structure Regular (o : Outline) : Prop where
  /-- Types stand in the global namespace or in declared ones. -/
  declaredIn : o.DeclaredIn ""
  /-- Types around types are declared. -/
  enclosed : o.Enclosed

theorem regular_ofFile (src : Source) (tree : Tree) : (ofFile src tree).Regular :=
  ⟨declaredIn_ofFile src tree, enclosed_ofFile src tree⟩

/-- The type declarations of several outlines. -/
def declarations (os : List Outline) : List TypeDeclaration := os.flatMap (·.types)

theorem enclosedIn_declarations {os : List Outline} (h : ∀ o ∈ os, o.Regular) {d : TypeDeclaration}
    (hd : d ∈ declarations os) : d.EnclosedIn (declarations os) := by
  obtain ⟨o, ho, hd⟩ := List.mem_flatMap.1 hd
  exact ((h o ho).enclosed d hd).mono fun d' hd' => List.mem_flatMap.2 ⟨o, ho, hd'⟩

end Outline

/-! ### Library types as outlines -/

namespace LibraryType

/-- The declarations of nested types, each in the one before.  `outer` lists the types around the
first one, outermost first. -/
def declarations (space : String) (outer : List String) : List String → List TypeDeclaration
  | [] => []
  | name :: inner =>
    { inNamespace := space, outer, name, members := [], extent := { start := 0, stop := 0 } } ::
      declarations space (outer ++ [name]) inner

/-- A library type as a file that declares it. -/
def outline (l : LibraryType) : Outline :=
  { namespaces := [l.inNamespace], types := declarations l.inNamespace [] (l.name :: l.nested) }

theorem inNamespace_of_mem_declarations {space : String} {outer names : List String}
    {d : TypeDeclaration} (hd : d ∈ declarations space outer names) : d.inNamespace = space := by
  induction names generalizing outer with
  | nil => cases hd
  | cons name inner ih =>
    rcases List.mem_cons.1 hd with rfl | hd
    · rfl
    · exact ih hd

theorem name_of_mem_declarations {space : String} {outer names : List String}
    {d : TypeDeclaration} (hd : d ∈ declarations space outer names) : d.name ∈ names := by
  induction names generalizing outer with
  | nil => cases hd
  | cons name inner ih =>
    rcases List.mem_cons.1 hd with rfl | hd
    · exact List.mem_cons_self
    · exact List.mem_cons_of_mem name (ih hd)

theorem enclosed_of_mem_declarations {space : String} {outer names : List String}
    {d : TypeDeclaration} (hd : d ∈ declarations space outer names) :
    d.outer = outer ∨ d.EnclosedIn (declarations space outer names) := by
  induction names generalizing outer with
  | nil => cases hd
  | cons name inner ih =>
    rcases List.mem_cons.1 hd with rfl | hd
    · exact Or.inl rfl
    · rcases ih hd with houter | hd'
      · have hspace := inNamespace_of_mem_declarations hd
        exact Or.inr (Or.inr ⟨_, List.mem_cons_self, hspace.symm, houter.symm⟩)
      · exact Or.inr (hd'.mono (List.subset_cons_self _ _))

theorem regular_outline (l : LibraryType) : l.outline.Regular where
  declaredIn := fun _ hd => Or.inr (List.mem_singleton.2 (inNamespace_of_mem_declarations hd))
  enclosed := fun _ hd => (enclosed_of_mem_declarations hd).elim Or.inl id

end LibraryType

namespace SymbolTable

variable {t t' : SymbolTable}

/-! ### Merging what is there -/

theorem addMembers_eq_self {id : TypeId} {members : List String}
    (h : ∀ s, t.types[id]? = some s → ∀ name ∈ members, name ∈ s.members) :
    t.addMembers id members = t := by
  have htypes : (t.addMembers id members).types = t.types := by
    refine Array.ext_getElem? fun j => ?_
    rw [types_addMembers]
    cases hs : t.types[j]? with
    | none => rfl
    | some s =>
      rw [Option.map_some]
      by_cases hj : id = j
      · subst hj
        have hset : members.foldl (·.insert ·) s.members = s.members :=
          Std.ExtTreeSet.ext_mem fun name => by
            rw [mem_foldl_insert]
            exact ⟨fun hname => hname.elim (h s hs name) fun hold => hold, Or.inr⟩
        rw [if_pos rfl, hset]
      · rw [if_neg hj]
  obtain ⟨types, byFullName, namespaces⟩ := t
  exact congrArg (SymbolTable.mk · byFullName namespaces) htypes

theorem declareNamespace_eq_self {name : String}
    (h : ∀ space ∈ Name.withParents name, space ∈ t.namespaces) : t.declareNamespace name = t := by
  have hspaces : (t.declareNamespace name).namespaces = t.namespaces :=
    Std.ExtTreeSet.ext_mem fun space => by
      rw [mem_namespaces_declareNamespace]
      exact ⟨fun hspace => hspace.elim (h space) fun hold => hold, Or.inr⟩
  obtain ⟨types, byFullName, namespaces⟩ := t
  exact congrArg (SymbolTable.mk types byFullName ·) hspaces

/-- A declaration that a table was made from is found and adds nothing. -/
theorem MadeFrom.addDeclaration_eq_self {ds : List TypeDeclaration} (h : MadeFrom ds t)
    (hwf : t.WellFormed) {d : TypeDeclaration} (hd : d ∈ ds) : t.addDeclaration d = t := by
  obtain ⟨id, hid⟩ := h.found d hd
  have hfound : t.ensureType d.inNamespace d.outer d.name = (some id, t) := by
    rw [ensureType_eq]
    refine ensurePath_cons_some ?_
    rw [← hid, ← d.fullName_path]
    rfl
  rw [SymbolTable.addDeclaration, hfound]
  refine addMembers_eq_self fun s hs name hname => ?_
  obtain ⟨s', hs', hfull⟩ := hwf.exists_of_byFullName hid
  obtain rfl : s = s' := Option.some.inj (hs.symm.trans hs')
  exact (h.members_iff id s hs name).2 ⟨d, hd, hfull.symm, hname⟩

/-- **Merging a file again changes nothing**, as long as its namespaces and declarations are among
those that the table was made from. -/
theorem addFile_eq_self {ds : List TypeDeclaration} (h : MadeFrom ds t) (hwf : t.WellFormed)
    {o : Outline}
    (hspaces : ∀ name ∈ o.namespaces, ∀ space ∈ Name.withParents name, space ∈ t.namespaces)
    (htypes : o.types ⊆ ds) : t.addFile o = t := by
  have hnames : o.namespaces.foldl declareNamespace t = t :=
    List.foldlRecOn o.namespaces declareNamespace (motive := (· = t)) rfl fun _ ht' name hname => by
      rw [ht', declareNamespace_eq_self (hspaces name hname)]
  rw [addFile, hnames]
  exact List.foldlRecOn o.types addDeclaration (motive := (· = t)) rfl fun t' ht' d hd => by
    rw [ht', h.addDeclaration_eq_self hwf (htypes hd)]

/-! ### Merging outlines -/

/-- The table of a program with the given outlines. -/
def ofOutlines (os : List Outline) : SymbolTable := os.foldl addFile empty

theorem madeFrom_foldl_addFile {ds : List TypeDeclaration} (h : MadeFrom ds t) (hwf : t.WellFormed)
    {os : List Outline} (hos : ∀ o ∈ os, o.Regular) :
    MadeFrom (ds ++ Outline.declarations os) (os.foldl addFile t) ∧
      (os.foldl addFile t).WellFormed := by
  induction os generalizing t ds with
  | nil => exact ⟨by simpa [Outline.declarations] using h, hwf⟩
  | cons o os ih =>
    have ho := (hos o List.mem_cons_self).declaredIn
    have hnext := ih (h.addFile hwf ho) ((grows_addFile hwf ho).wellFormed hwf) fun o' ho' =>
      hos o' (List.mem_cons_of_mem o ho')
    rwa [List.append_assoc] at hnext

/-- **What a table contains is what its outlines declare.** -/
theorem madeFrom_ofOutlines {os : List Outline} (hos : ∀ o ∈ os, o.Regular) :
    MadeFrom (Outline.declarations os) (ofOutlines os) :=
  (madeFrom_foldl_addFile madeFrom_empty wellFormed_empty hos).1

theorem wellFormed_ofOutlines {os : List Outline} (hos : ∀ o ∈ os, o.Regular) :
    (ofOutlines os).WellFormed :=
  (madeFrom_foldl_addFile madeFrom_empty wellFormed_empty hos).2

theorem mem_namespaces_addFile {o : Outline} {space : String} :
    space ∈ (t.addFile o).namespaces ↔
      (∃ name ∈ o.namespaces, space ∈ Name.withParents name) ∨ space ∈ t.namespaces := by
  have htypes (t : SymbolTable) : (o.types.foldl addDeclaration t).namespaces = t.namespaces :=
    List.foldlRecOn o.types addDeclaration (motive := fun t' => t'.namespaces = t.namespaces) rfl
      fun t' ht' d _ => (namespaces_addDeclaration d).trans ht'
  rw [addFile, htypes, mem_namespaces_foldl_declareNamespace]

/-- **The namespaces of a table are those that its outlines declare**, and the namespaces around
them. -/
theorem mem_namespaces_ofOutlines {os : List Outline} {space : String} :
    space ∈ (ofOutlines os).namespaces ↔
      ∃ o ∈ os, ∃ name ∈ o.namespaces, space ∈ Name.withParents name := by
  suffices h : ∀ t : SymbolTable, space ∈ (os.foldl addFile t).namespaces ↔
      (∃ o ∈ os, ∃ name ∈ o.namespaces, space ∈ Name.withParents name) ∨ space ∈ t.namespaces by
    rw [ofOutlines, h]
    simp [empty]
  induction os with
  | nil => simp
  | cons o os ih =>
    intro t
    rw [List.foldl_cons, ih, mem_namespaces_addFile]
    simp only [List.mem_cons, exists_eq_or_imp]
    rw [or_left_comm, or_assoc]

/-! ### Updates as outlines -/

/-- A declaration without members only finds or adds its type. -/
theorem addDeclaration_of_members_eq_nil {d : TypeDeclaration} (h : d.members = []) :
    t.addDeclaration d = (t.ensureType d.inNamespace d.outer d.name).2 := by
  rw [addDeclaration, h]
  split
  · next id t' heq =>
    rw [heq]
    exact addMembers_eq_self fun _ _ _ hname => absurd hname List.not_mem_nil
  · next t' heq => rw [heq]

theorem ensureChain_eq_foldl (space : String) (outer names : List String) :
    ensureChain space outer names t =
      (LibraryType.declarations space outer names).foldl addDeclaration t := by
  induction names generalizing t outer with
  | nil => rfl
  | cons name inner ih =>
    rw [ensureChain, ih, LibraryType.declarations, List.foldl_cons,
      addDeclaration_of_members_eq_nil rfl]

theorem addLibraryType_eq_addFile (l : LibraryType) : t.addLibraryType l = t.addFile l.outline :=
  ensureChain_eq_foldl l.inNamespace [] (l.name :: l.nested)

/-- What an update declares; a malformed library type declares nothing. -/
def Update.outline : Update → Outline
  | .file src tree => Outline.ofFile src tree
  | .library entry => ((LibraryType.parse? entry).map LibraryType.outline).getD {}

theorem Update.regular_outline (u : Update) : u.outline.Regular := by
  cases u with
  | file src tree => exact Outline.regular_ofFile src tree
  | library entry =>
    rw [outline]
    cases LibraryType.parse? entry with
    | some l => exact l.regular_outline
    | none => constructor <;> intro d hd <;> cases hd

theorem update_eq_addFile (u : Update) : t.update u = t.addFile u.outline := by
  cases u with
  | file src tree => rfl
  | library entry =>
    rw [update, Update.outline, Analysis.addLibraryEntry]
    cases LibraryType.parse? entry with
    | some l => exact addLibraryType_eq_addFile l
    | none => rfl

/-- **Every table that can be built is made by merging outlines.** -/
theorem build_eq_ofOutlines (updates : List Update) :
    build updates = ofOutlines (updates.map Update.outline) := by
  rw [build, ofOutlines, List.foldl_map]
  congr 1
  funext t u
  exact update_eq_addFile u

/-- The type declarations of a list of updates. -/
def declarations (updates : List Update) : List TypeDeclaration :=
  Outline.declarations (updates.map Update.outline)

theorem regular_outlines {updates : List Update} {o : Outline}
    (ho : o ∈ updates.map Update.outline) : o.Regular := by
  obtain ⟨u, -, rfl⟩ := List.mem_map.1 ho
  exact u.regular_outline

theorem madeFrom_build (updates : List Update) :
    MadeFrom (declarations updates) (build updates) := by
  rw [build_eq_ofOutlines]
  exact madeFrom_ofOutlines fun _ => regular_outlines

/-- Merging a file into a table that it was merged into before leaves the table as it is. -/
theorem addFile_build_eq_self {updates : List Update} {u : Update} (hu : u ∈ updates) :
    (build updates).addFile u.outline = build updates := by
  have ho : u.outline ∈ updates.map Update.outline := List.mem_map_of_mem hu
  refine addFile_eq_self (madeFrom_build updates) (reachable_build updates).wellFormed
    (fun name hname space hspace => ?_) fun d hd => List.mem_flatMap.2 ⟨u.outline, ho, hd⟩
  rw [build_eq_ofOutlines]
  exact mem_namespaces_ofOutlines.2 ⟨u.outline, ho, name, hname, hspace⟩

end SymbolTable

end Unqualify
