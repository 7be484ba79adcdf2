import Unqualify.Analysis
import Unqualify.Proofs.Outline.Declared
import Unqualify.Proofs.SymbolTable.Step

/-!
# Tables that can be built

A program's table is built by a list of updates (`SymbolTable.build`): the declarations of a file,
or a library type from the configuration, which may turn out to be malformed.  Every update is
made of the elementary steps of `SymbolTable.Step` (`SymbolTable.grows_update`), so every table
that can be built is well formed (`SymbolTable.wellFormed_build`).

The find-or-add recursion `ensurePath` is where this needs an argument: the type it finds may
have been added under another split into namespace and containers, but its full name is the one
that was asked for, and adding the containers never takes the name of the type below them.

No update takes a full name away, so the types of a file are there to be found once the file is
merged (`SymbolTable.fullName_mem_byFullName_addFile`).
-/

namespace Unqualify

namespace SymbolTable

variable {t : SymbolTable}

/-- One update of a table. -/
inductive Update where
  /-- Merge what a source file declares. -/
  | file (src : Source) (tree : Tree)
  /-- Add a library type as it is written in the configuration. -/
  | library (entry : String)

/-- Make one update.  A malformed library type is refused and leaves the table as it is. -/
def update (t : SymbolTable) : Update → SymbolTable
  | .file src tree => t.addFile (Outline.ofFile src tree)
  | .library entry =>
    match Analysis.addLibraryEntry t entry with
    | .ok t' => t'
    | .error _ => t

/-- The table after a list of updates. -/
def build (updates : List Update) : SymbolTable :=
  updates.foldl update empty

/-- The table comes from the empty one by elementary steps. -/
def Reachable (t : SymbolTable) : Prop := Grows empty t

theorem Reachable.wellFormed (h : t.Reachable) : t.WellFormed :=
  Grows.wellFormed h wellFormed_empty

/-! ### Finding or adding a path -/

theorem fullNameOf_cons (space name : String) {containers : List String} (h : containers ≠ []) :
    fullNameOf space (name :: containers) = fullNameOf space containers ++ "." ++ name := by
  simp only [fullNameOf, List.reverse_cons]
  exact Name.join_ofSegments_concat space (by simpa using h) name

/-- A longer path has a longer full name. -/
theorem length_fullNameOf_le (space : String) {path suffix : List String}
    (hsuffix : suffix <:+ path) (hne : suffix ≠ []) :
    (fullNameOf space suffix).length ≤ (fullNameOf space path).length := by
  induction path with
  | nil => exact absurd (List.suffix_nil.1 hsuffix) hne
  | cons name containers ih =>
    rcases List.suffix_cons_iff.1 hsuffix with rfl | hsuffix
    · exact Nat.le_refl _
    · have hcont : containers ≠ [] := by
        rintro rfl
        exact hne (List.suffix_nil.1 hsuffix)
      rw [fullNameOf_cons space name hcont, String.length_append, String.length_append]
      have hle := ih hsuffix
      omega

theorem fullNameOf_cons_ne {space name : String} {containers suffix : List String}
    (hsuffix : suffix <:+ containers) (hne : suffix ≠ []) :
    fullNameOf space (name :: containers) ≠ fullNameOf space suffix := by
  have hcont : containers ≠ [] := by
    rintro rfl
    exact hne (List.suffix_nil.1 hsuffix)
  intro heq
  have hle := length_fullNameOf_le space hsuffix hne
  rw [← heq, fullNameOf_cons space name hcont, String.length_append, String.length_append] at hle
  have hdot : ".".length = 1 := rfl
  omega

theorem ensurePath_cons_some {space name : String} {containers : List String} {id : TypeId}
    (h : t.byFullName[fullNameOf space (name :: containers)]? = some id) :
    ensurePath space (name :: containers) t = (some id, t) := by
  rw [ensurePath, h]

theorem ensurePath_cons_none {space name : String} {containers : List String}
    (h : t.byFullName[fullNameOf space (name :: containers)]? = none) :
    ensurePath space (name :: containers) t =
      (some (ensurePath space containers t).2.types.size,
        (ensurePath space containers t).2.addType space (fullNameOf space (name :: containers))
          name (ensurePath space containers t).1) := by
  rw [ensurePath, h]

@[simp] theorem namespaces_ensurePath (space : String) (path : List String) (t : SymbolTable) :
    (ensurePath space path t).2.namespaces = t.namespaces := by
  induction path with
  | nil => rfl
  | cons name containers ih =>
    cases h : t.byFullName[fullNameOf space (name :: containers)]? with
    | some id => rw [ensurePath_cons_some h]
    | none => rw [ensurePath_cons_none h, namespaces_addType, ih]

/-- Only the path itself and the paths around it can be new. -/
theorem exists_suffix_of_byFullName_ensurePath {space q : String} {path : List String} {id : TypeId}
    (h : (ensurePath space path t).2.byFullName[q]? = some id) :
    t.byFullName[q]? = some id ∨ ∃ suffix, suffix ≠ [] ∧ suffix <:+ path ∧
      q = fullNameOf space suffix := by
  induction path with
  | nil => exact Or.inl h
  | cons name containers ih =>
    cases hfound : t.byFullName[fullNameOf space (name :: containers)]? with
    | some id' =>
      rw [ensurePath_cons_some hfound] at h
      exact Or.inl h
    | none =>
      rw [ensurePath_cons_none hfound, byFullName_addType] at h
      split_ifs at h with hq
      · exact Or.inr ⟨_, by simp, List.suffix_rfl, hq.symm⟩
      · rcases ih h with hold | ⟨suffix, hne, hsuffix, hq'⟩
        · exact Or.inl hold
        · exact Or.inr ⟨suffix, hne, hsuffix.trans (List.suffix_cons _ _), hq'⟩

/-- Adding the containers of a type leaves its full name free. -/
theorem fresh_after_containers {space name : String} {containers : List String}
    (h : t.byFullName[fullNameOf space (name :: containers)]? = none) :
    (ensurePath space containers t).2.byFullName[fullNameOf space (name :: containers)]? =
      none := by
  cases hfound :
    (ensurePath space containers t).2.byFullName[fullNameOf space (name :: containers)]? with
  | none => rfl
  | some id =>
    rcases exists_suffix_of_byFullName_ensurePath hfound with hold | ⟨suffix, hne, hsuffix, heq⟩
    · rw [h] at hold
      cases hold
    · -- the containers are shorter paths, with shorter full names
      exact absurd heq (fullNameOf_cons_ne hsuffix hne)

/-- What the number is that `ensurePath` gives back: none for the empty path, otherwise the
number of a type with the full name asked for. -/
def Ensures (space : String) (path : List String) (found : Option TypeId × SymbolTable) : Prop :=
  match path with
  | [] => found.1 = none
  | _ :: _ => ∃ id, found.1 = some id ∧ found.2.fullName? id = some (fullNameOf space path)

theorem Ensures.nameBelow? {space : String} {containers : List String}
    {found : Option TypeId × SymbolTable} (h : Ensures space containers found) (name : String) :
    found.2.nameBelow? space name found.1 = some (fullNameOf space (name :: containers)) := by
  cases containers with
  | nil =>
    rw [show found.1 = none from h]
    simp [SymbolTable.nameBelow?, fullNameOf, Name.ofSegments]
  | cons outer outers =>
    obtain ⟨id, hid, hname⟩ := h
    rw [hid, SymbolTable.nameBelow?, hname, fullNameOf_cons space name (by simp)]
    rfl

/-- **Finding or adding a path** is a sequence of steps, and gives a type of the full name asked
for. -/
theorem grows_ensurePath (h : t.WellFormed) {space : String}
    (declared : Name.Proper space → space ∈ t.namespaces) (path : List String) :
    Grows t (ensurePath space path t).2 ∧ Ensures space path (ensurePath space path t) := by
  induction path with
  | nil => exact ⟨.refl, rfl⟩
  | cons name containers ih =>
    cases hfound : t.byFullName[fullNameOf space (name :: containers)]? with
    | some id =>
      obtain ⟨s, hs, hname⟩ := h.exists_of_byFullName hfound
      rw [ensurePath_cons_some hfound]
      exact ⟨.refl, id, rfl, by simp [fullName?, hs, hname]⟩
    | none =>
      -- first the containers; the full name is still free then
      obtain ⟨hgrows, hensures⟩ := ih
      have hplaced := hensures.nameBelow? name
      rw [ensurePath_cons_none hfound]
      refine ⟨hgrows.tail (.addType _ _ _ _ (fresh_after_containers hfound) hplaced ?_), _, rfl, ?_⟩
      · rw [namespaces_ensurePath]
        exact declared
      · simp [fullName?, types_addType_size hplaced]

/-! ### Updates -/

theorem ensureType_eq (space name : String) (outer : List String) :
    t.ensureType space outer name = ensurePath space (name :: outer.reverse) t := rfl

@[simp] theorem namespaces_addDeclaration (d : TypeDeclaration) :
    (t.addDeclaration d).namespaces = t.namespaces := by
  have h := namespaces_ensurePath d.inNamespace (d.name :: d.outer.reverse) t
  rw [addDeclaration, ensureType_eq]
  generalize ensurePath d.inNamespace (d.name :: d.outer.reverse) t = found at h
  obtain ⟨_ | id, t'⟩ := found <;> exact h

theorem grows_addDeclaration (h : t.WellFormed) {d : TypeDeclaration}
    (declared : Name.Proper d.inNamespace → d.inNamespace ∈ t.namespaces) :
    Grows t (t.addDeclaration d) := by
  have hgrows := (grows_ensurePath h declared (d.name :: d.outer.reverse)).1
  rw [addDeclaration, ensureType_eq]
  generalize ensurePath d.inNamespace (d.name :: d.outer.reverse) t = found at hgrows
  obtain ⟨_ | id, t'⟩ := found
  · exact hgrows
  · exact hgrows.tail (.addMembers id d.members)

theorem grows_foldl_addDeclaration (h : t.WellFormed) {ds : List TypeDeclaration}
    (declared : ∀ d ∈ ds, Name.Proper d.inNamespace → d.inNamespace ∈ t.namespaces) :
    Grows t (ds.foldl addDeclaration t) := by
  induction ds generalizing t with
  | nil => exact .refl
  | cons d ds ih =>
    have hfirst := grows_addDeclaration h (declared d List.mem_cons_self)
    refine hfirst.trans (ih (hfirst.wellFormed h) fun d' hd' => ?_)
    rw [namespaces_addDeclaration]
    exact declared d' (List.mem_cons_of_mem _ hd')

theorem grows_foldl_declareNamespace (t : SymbolTable) (names : List String) :
    Grows t (names.foldl declareNamespace t) := by
  induction names generalizing t with
  | nil => exact .refl
  | cons name names ih => exact .head (.declareNamespace name) (ih _)

theorem mem_namespaces_foldl_declareNamespace {names : List String} {space : String} :
    space ∈ (names.foldl declareNamespace t).namespaces ↔
      (∃ name ∈ names, space ∈ Name.withParents name) ∨ space ∈ t.namespaces := by
  induction names generalizing t with
  | nil => simp
  | cons name names ih =>
    simp only [List.foldl_cons, ih, mem_namespaces_declareNamespace, List.mem_cons,
      exists_eq_or_imp]
    rw [or_left_comm, or_assoc]

theorem not_proper_empty : ¬ Name.Proper "" := by decide

/-- Once the namespaces of a file are declared, those of its types are there. -/
theorem mem_namespaces_of_declaredIn {file : Outline} (hdecl : file.DeclaredIn "")
    {d : TypeDeclaration} (hd : d ∈ file.types) (hproper : Name.Proper d.inNamespace) :
    d.inNamespace ∈ (file.namespaces.foldl declareNamespace t).namespaces := by
  rcases hdecl d hd with hglobal | hmem
  · exact absurd (hglobal ▸ hproper) not_proper_empty
  · exact mem_namespaces_foldl_declareNamespace.2
      (Or.inl ⟨_, hmem, Name.self_mem_withParents hproper⟩)

theorem grows_addFile (h : t.WellFormed) {file : Outline} (hdecl : file.DeclaredIn "") :
    Grows t (t.addFile file) := by
  have hspaces := grows_foldl_declareNamespace t file.namespaces
  exact hspaces.trans (grows_foldl_addDeclaration (hspaces.wellFormed h) fun d hd =>
    mem_namespaces_of_declaredIn hdecl hd)

theorem grows_ensureChain (h : t.WellFormed) {space : String}
    (declared : Name.Proper space → space ∈ t.namespaces) (outer inner : List String) :
    Grows t (ensureChain space outer inner t) := by
  induction inner generalizing t outer with
  | nil => exact .refl
  | cons name inner ih =>
    rw [ensureChain, ensureType_eq]
    have hfirst := (grows_ensurePath h declared (name :: outer.reverse)).1
    refine hfirst.trans (ih (hfirst.wellFormed h) ?_ _)
    rw [namespaces_ensurePath]
    exact declared

theorem grows_addLibraryType (h : t.WellFormed) (l : LibraryType) :
    Grows t (t.addLibraryType l) := by
  refine .head (.declareNamespace l.inNamespace) (grows_ensureChain (h.declareNamespace _) ?_ _ _)
  intro hproper
  exact mem_namespaces_declareNamespace.2 (Or.inl (Name.self_mem_withParents hproper))

/-- **Every update is made of elementary steps.** -/
theorem grows_update (h : t.WellFormed) (u : Update) : Grows t (t.update u) := by
  cases u with
  | file src tree => exact grows_addFile h (Outline.declaredIn_ofFile src tree)
  | library entry =>
    simp only [update, Analysis.addLibraryEntry]
    cases LibraryType.parse? entry with
    | some l => exact grows_addLibraryType h l
    | none => exact .refl

theorem reachable_build (updates : List Update) : (build updates).Reachable := by
  -- an update grows a table only if it is well formed, so reachability is carried along
  suffices h : ∀ t : SymbolTable, t.Reachable → (updates.foldl update t).Reachable from
    h empty .refl
  induction updates with
  | nil => exact fun t ht => ht
  | cons u us ih => exact fun t ht => ih _ (ht.trans (grows_update ht.wellFormed u))

/-- **Every table that can be built is well formed**, whatever files and library types it was
built from and in whatever order: the index by full name, the containers, the nested types and
the namespaces agree. -/
theorem wellFormed_build (updates : List Update) : (build updates).WellFormed :=
  (reachable_build updates).wellFormed

/-! ### What an update makes findable -/

theorem mem_byFullName_addType {inNamespace fullName name q : String} {container : Option TypeId} :
    q ∈ (t.addType inNamespace fullName name container).byFullName ↔
      fullName = q ∨ q ∈ t.byFullName := by
  simp only [addType, Std.ExtTreeMap.mem_insert, Std.LawfulEqOrd.compare_eq_iff_eq]

theorem mem_byFullName_ensurePath_of_mem {space q : String} {path : List String}
    (h : q ∈ t.byFullName) : q ∈ (ensurePath space path t).2.byFullName := by
  induction path with
  | nil => exact h
  | cons name containers ih =>
    cases hfound : t.byFullName[fullNameOf space (name :: containers)]? with
    | some id => rwa [ensurePath_cons_some hfound]
    | none =>
      rw [ensurePath_cons_none hfound]
      exact mem_byFullName_addType.2 (Or.inr ih)

/-- The type asked for is there afterwards. -/
theorem fullNameOf_mem_byFullName_ensurePath (space name : String) (containers : List String) :
    fullNameOf space (name :: containers) ∈
      (ensurePath space (name :: containers) t).2.byFullName := by
  cases hfound : t.byFullName[fullNameOf space (name :: containers)]? with
  | some id =>
    rw [ensurePath_cons_some hfound]
    exact Std.ExtTreeMap.mem_iff_isSome_getElem?.2 (by rw [hfound]; rfl)
  | none =>
    rw [ensurePath_cons_none hfound]
    exact mem_byFullName_addType.2 (Or.inl rfl)

theorem byFullName_addDeclaration (d : TypeDeclaration) :
    (t.addDeclaration d).byFullName =
      (ensurePath d.inNamespace (d.name :: d.outer.reverse) t).2.byFullName := by
  rw [addDeclaration, ensureType_eq]
  split
  · next heq => rw [heq, byFullName_addMembers]
  · next heq => rw [heq]

theorem mem_byFullName_foldl_addDeclaration {ds : List TypeDeclaration} {q : String}
    (h : q ∈ t.byFullName ∨ ∃ d ∈ ds, d.fullName = q) :
    q ∈ (ds.foldl addDeclaration t).byFullName := by
  induction ds generalizing t with
  | nil => simpa using h
  | cons d ds ih =>
    refine ih ?_
    rw [byFullName_addDeclaration]
    rcases h with hold | ⟨d', hd', rfl⟩
    · exact Or.inl (mem_byFullName_ensurePath_of_mem hold)
    · rcases List.mem_cons.1 hd' with rfl | hd'
      · have hmem := fullNameOf_mem_byFullName_ensurePath (t := t) d'.inNamespace d'.name
          d'.outer.reverse
        rw [fullNameOf, List.reverse_cons, List.reverse_reverse] at hmem
        exact Or.inl hmem
      · exact Or.inr ⟨d', hd', rfl⟩

/-- **Every type of a merged file is findable**, whatever table it is merged into. -/
theorem fullName_mem_byFullName_addFile {file : Outline} {d : TypeDeclaration}
    (hd : d ∈ file.types) : d.fullName ∈ (t.addFile file).byFullName :=
  mem_byFullName_foldl_addDeclaration (Or.inr ⟨d, hd, rfl⟩)

end SymbolTable

end Unqualify
