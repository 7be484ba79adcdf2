import Unqualify.Proofs.Model.Namespaces
import Unqualify.Proofs.Scan.Report
import Unqualify.Proofs.SymbolTable.Outlines

/-!
# Types that are spelled out

A chain of names below a namespace that spells the full name of a type directly in a namespace comes
to that type with its last name, as long as no beginning of it spells the name of another such type:
every name before the last denotes a namespace (`Scanner.entityOf?_chain`).  Whatever follows
denotes no such type (`Scanner.findingsOf_chain`), so the chain is reported once, at the name of the
type (`Scanner.exists_findingsOf_chain_eq`).

The full name of a type determines its namespace because no simple name of a type holds a dot
(`SymbolTable.inNamespace_of_fullName`).  Names in files come from identifiers
(`SymbolTable.Update.HasPlainNames`), and those of library types are checked
(`LibraryType.dot_not_mem_of_parse?`).
-/

namespace Unqualify

/-! ### Names without dots -/

theorem LibraryType.dot_not_mem_of_parse? {entry : String} {l : LibraryType}
    (h : parse? entry = some l) {name : String} (hname : name ∈ l.name :: l.nested) :
    '.' ∉ name.toList := by
  rw [parse?] at h
  split_ifs at h with hparts
  obtain rfl := Option.some.inj h
  exact (Name.isIdentifier_iff.1
    (List.all_eq_true.1 hparts name (List.mem_append_right _ hname))).dot_not_mem

namespace SymbolTable

/-- The names of the types that a file declares hold no dots, as identifiers do not. -/
def Update.HasPlainNames : Update → Prop
  | .file src tree => ∀ d ∈ (Outline.ofFile src tree).types, '.' ∉ d.name.toList
  | .library _ => True

instance : DecidablePred Update.HasPlainNames
  | .file src tree =>
    inferInstanceAs (Decidable (∀ d ∈ (Outline.ofFile src tree).types, '.' ∉ d.name.toList))
  | .library _ => inferInstanceAs (Decidable True)

theorem Update.HasPlainNames.dot_not_mem {u : Update} (h : u.HasPlainNames) {d : TypeDeclaration}
    (hd : d ∈ u.outline.types) : '.' ∉ d.name.toList := by
  cases u with
  | file src tree => exact h d hd
  | library entry =>
    rw [outline] at hd
    cases hl : LibraryType.parse? entry with
    | none => rw [hl] at hd; cases hd
    | some l =>
      rw [hl] at hd
      exact LibraryType.dot_not_mem_of_parse? hl (LibraryType.name_of_mem_declarations hd)

/-- **The full name of a type directly in a namespace determines the namespace.** -/
theorem inNamespace_of_fullName {updates : List Update} (hplain : ∀ u ∈ updates, u.HasPlainNames)
    {id : TypeId} {s : TypeSymbol} (hs : (build updates).types[id]? = some s)
    (hcont : s.container = none) {space name : String} (hname : '.' ∉ name.toList)
    (hfull : s.fullName = Name.join space name) : s.inNamespace = space := by
  obtain ⟨p, hp, hplaced⟩ := (madeFrom_build updates).placed id s hs
  have hcontainers : p.containers = [] :=
    (hplaced.container_eq_none_iff (reachable_build updates).wellFormed hs).1 hcont
  obtain ⟨d, hd, rfl⟩ := TypeDeclaration.exists_path_eq
    (fun d => Outline.enclosedIn_declarations fun _ => regular_outlines) hp
  have hdot : '.' ∉ d.name.toList := by
    obtain ⟨o, ho, hd⟩ := List.mem_flatMap.1 hd
    obtain ⟨u, hu, rfl⟩ := List.mem_map.1 ho
    exact (hplain u hu).dot_not_mem hd
  have hpath : d.path = ⟨d.inNamespace, d.name, []⟩ := by rw [← hcontainers]; rfl
  rw [hplaced.fullName_eq, hpath, TypePath.fullName_topLevel] at hfull
  rw [hplaced.inNamespace_eq]
  exact (Name.join_inj hdot hname hfull).1

/-- Some type directly in a namespace has the full name. -/
def HasTopLevelType (t : SymbolTable) (fullName : String) : Prop :=
  ∃ s ∈ t.types, s.container = none ∧ s.fullName = fullName

instance (t : SymbolTable) (fullName : String) : Decidable (t.HasTopLevelType fullName) :=
  inferInstanceAs (Decidable (∃ s ∈ t.types, s.container = none ∧ s.fullName = fullName))

theorem topLevelType?_eq_none {t : SymbolTable} (hwf : t.WellFormed) {space name : String}
    (h : ¬t.HasTopLevelType (Name.join space name)) : t.topLevelType? space name = none := by
  refine Option.eq_none_iff_forall_ne_some.2 fun id hid => h ?_
  obtain ⟨s, hs, hcont, hname⟩ := (topLevelType?_eq_some_iff hwf).1 hid
  exact ⟨s, Array.mem_of_getElem? hs, hcont, hname⟩

end SymbolTable

/-! ### Chains over a namespace -/

/-- The names of a chain of accesses. -/
def Access.names (forms : List Access) : List String := forms.map (·.name.identifier)

/-- Every name of a chain is there and holds no dot. -/
def Access.HavePlainNames (forms : List Access) : Prop :=
  ∀ form ∈ forms, form.name.identifier ≠ "" ∧ '.' ∉ form.name.identifier.toList

instance (forms : List Access) : Decidable (Access.HavePlainNames forms) :=
  inferInstanceAs (Decidable (∀ form ∈ forms, _ ∧ _))

/-- Accesses over an expression, one after the other. -/
def Expression.chain (e : Expression) (forms : List Access) : Expression := forms.foldl .access e

theorem Expression.chain_concat (e : Expression) (forms : List Access) (form : Access) :
    e.chain (forms ++ [form]) = .access (e.chain forms) form := by
  rw [chain, List.foldl_append]
  rfl

theorem Expression.chain_append (e : Expression) (forms forms' : List Access) :
    e.chain (forms ++ forms') = (e.chain forms).chain forms' :=
  List.foldl_append

/-- The name that the names of a chain spell below a namespace. -/
def Access.spelledBelow (space : String) (forms : List Access) : String :=
  (names forms).foldl Name.join space

theorem Access.spelledBelow_eq_join {space : String} (hspace : space ≠ "") {forms : List Access}
    (hne : forms ≠ []) :
    spelledBelow space forms = Name.join space (Name.ofSegments (names forms)) :=
  Name.foldl_join hspace (by simpa [names] using hne)

theorem Access.spelledBelow_concat (space : String) (forms : List Access) (form : Access) :
    spelledBelow space (forms ++ [form]) =
      Name.join (spelledBelow space forms) form.name.identifier := by
  rw [spelledBelow, names, List.map_append, List.foldl_append]
  rfl

theorem Access.proper_spelledBelow {space : String} (hspace : Name.Proper space)
    {forms : List Access} (hplain : HavePlainNames forms) :
    Name.Proper (spelledBelow space forms) := by
  induction forms using List.reverseRecOn with
  | nil => exact hspace
  | append_singleton forms form ih =>
    rw [spelledBelow_concat]
    obtain ⟨hne, hdot⟩ := hplain form (by simp)
    exact (ih fun f hf => hplain f (List.mem_append_left _ hf)).join hdot hne

namespace SymbolTable

/-- With a namespace below another one, that one is there. -/
theorem WellFormed.mem_namespaces_of_join {t : SymbolTable} (hwf : t.WellFormed)
    {space name : String} (hspace : space ≠ "") (hname : '.' ∉ name.toList)
    (h : Name.join space name ∈ t.namespaces) : space ∈ t.namespaces := by
  have hparent := hwf.parent_mem _ h
  rw [Name.segments_join space hname, if_neg hspace, Name.parent_join hspace hname] at hparent
  refine hparent ?_
  have hpos := List.length_pos_of_ne_nil (Name.segments_ne_nil space)
  rw [List.length_append, List.length_singleton]
  omega

end SymbolTable

namespace Scanner

variable {s : Scanner} {m : Model}

theorem entityOf?_of_resolve {e : Expression} (h : (m.resolve e).kind = .nameSpace) :
    m.entityOf? e = some (.nameSpace (m.resolve e).fullName) := by
  rw [Model.resolve] at h ⊢
  cases he : m.entityOf? e with
  | none => rw [he] at h; cases h
  | some entity =>
    rw [he] at h
    cases entity with
    | nameSpace space => rfl
    | localName name => cases h
    | type id =>
      cases ht : m.table.types[id]? <;> simp [SymbolTable.describe, ht, Symbol.unknown] at h
    | member owner name =>
      cases ht : m.table.types[owner]? <;> simp [SymbolTable.describe, ht, Symbol.unknown] at h

/-- The global namespace and misspelled ones are never denoted. -/
theorem proper_of_entityOf? (hwf : m.table.WellFormed) {e : Expression} {space : String}
    (h : m.entityOf? e = some (.nameSpace space)) : Name.Proper space :=
  hwf.proper_of_mem space (Model.mem_namespaces_of_entityOf? h)

/-- **A chain that spells a namespace denotes it**, as long as no beginning spells the name of a
type. -/
theorem entityOf?_chain (hwf : m.table.WellFormed) {base : Expression} {space : String}
    (hbase : m.entityOf? base = some (.nameSpace space)) {forms : List Access}
    (hplain : Access.HavePlainNames forms)
    (hmem : Access.spelledBelow space forms ∈ m.table.namespaces)
    (hnone : ∀ initial, initial ≠ [] → initial <+: forms →
      ¬m.table.HasTopLevelType (Access.spelledBelow space initial)) :
    m.entityOf? (base.chain forms) = some (.nameSpace (Access.spelledBelow space forms)) := by
  have hspace := proper_of_entityOf? hwf hbase
  induction forms using List.reverseRecOn with
  | nil => exact hbase
  | append_singleton forms form ih =>
    have hplain' : Access.HavePlainNames forms := fun f hf => hplain f (List.mem_append_left _ hf)
    have hproper := Access.proper_spelledBelow hspace hplain'
    have htype := hnone (forms ++ [form]) (by simp) (List.prefix_refl _)
    rw [Access.spelledBelow_concat] at hmem htype ⊢
    have hmem' := hwf.mem_namespaces_of_join hproper.ne_empty (hplain form (by simp)).2 hmem
    have hleft := ih hplain' hmem' fun initial hne hinitial =>
      hnone initial hne (hinitial.trans (List.prefix_append _ _))
    rw [Expression.chain_concat, Model.entityOf?, hleft, Option.bind_some, SymbolTable.memberOf?,
      SymbolTable.topLevelType?_eq_none hwf htype,
      SymbolTable.childNamespace?_eq_some_iff.2 ⟨rfl, hmem⟩]
    rfl

/-- A chain comes to a type with its last name when the names before it spell the namespace of the
type. -/
theorem entityOf?_chain_concat (hwf : m.table.WellFormed) {id : TypeId} {symbol : TypeSymbol}
    (hsymbol : m.table.types[id]? = some symbol) (hcont : symbol.container = none)
    {base : Expression} {space : String} (hbase : m.entityOf? base = some (.nameSpace space))
    {before : List Access} {last : Access} (hplain : Access.HavePlainNames before)
    (hin : symbol.inNamespace = Access.spelledBelow space before)
    (hfull : symbol.fullName = Access.spelledBelow space (before ++ [last]))
    (hnone : ∀ initial, initial ≠ [] → initial <+: before →
      ¬m.table.HasTopLevelType (Access.spelledBelow space initial)) :
    m.entityOf? (base.chain (before ++ [last])) = some (.type id) := by
  have hspace := proper_of_entityOf? hwf hbase
  have hmem : Access.spelledBelow space before ∈ m.table.namespaces := by
    rw [← hin]
    refine hwf.inNamespace_mem id symbol hsymbol ?_
    rw [hin]
    exact Access.proper_spelledBelow hspace hplain
  rw [Expression.chain_concat, Model.entityOf?, entityOf?_chain hwf hbase hplain hmem hnone,
    Option.bind_some, SymbolTable.memberOf?_nameSpace_eq_type_iff,
    SymbolTable.topLevelType?_eq_some_iff hwf, ← Access.spelledBelow_concat]
  exact ⟨symbol, hsymbol, hcont, hfull⟩

/-! ### What is reported of a chain -/

/-- What follows something other than a namespace is not reported. -/
theorem findingsOf_chain (hwf : m.table.WellFormed) {e : Expression}
    (he : ∀ space, m.entityOf? e ≠ some (.nameSpace space)) (after : List Access) :
    s.findingsOf m.oracle (e.chain after) = s.findingsOf m.oracle e := by
  induction after generalizing e with
  | nil => rfl
  | cons form after ih =>
    have hnext (space : String) : m.entityOf? (.access e form) ≠ some (.nameSpace space) := by
      intro h
      obtain ⟨inner, hinner⟩ := entityOf?_left hwf h (Or.inl ⟨space, rfl⟩)
      exact he inner hinner
    have hscan : s.scan m.oracle (.access e form) = none := by
      by_contra hne
      obtain ⟨f, hf⟩ := Option.ne_none_iff_exists'.1 hne
      obtain ⟨-, -, -, -, hsymbol⟩ := exists_access_of_scan hf
      obtain ⟨entity, hentity, htop⟩ := isTopLevel_of_resolve hwf hsymbol
      obtain ⟨space, hspace⟩ := entityOf?_left hwf hentity (Or.inr htop)
      exact he space hspace
    have hchain := ih hnext
    rw [findingsOf_access, hscan] at hchain
    exact hchain

/-- **A chain that comes to a type is reported there**, whatever follows. -/
theorem exists_findingsOf_chain_eq (hwf : m.table.WellFormed) {left : Expression} {form : Access}
    {entity : Entity} (hentity : m.entityOf? (.access left form) = some entity)
    (htop : m.table.IsTopLevel entity) (hqualified : form.text ≠ form.name.text)
    (after : List Access) :
    ∃ f, s.findingsOf m.oracle ((Expression.access left form).chain after) = [f] ∧
      f.span = form.span ∧ f.argument = form.text := by
  have hnamespaced : (m.resolve (.access left form)).isNamespacedType = true := by
    rw [Model.resolve, hentity]
    exact (SymbolTable.isNamespacedType_describe_iff hwf).2 htop
  obtain ⟨f, hf⟩ : ∃ f, s.scan m.oracle (.access left form) = some f :=
    ⟨_, report_eq_some_iff.2 ⟨hnamespaced, hqualified, rfl⟩⟩
  obtain ⟨-, -, hfinding⟩ := report_eq_some_iff.1 hf
  refine ⟨f, ?_, by rw [hfinding], by rw [hfinding]⟩
  rw [findingsOf_chain hwf, findingsOf_access, hf, findingsOf_left hwf hf]
  · rfl
  · -- a type is no namespace
    intro space hspace
    obtain ⟨id, -, rfl, -, -⟩ := htop
    rw [hentity] at hspace
    cases hspace

/-- **A type that is spelled out is found, and reported exactly once.**  Take any table built from
library types and from files whose types have names without dots, any file, and any type directly
in a namespace.  Take a chain of accesses over an expression that denotes a namespace, such that
its names, which hold no dots either, spell the full name of the type below that namespace, and no
beginning of the chain spells the full name of such a type.  Then the last access denotes the type.
If it is written with more than its name, a scan of the chain, with any further accesses after it,
gives one finding: that access. -/
theorem spelled_type_reported_once (updates : List SymbolTable.Update) (outline : Outline)
    (s : Scanner) (id : TypeId) (symbol : TypeSymbol) (base : Expression) (before : List Access)
    (last : Access) (hnames : ∀ u ∈ updates, u.HasPlainNames)
    (hsymbol : (SymbolTable.build updates).types[id]? = some symbol)
    (hcont : symbol.container = none) :
    let m : Model := { table := SymbolTable.build updates, outline }
    let space := (m.resolve base).fullName
    let spelled (forms : List Access) := Name.join space (Name.ofSegments (Access.names forms))
    (m.resolve base).kind = .nameSpace → Access.HavePlainNames (before ++ [last]) →
    spelled (before ++ [last]) = symbol.fullName →
    (∀ i < before.length, ¬m.table.HasTopLevelType (spelled (before.take (i + 1)))) →
      m.entityOf? (base.chain (before ++ [last])) = some (.type id) ∧
      m.resolve (base.chain (before ++ [last])) = m.table.describe (.type id) ∧
      (last.text ≠ last.name.text → ∀ after : List Access, ∃ f : Finding,
        (s.scanTree m.oracle .never (base.chain (before ++ [last] ++ after))).findings = [f] ∧
          f.span = last.span ∧ f.argument = last.text) := by
  intro m space spelled hbase hplain hspelled hfirst
  have hwf : m.table.WellFormed := (SymbolTable.reachable_build updates).wellFormed
  have hbase : m.entityOf? base = some (.nameSpace space) := entityOf?_of_resolve hbase
  have hspace := (proper_of_entityOf? hwf hbase).ne_empty
  have hfull : symbol.fullName = Access.spelledBelow space (before ++ [last]) :=
    hspelled.symm.trans (Access.spelledBelow_eq_join hspace (by simp)).symm
  -- simple names hold no dots, so the full name of the type determines its namespace
  have hin : symbol.inNamespace = Access.spelledBelow space before :=
    SymbolTable.inNamespace_of_fullName hnames hsymbol hcont (hplain last (by simp)).2
      (hfull.trans (Access.spelledBelow_concat space before last))
  have hnone (initial : List Access) (hne : initial ≠ []) (hinitial : initial <+: before) :
      ¬m.table.HasTopLevelType (Access.spelledBelow space initial) := by
    have hpos := List.length_pos_of_ne_nil hne
    have hle := hinitial.length_le
    have htake := hfirst (initial.length - 1) (by omega)
    rw [Nat.sub_add_cancel hpos, ← List.prefix_iff_eq_take.1 hinitial] at htake
    rwa [Access.spelledBelow_eq_join hspace hne]
  have hentity : m.entityOf? (base.chain (before ++ [last])) = some (.type id) :=
    entityOf?_chain_concat hwf hsymbol hcont hbase
      (fun form hform => hplain form (List.mem_append_left _ hform)) hin hfull hnone
  refine ⟨hentity, by rw [Model.resolve, hentity], fun hqualified after => ?_⟩
  rw [findings_scanTree_never, Expression.chain_append]
  rw [Expression.chain_concat] at hentity ⊢
  exact exists_findingsOf_chain_eq hwf hentity ⟨id, symbol, rfl, hsymbol, hcont⟩ hqualified after

/-- The access that ends in a name of one letter at an offset. -/
def letterAccess (name text : String) (offset : Nat) : Access :=
  { name := { identifier := name, span := ⟨offset, 1, 1, offset + 1⟩, text := name }
    span := ⟨0, offset + 1, 1, 1⟩, text }

/-- `global::N.P.T` names the type of a file that declares `T` in the namespace `N.P`, and so it is
reported once in `global::N.P.T.U` and the like. -/
theorem global_type_reported_once :
    let node (kind field : String) (start stop : Nat) (children : List Tree) : Tree :=
      .node { kind, field, named := true, start, stop } children
    let tree := node "compilation_unit" "" 0 24
      [node "namespace_declaration" "" 0 24
        [node "qualified_name" "name" 10 13 [],
         node "declaration_list" "body" 13 24
          [node "class_declaration" "" 14 23
            [node "identifier" "name" 20 21 [], node "declaration_list" "body" 21 23 []]]]]
    let updates := [.library "N.Q+T", .file (Source.ofText "namespace N.P{class T{}}") tree]
    let m : Model := { table := SymbolTable.build updates, outline := {} }
    let aliasName : SimpleName := { identifier := "global", span := ⟨0, 6, 1, 1⟩, text := "global" }
    let name : SimpleName := { identifier := "N", span := ⟨8, 1, 1, 9⟩, text := "N" }
    let base : Expression := .aliased aliasName name ⟨0, 9, 1, 1⟩
    let before := [letterAccess "P" "global::N.P" 10]
    let last := letterAccess "T" "global::N.P.T" 12
    let spelled (forms : List Access) :=
      Name.join (m.resolve base).fullName (Name.ofSegments (Access.names forms))
    ∃ symbol, (∀ u ∈ updates, u.HasPlainNames) ∧ m.table.types[2]? = some symbol ∧
      symbol.container = none ∧ (m.resolve base).kind = .nameSpace ∧
      Access.HavePlainNames (before ++ [last]) ∧ spelled (before ++ [last]) = symbol.fullName ∧
      (∀ i < before.length, ¬m.table.HasTopLevelType (spelled (before.take (i + 1)))) ∧
      last.text ≠ last.name.text ∧
      m.resolve (base.chain (before ++ [last])) = m.table.describe (.type 2) ∧
      ∀ (s : Scanner) (after : List Access), ∃ f : Finding,
        (s.scanTree m.oracle .never (base.chain (before ++ [last] ++ after))).findings = [f] ∧
          f.span = last.span ∧ f.argument = last.text := by
  intro node tree updates m aliasName name base before last spelled
  have hnames : ∀ u ∈ updates, u.HasPlainNames := by decide +kernel
  have hfields : (m.table.types[2]?.map fun s => (s.container, s.fullName)) =
      some (none, "N.P.T") := by decide +kernel
  obtain ⟨symbol, hsymbol, heq⟩ := Option.map_eq_some_iff.1 hfields
  obtain ⟨hcont, hfull⟩ := Prod.mk.inj heq
  have hbase : (m.resolve base).kind = .nameSpace := by decide +kernel
  have hplain : Access.HavePlainNames (before ++ [last]) := by decide +kernel
  have hspelled : spelled (before ++ [last]) = "N.P.T" := by decide +kernel
  have hfirst : ∀ i < before.length, ¬m.table.HasTopLevelType (spelled (before.take (i + 1))) := by
    decide +kernel
  have hqualified : last.text ≠ last.name.text := by decide +kernel
  have hfound (s : Scanner) := spelled_type_reported_once updates {} s 2 symbol base before last
    hnames hsymbol hcont hbase hplain (hspelled.trans hfull.symm) hfirst
  exact ⟨symbol, hnames, hsymbol, hcont, hbase, hplain, hspelled.trans hfull.symm, hfirst,
    hqualified, (hfound {}).2.1, fun s => (hfound s).2.2 hqualified⟩

end Scanner

end Unqualify
