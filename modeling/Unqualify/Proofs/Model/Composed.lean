import Unqualify.Proofs.Model.Members
import Unqualify.Proofs.Scan.Spelled

/-!
# Accesses put names together

What an access denotes is described by the description of its left operand and the name right of
the dot: the full name is the two joined (`SymbolTable.fullName_describe_memberOf?`), and the
operand is the namespace or the type that the description names as the one around it
(`Model.resolve_access_composes`).  Step by step, a path from the global namespace means something
of the name that the path spells (`SymbolTable.fullName_describe_resolvePath?`).

The descriptions come from what was stored when a type was first added, perhaps under another split
of the same name into namespace and containers.  They fit the access because a full name ends in
the simple name of its type, and no simple name is empty or holds a dot.
-/

namespace Unqualify

/-! ### Names that are not empty -/

namespace Name

/-- The name around a name is what a segment was joined to, the global one included. -/
theorem parent_join_eq (space : String) {x : String} (hx : '.' ∉ x.toList) :
    parent (join space x) = space := by
  by_cases hspace : space = ""
  · subst hspace
    rw [parent, segments_join "" hx, if_pos rfl, List.nil_append, List.dropLast_singleton]
    rfl
  · exact parent_join hspace hx

/-- Segments joined one after the other make up the name with these segments, unless the first one
is empty. -/
theorem foldl_join_empty {first : String} (hfirst : first ≠ "") (rest : List String) :
    (first :: rest).foldl join "" = ofSegments (first :: rest) := by
  rw [List.foldl_cons, join_empty]
  by_cases hrest : rest = []
  · subst hrest
    simp [ofSegments]
  · rw [foldl_join hfirst hrest, join_of_ne hfirst]
    have hparts := ofSegments_append (List.cons_ne_nil first []) hrest
    rw [List.singleton_append] at hparts
    rw [hparts]
    simp [ofSegments]

end Name

theorem LibraryType.name_ne_empty_of_parse? {entry : String} {l : LibraryType}
    (h : parse? entry = some l) {name : String} (hname : name ∈ l.name :: l.nested) :
    name ≠ "" := by
  rw [parse?] at h
  split_ifs at h with hparts
  obtain rfl := Option.some.inj h
  exact (Name.isIdentifier_iff.1
    (List.all_eq_true.1 hparts name (List.mem_append_right _ hname))).ne_empty

namespace SymbolTable

theorem Update.name_ne_empty {u : Update} {d : TypeDeclaration} (hd : d ∈ u.outline.types) :
    d.name ≠ "" := by
  cases u with
  | file src tree => exact Outline.name_ne_empty_of_mem_types hd
  | library entry =>
    rw [outline] at hd
    cases hl : LibraryType.parse? entry with
    | none => rw [hl] at hd; cases hd
    | some l =>
      rw [hl] at hd
      exact LibraryType.name_ne_empty_of_parse? hl (LibraryType.name_of_mem_declarations hd)

/-- No type has the empty name, whatever the table was built from. -/
theorem fullName_ne_empty {updates : List Update} {id : TypeId} {s : TypeSymbol}
    (hs : (build updates).types[id]? = some s) : s.fullName ≠ "" := by
  obtain ⟨p, hp, hplaced⟩ := (madeFrom_build updates).placed id s hs
  obtain ⟨d, hd, rfl⟩ := TypeDeclaration.exists_path_eq
    (fun d => Outline.enclosedIn_declarations fun _ => regular_outlines) hp
  have hname : d.name ≠ "" := by
    obtain ⟨o, ho, hd⟩ := List.mem_flatMap.1 hd
    obtain ⟨u, -, rfl⟩ := List.mem_map.1 ho
    exact Update.name_ne_empty hd
  rw [hplaced.fullName_eq, d.fullName_path, TypeDeclaration.fullName]
  refine Name.join_ne_empty _ ?_
  by_cases houter : d.outer = []
  · simpa [houter, Name.ofSegments] using hname
  · rw [Name.ofSegments_concat houter]
    simp

/-! ### What a member of an entity is called -/

variable {t : SymbolTable}

theorem memberOf?_nameSpace_eq_some {space name : String} {e : Entity}
    (h : t.memberOf? (.nameSpace space) name = some e) :
    (∃ id, t.topLevelType? space name = some id ∧ e = .type id) ∨
      (Name.join space name ∈ t.namespaces ∧ e = .nameSpace (Name.join space name)) := by
  rw [memberOf?] at h
  split at h
  · next id hid => exact Or.inl ⟨id, hid, (Option.some.inj h).symm⟩
  · obtain ⟨child, hchild, rfl⟩ := Option.map_eq_some_iff.1 h
    obtain ⟨rfl, hmem⟩ := childNamespace?_eq_some_iff.1 hchild
    exact Or.inr ⟨hmem, rfl⟩

/-- The entity is a namespace, or a type of the table. -/
def IsOwner (t : SymbolTable) (e : Entity) : Prop :=
  (∃ space, e = .nameSpace space) ∨ ∃ id s, e = .type id ∧ t.types[id]? = some s

theorem isOwner_of_memberOf? {e e' : Entity} {name : String}
    (h : t.memberOf? e name = some e') : t.IsOwner e := by
  cases e with
  | nameSpace space => exact Or.inl ⟨space, rfl⟩
  | type id =>
    obtain ⟨p, hp, -⟩ := memberOf?_type_eq_some h
    exact Or.inr ⟨id, p, rfl, hp⟩
  | localName x => cases h
  | member owner x => cases h

/-- **A member of an entity is called by the two names joined.** -/
theorem fullName_describe_memberOf? {updates : List Update} {e e' : Entity} {name : String}
    (h : (build updates).memberOf? e name = some e') :
    ((build updates).describe e').fullName =
      Name.join ((build updates).describe e).fullName name := by
  have hwf := (reachable_build updates).wellFormed
  rcases isOwner_of_memberOf? h with ⟨space, rfl⟩ | ⟨id, p, rfl, hp⟩
  · rcases memberOf?_nameSpace_eq_some h with ⟨inner, hinner, rfl⟩ | ⟨-, rfl⟩
    · obtain ⟨s, hs, -, hname⟩ := (topLevelType?_eq_some_iff hwf).1 hinner
      rw [describe_type hs]
      exact hname
    · rfl
  · have hjoin := Name.join_of_ne (fullName_ne_empty hp) name
    rw [describe_type hp]
    obtain ⟨p', hp', ⟨inner, hinner, rfl⟩ | rfl⟩ := memberOf?_type_eq_some h
    · obtain ⟨s, hs, -, hname⟩ := hwf.container_of_nested id inner p' name hp' hinner
      obtain rfl : p = p' := Option.some.inj (hp.symm.trans hp')
      rw [describe_type hs]
      exact hname.trans hjoin.symm
    · rw [describe, hp]

/-- What stands directly in a namespace is described as standing there. -/
theorem containingNamespace_describe_memberOf? {updates : List Update}
    (hplain : ∀ u ∈ updates, u.HasPlainNames) {space name : String} (hname : '.' ∉ name.toList)
    {e : Entity} (h : (build updates).memberOf? (.nameSpace space) name = some e) :
    ((build updates).describe e).containingNamespace = space := by
  rcases memberOf?_nameSpace_eq_some h with ⟨id, hid, rfl⟩ | ⟨-, rfl⟩
  · have hwf := (reachable_build updates).wellFormed
    obtain ⟨s, hs, hcont, hfull⟩ := (topLevelType?_eq_some_iff hwf).1 hid
    rw [describe_type hs]
    exact inNamespace_of_fullName hplain hs hcont hname hfull
  · exact Name.parent_join_eq space hname

/-- What is described as inside a type is a member of that type. -/
theorem exists_type_of_containingType (hwf : t.WellFormed) {e e' : Entity} {name c : String}
    (h : t.memberOf? e name = some e') (hc : (t.describe e').containingType = some c) :
    ∃ id s, e = .type id ∧ t.types[id]? = some s ∧ s.fullName = c := by
  rcases isOwner_of_memberOf? h with ⟨space, rfl⟩ | ⟨id, p, rfl, hp⟩
  · exfalso
    rcases memberOf?_nameSpace_eq_some h with ⟨inner, hinner, rfl⟩ | ⟨-, rfl⟩
    · obtain ⟨s, hs, hcont, -⟩ := (topLevelType?_eq_some_iff hwf).1 hinner
      rw [describe_type hs, hcont] at hc
      cases hc
    · cases hc
  · have hid := (hwf.byFullName_iff p.fullName id).2 ⟨p, hp, rfl⟩
    obtain ⟨-, hcontaining⟩ := containingType_describe_of_memberOf? hwf hid h
    exact ⟨id, p, rfl, hp, Option.some.inj (hcontaining.symm.trans hc)⟩

/-! ### What a path is called -/

theorem fullName_describe_follow? {updates : List Update} {e e' : Entity} {names : List String}
    (h : (build updates).follow? e names = some e') :
    ((build updates).describe e').fullName =
      names.foldl Name.join ((build updates).describe e).fullName := by
  induction names generalizing e with
  | nil =>
    obtain rfl := Option.some.inj h
    rfl
  | cons name names ih =>
    rw [follow?, Option.bind_eq_some_iff] at h
    obtain ⟨next, hnext, h⟩ := h
    rw [ih h, fullName_describe_memberOf? hnext, List.foldl_cons]

/-- Nothing in the global namespace has the empty name. -/
theorem memberOf?_global_empty (updates : List Update) :
    (build updates).memberOf? (.nameSpace "") "" = none := by
  have hwf := (reachable_build updates).wellFormed
  refine Option.eq_none_iff_forall_ne_some.2 fun e h => ?_
  rcases memberOf?_nameSpace_eq_some h with ⟨id, hid, -⟩ | ⟨hmem, -⟩
  · obtain ⟨s, hs, -, hname⟩ := (topLevelType?_eq_some_iff hwf).1 hid
    exact fullName_ne_empty hs hname
  · exact (hwf.proper_of_mem _ hmem).ne_empty rfl

/-- **A path means something of the name that it spells.** -/
theorem fullName_describe_resolvePath? {updates : List Update} {path : String} {e : Entity}
    (h : (build updates).resolvePath? path = some e) :
    ((build updates).describe e).fullName = path := by
  rw [resolvePath?] at h
  have hname := fullName_describe_follow? h
  obtain ⟨first, rest, hsegments⟩ := List.exists_cons_of_ne_nil (Name.segments_ne_nil path)
  rw [hsegments] at h hname
  have hfirst : first ≠ "" := by
    rintro rfl
    rw [follow?, memberOf?_global_empty] at h
    cases h
  rw [hname, ← Name.ofSegments_segments path, hsegments]
  exact Name.foldl_join_empty hfirst rest

end SymbolTable

namespace Model

variable {m : Model}

theorem resolve_eq_describe_of_entityOf? {e : Expression} {entity : Entity}
    (h : m.entityOf? e = some entity) : m.resolve e = m.table.describe entity := by
  rw [resolve, h]

/-- **What an access denotes is named by its operand and its name.**  Take any table built from
library types and from files whose types have names without dots, any file, and any access whose
name holds no dot.  If the access denotes anything, its left operand denotes a namespace or a type,
and the full name of the one is that of the other with the name joined to it.  A type directly in a
namespace and a namespace are described as in the namespace that the operand denotes, and whatever
is described as inside a type, as inside the type that the operand denotes.  Hence every path from
the global namespace that means something means something of that very name. -/
theorem resolve_access_composes (updates : List SymbolTable.Update) (outline : Outline)
    (hplain : ∀ u ∈ updates, u.HasPlainNames) (left : Expression) (form : Access)
    (hname : '.' ∉ form.name.identifier.toList) :
    let m : Model := { table := .build updates, outline }
    let result := m.resolve (.access left form)
    let owner := m.resolve left
    (result ≠ .unknown →
      (owner.kind = .nameSpace ∨ owner.kind = .namedType) ∧
        result.fullName = Name.join owner.fullName form.name.identifier ∧
        (result.isNamespacedType = true ∨ result.kind = .nameSpace →
          owner.kind = .nameSpace ∧ result.containingNamespace = owner.fullName) ∧
        ∀ c, result.containingType = some c → owner.kind = .namedType ∧ owner.fullName = c) ∧
      ∀ path e, m.table.resolvePath? path = some e → (m.table.describe e).fullName = path := by
  intro m result owner
  have hwf : m.table.WellFormed := (SymbolTable.reachable_build updates).wellFormed
  refine ⟨fun hknown => ?_, fun path e h => SymbolTable.fullName_describe_resolvePath? h⟩
  obtain ⟨entity, hentity⟩ : ∃ entity, m.entityOf? (.access left form) = some entity := by
    refine Option.ne_none_iff_exists'.1 fun hnone => hknown ?_
    simp only [result, resolve, hnone]
  obtain ⟨ownerEntity, hleft, hmember⟩ := Option.bind_eq_some_iff.1 hentity
  have hresult : result = m.table.describe entity := resolve_eq_describe_of_entityOf? hentity
  have howner : owner = m.table.describe ownerEntity := resolve_eq_describe_of_entityOf? hleft
  rw [hresult, howner]
  refine ⟨?_, SymbolTable.fullName_describe_memberOf? hmember, fun htop => ?_, fun c hc => ?_⟩
  · rcases SymbolTable.isOwner_of_memberOf? hmember with ⟨space, rfl⟩ | ⟨id, s, rfl, hs⟩
    · exact Or.inl rfl
    · exact Or.inr (by rw [SymbolTable.describe_type hs])
  · -- namespaces and types directly in a namespace are members of namespaces only
    have hreached : (∃ space, entity = .nameSpace space) ∨ m.table.IsTopLevel entity := by
      rcases htop with hnamespaced | hspace
      · exact Or.inr ((SymbolTable.isNamespacedType_describe_iff hwf).1 hnamespaced)
      · rw [← hresult] at hspace
        have hsome := Scanner.entityOf?_of_resolve hspace
        exact Or.inl ⟨_, Option.some.inj (hentity.symm.trans hsome)⟩
    obtain ⟨space, rfl⟩ := SymbolTable.exists_nameSpace_of_memberOf? hwf hmember hreached
    exact ⟨rfl, SymbolTable.containingNamespace_describe_memberOf? hplain hname hmember⟩
  · obtain ⟨id, s, rfl, hs, hfull⟩ := SymbolTable.exists_type_of_containingType hwf hmember hc
    rw [SymbolTable.describe_type hs]
    exact ⟨rfl, hfull⟩

/-- The access `N.P.T.U` after `N.P.T`, for a library type nested in another one: the operand is
described as the type around it, and `N.P` as the namespace around the operand. -/
theorem resolve_nested_library_type :
    let updates := [SymbolTable.Update.library "N.P.T+U"]
    let m : Model := { table := .build updates, outline := {} }
    let space : Expression := .access (.identifier ⟨"N", ⟨0, 1, 1, 1⟩, "N"⟩)
      (Scanner.letterAccess "P" "N.P" 2)
    let outer : Expression := .access space (Scanner.letterAccess "T" "N.P.T" 4)
    let form := Scanner.letterAccess "U" "N.P.T.U" 6
    (∀ u ∈ updates, u.HasPlainNames) ∧ '.' ∉ form.name.identifier.toList ∧
      m.resolve outer ≠ .unknown ∧ m.resolve (.access outer form) ≠ .unknown ∧
      (m.resolve outer).containingNamespace = (m.resolve space).fullName ∧
      (m.resolve (.access outer form)).fullName = Name.join (m.resolve outer).fullName "U" ∧
      (m.resolve outer).kind = .namedType ∧ (m.resolve outer).fullName = "N.P.T" := by
  intro updates m space outer form
  have hplain : ∀ u ∈ updates, u.HasPlainNames := by decide +kernel
  have houter : m.resolve outer = ⟨.namedType, "N.P.T", none, "N.P"⟩ := by decide +kernel
  have hinner : m.resolve (.access outer form) = ⟨.namedType, "N.P.T.U", some "N.P.T", "N.P"⟩ := by
    decide +kernel
  have hknown : m.resolve outer ≠ .unknown := by rw [houter]; decide
  have hknown' : m.resolve (.access outer form) ≠ .unknown := by rw [hinner]; decide
  have hform : '.' ∉ form.name.identifier.toList := by decide +kernel
  obtain ⟨-, -, hspace, -⟩ := (resolve_access_composes updates {} hplain space
    (Scanner.letterAccess "T" "N.P.T" 4) (by decide +kernel)).1 hknown
  obtain ⟨-, hfull, -, htype⟩ :=
    (resolve_access_composes updates {} hplain outer form hform).1 hknown'
  obtain ⟨hkind, hname⟩ := htype "N.P.T" (congrArg Symbol.containingType hinner)
  refine ⟨hplain, hform, hknown, hknown', ?_, hfull, hkind, hname⟩
  exact (hspace (Or.inl (congrArg Symbol.isNamespacedType houter))).2

end Model

end Unqualify
