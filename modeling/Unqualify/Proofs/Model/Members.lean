import Unqualify.Model
import Unqualify.Proofs.SymbolTable.Entity
import Unqualify.Proofs.SymbolTable.Outlines
import Unqualify.Proofs.Tree

/-!
# Members inside their type

A type may be declared in parts, in several files, and every part has its own range.  Inside any of
them the members of all parts are visible under their simple names
(`Model.lookup_member_of_declaration`).  What such a name means is a local name, or else found in
one of the types around the place: in that part, or in a type that starts later.  What the
namespaces around the place declare or their directives import is not asked.
-/

namespace Unqualify

namespace SymbolTable

variable {t : SymbolTable}

theorem mem_declarations_of_file {updates : List Update} {src : Source} {tree : Tree}
    {d : TypeDeclaration} (hfile : .file src tree ∈ updates)
    (hd : d ∈ (Outline.ofFile src tree).types) : d ∈ declarations updates :=
  List.mem_flatMap.2 ⟨Outline.ofFile src tree, List.mem_map.2 ⟨_, hfile, rfl⟩, hd⟩

theorem isSome_memberOf?_type {id : TypeId} {s : TypeSymbol} {name : String}
    (hs : t.types[id]? = some s) (hname : name ∈ s.members) :
    (t.memberOf? (.type id) name).isSome := by
  simp only [memberOf?, hs, Option.bind_eq_bind, Option.bind_some]
  cases s.nested[name]? with
  | some inner => rfl
  | none => simp [Std.ExtTreeSet.contains_iff_mem.2 hname]

/-- A table finds the members of all declarations that spell the full name of a type. -/
theorem MadeFrom.isSome_memberOf? {ds : List TypeDeclaration} (h : MadeFrom ds t)
    (hwf : t.WellFormed) {d d' : TypeDeclaration} (hd : d ∈ ds) (hd' : d' ∈ ds)
    (hname : d'.fullName = d.fullName) {name : String} (hmember : name ∈ d'.members) :
    ∃ id, t.byFullName[d.fullName]? = some id ∧ (t.memberOf? (.type id) name).isSome := by
  obtain ⟨id, hid⟩ := h.found d hd
  obtain ⟨s, hs, hfull⟩ := hwf.exists_of_byFullName hid
  have hmem : name ∈ s.members :=
    (h.members_iff id s hs name).2 ⟨d', hd', hname.trans hfull.symm, hmember⟩
  exact ⟨id, hid, isSome_memberOf?_type hs hmem⟩

/-- What a type gives for a name is described as inside that type. -/
theorem containingType_describe_of_memberOf? (h : t.WellFormed) {id : TypeId}
    {fullName name : String} {e : Entity} (hid : t.byFullName[fullName]? = some id)
    (he : t.memberOf? (.type id) name = some e) :
    ((t.describe e).kind = .member ∨ (t.describe e).kind = .namedType) ∧
      (t.describe e).containingType = some fullName := by
  obtain ⟨s, hs, hname⟩ := h.exists_of_byFullName hid
  obtain ⟨s', hs', hcases⟩ := memberOf?_type_eq_some he
  obtain rfl : s = s' := Option.some.inj (hs.symm.trans hs')
  rcases hcases with ⟨inner, hinner, rfl⟩ | rfl
  · obtain ⟨p, hp, hcontainer, -⟩ := h.container_of_nested id inner s name hs hinner
    rw [describe_type hp]
    simp [hcontainer, fullName?, hs, hname]
  · simp [describe, hs, hname]

end SymbolTable

namespace Model

variable {m : Model} {offset : Nat} {name : String}

theorem mem_typesAround {d : TypeDeclaration} :
    d ∈ m.typesAround offset ↔ d ∈ m.outline.types ∧ d.extent.contains offset = true := by
  rw [typesAround, List.mem_mergeSort, List.mem_filter]

/-- The types around an offset come in the order of where they start, the last one first. -/
theorem pairwise_typesAround (m : Model) (offset : Nat) :
    (m.typesAround offset).Pairwise fun a b => b.extent.start ≤ a.extent.start := by
  unfold typesAround
  refine (List.pairwise_mergeSort ?_ ?_ _).imp of_decide_eq_true
  · intro a b c hab hbc
    simp only [decide_eq_true_eq] at hab hbc ⊢
    omega
  · intro a b
    simp only [Bool.or_eq_true, decide_eq_true_eq]
    omega

/-- What one of the types around a place gives for a name. -/
def inType? (m : Model) (name : String) (d : TypeDeclaration) : Option Entity := do
  let id ← m.table.byFullName[d.fullName]?
  m.table.memberOf? (.type id) name

/-- When a type around a place knows a name, the name is found there in a type that starts no
earlier. -/
theorem exists_bindInTypes? {d : TypeDeclaration} (hd : d ∈ m.typesAround offset)
    (hsome : (m.inType? name d).isSome) :
    ∃ e ∈ m.typesAround offset, d.extent.start ≤ e.extent.start ∧
      ∃ entity, m.bindInTypes? offset name = some entity ∧ m.inType? name e = some entity := by
  have hfound : (m.bindInTypes? offset name).isSome :=
    List.findSome?_isSome_iff.2 ⟨d, hd, hsome⟩
  obtain ⟨entity, hentity⟩ := Option.isSome_iff_exists.1 hfound
  obtain ⟨before, e, after, hparts, he, hnone⟩ := List.findSome?_eq_some_iff.1 hentity
  refine ⟨e, by rw [hparts]; simp, ?_, entity, hentity, he⟩
  have hsorted := pairwise_typesAround m offset
  rw [hparts] at hd hsorted
  -- the types before the one that answers do not know the name
  rcases List.mem_append.1 hd with hd | hd
  · have : m.inType? name d = none := hnone d hd
    rw [this] at hsome
    cases hsome
  · rcases List.mem_cons.1 hd with rfl | hd
    · exact Nat.le_refl _
    · exact List.rel_of_pairwise_cons (List.pairwise_append.1 hsorted).2.1 hd

theorem bindLocal?_eq_none_or (m : Model) (offset : Nat) (name : String) :
    m.bindLocal? offset name = none ∨ m.bindLocal? offset name = some (.localName name) := by
  unfold bindLocal?
  split_ifs
  · exact Or.inr rfl
  · exact Or.inl rfl

theorem lookup_of_bindLocal? {e : Entity} (h : m.bindLocal? offset name = some e) :
    m.lookup offset name = .unique (m.table.describe e) := by
  simp only [lookup, bind, h, Option.some_or]

theorem lookup_of_bindInTypes? {e : Entity} (hlocal : m.bindLocal? offset name = none)
    (h : m.bindInTypes? offset name = some e) :
    m.lookup offset name = .unique (m.table.describe e) := by
  simp only [lookup, bind, hlocal, h, Option.none_or]

/-- **Members are visible inside their type.**  Take a type declaration of a file, a place inside
it, and a member of a declaration of the same full name in any file of the program.  The name of the
member means one thing there: a local name, or something inside a type of the file that is around
the place and starts no earlier than the declaration.  It means that whatever namespaces and
directives are around the place. -/
theorem lookup_member_of_declaration {updates : List SymbolTable.Update} {src src' : Source}
    {tree tree' : Tree} (hfile : .file src tree ∈ updates) (hfile' : .file src' tree' ∈ updates)
    {d d' : TypeDeclaration} (hd : d ∈ (Outline.ofFile src tree).types)
    (hd' : d' ∈ (Outline.ofFile src' tree').types) (hname : d'.fullName = d.fullName)
    {name : String} (hmember : name ∈ d'.members) {offset : Nat}
    (hoffset : d.extent.contains offset = true) :
    let o := Outline.ofFile src tree
    ∃ s, (Model.mk (.build updates) o).lookup offset name = .unique s ∧
      (∀ blocks usings,
        (Model.mk (.build updates) { o with blocks, usings }).lookup offset name = .unique s) ∧
      ((s.kind = .localName ∧ s.fullName = name) ∨
        (s.kind = .member ∨ s.kind = .namedType) ∧
          ∃ e ∈ o.types, e.extent.contains offset = true ∧ d.extent.start ≤ e.extent.start ∧
            s.containingType = some e.fullName) := by
  intro o
  have hwf := (SymbolTable.reachable_build updates).wellFormed
  obtain ⟨id, hid, hsome⟩ := (SymbolTable.madeFrom_build updates).isSome_memberOf? hwf
    (SymbolTable.mem_declarations_of_file hfile hd)
    (SymbolTable.mem_declarations_of_file hfile' hd') hname hmember
  have haround : d ∈ (Model.mk (.build updates) o).typesAround offset :=
    mem_typesAround.2 ⟨hd, hoffset⟩
  have hknown : ((Model.mk (.build updates) o).inType? name d).isSome := by
    simp only [inType?, hid, Option.bind_eq_bind, Option.bind_some]
    exact hsome
  obtain ⟨e, he, hstart, entity, hentity, hin⟩ := exists_bindInTypes? haround hknown
  rcases bindLocal?_eq_none_or ⟨.build updates, o⟩ offset name with hlocal | hlocal
  · obtain ⟨id', hid', hmemberOf⟩ := Option.bind_eq_some_iff.1 hin
    obtain ⟨hkind, hcontaining⟩ :=
      SymbolTable.containingType_describe_of_memberOf? hwf hid' hmemberOf
    obtain ⟨hemem, hecontains⟩ := mem_typesAround.1 he
    -- neither the local names nor the types depend on the namespaces and directives
    exact ⟨_, lookup_of_bindInTypes? hlocal hentity, fun blocks usings =>
      lookup_of_bindInTypes? (m := ⟨_, { o with blocks, usings }⟩) hlocal hentity,
      Or.inr ⟨hkind, e, hemem, hecontains, hstart, hcontaining⟩⟩
  · exact ⟨_, lookup_of_bindLocal? hlocal,
      fun blocks usings => lookup_of_bindLocal? (m := ⟨_, { o with blocks, usings }⟩) hlocal,
      Or.inl ⟨rfl, rfl⟩⟩

/-- A part of the type `P` without members, and a directive before it. -/
def partWithout : SymbolTable.Update :=
  .file (.ofText "using A;class P\x7b\x7d")
    (.ofNamed "compilation_unit" "" 0 17
      [.ofNamed "using_directive" "" 0 8 [.ofNamed "identifier" "" 6 7 []],
       .ofNamed "class_declaration" "" 8 17
        [.ofNamed "identifier" "name" 14 15 [], .ofNamed "declaration_list" "body" 15 17 []]])

/-- A part of the type `P` in another file, with a field. -/
def partWithField : SymbolTable.Update :=
  .file (.ofText "class P\x7bint x;\x7d")
    (.ofNamed "compilation_unit" "" 0 15
      [.ofNamed "class_declaration" "" 0 15
        [.ofNamed "identifier" "name" 6 7 [],
         .ofNamed "declaration_list" "body" 7 15
          [.ofNamed "field_declaration" "" 8 14
            [.ofNamed "variable_declaration" "" 8 13
              [.ofNamed "predefined_type" "type" 8 11 [],
               .ofNamed "variable_declarator" "" 12 13 [.ofNamed "identifier" "name" 12 13 []]]]]]])

/-- Inside the part without members, the name of the other part's field means the field, although
the directive imports a type of that name. -/
theorem lookup_member_of_other_part :
    let updates := [partWithField, .library "A.x", partWithout]
    let d : TypeDeclaration := ⟨"", [], "P", [], ⟨8, 17⟩⟩
    let d' : TypeDeclaration := ⟨"", [], "P", ["x"], ⟨0, 15⟩⟩
    let o := partWithout.outline
    d ∈ o.types ∧ d' ∈ partWithField.outline.types ∧ d.extent.contains 16 = true ∧
      ∃ s, (Model.mk (.build updates) o).lookup 16 "x" = .unique s ∧
        s = ⟨.member, "P.x", some "P", ""⟩ ∧
        ((s.kind = .localName ∧ s.fullName = "x") ∨
          (s.kind = .member ∨ s.kind = .namedType) ∧
            ∃ e ∈ o.types, e.extent.contains 16 = true ∧ d.extent.start ≤ e.extent.start ∧
              s.containingType = some e.fullName) := by
  intro updates d d' o
  have hd : d ∈ o.types := by decide +kernel
  have hd' : d' ∈ partWithField.outline.types := by decide +kernel
  have hfile : partWithout ∈ updates := List.mem_of_getLast? rfl
  have hfile' : partWithField ∈ updates := List.mem_cons_self
  have hvalue : (Model.mk (.build updates) o).lookup 16 "x" =
      .unique ⟨.member, "P.x", some "P", ""⟩ := by decide +kernel
  have hoffset : d.extent.contains 16 = true := rfl
  obtain ⟨s, hs, -, hinside⟩ := lookup_member_of_declaration hfile hfile' hd hd' rfl
    List.mem_cons_self hoffset
  exact ⟨hd, hd', hoffset, s, hs, Lookup.unique.inj (hs.symm.trans hvalue), hinside⟩

end Model

end Unqualify
