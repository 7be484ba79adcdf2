import Unqualify.Model
import Unqualify.Proofs.Outline.Blocks

/-!
# Directives in force at a place

The levels of lookup at an offset are found by name: those of the innermost block around it, cut at
the dots, and each level takes the directives of the blocks that have its name.  Still no directive
is lost and none counts twice (`Model.levels_ofFile`): in a file whose ranges are nested the blocks
around an offset lie in one another, every block with directives of its own has a name that the
innermost one goes on below, and no two of them have the same.
-/

namespace Unqualify

/-- The blocks around an offset, outermost first. -/
def Outline.blocksAround (o : Outline) (offset : Nat) : List NamespaceBlock :=
  o.blocks.filter (·.extent.contains offset)

theorem Outline.mem_blocksAround {o : Outline} {offset : Nat} {b : NamespaceBlock} :
    b ∈ o.blocksAround offset ↔ b ∈ o.blocks ∧ b.extent.contains offset = true :=
  List.mem_filter

/-- The blocks around an offset stand one inside the other. -/
theorem Outline.Standing.encloses {space : String} {es : List Extent} {o : Outline}
    (h : Standing space es o.blocks) (offset : Nat) :
    (o.blocksAround offset).Pairwise NamespaceBlock.Encloses := by
  refine (h.inOrder.filter _).imp_of_mem fun ha hb hab => ?_
  exact hab.encloses (mem_blocksAround.1 ha).2 (mem_blocksAround.1 hb).2

namespace Model

variable {bs : List NamespaceBlock}

/-- Of blocks that stand one inside the other, the last one is the innermost. -/
theorem innermost?_eq_getLast? (h : bs.Pairwise NamespaceBlock.Encloses) :
    innermost? bs = bs.getLast? := by
  induction bs with
  | nil => rfl
  | cons b bs ih =>
    rw [innermost?, ih h.of_cons]
    cases hlast : bs.getLast? with
    | none =>
      rw [List.getLast?_eq_none_iff.1 hlast]
      rfl
    | some c =>
      have hstart := (List.rel_of_pairwise_cons h (List.mem_of_getLast? hlast)).1.1
      have hc : (b :: bs).getLast? = some c := by
        rw [List.getLast?_cons, hlast]
        rfl
      simp only [if_pos hstart, hc]

/-- The directives of the blocks of a name. -/
def usingsNamed (bs : List NamespaceBlock) (name : String) : List Using :=
  (bs.filter (·.name == name)).flatMap (·.usings)

theorem usingsNamed_cons (b : NamespaceBlock) (bs : List NamespaceBlock) (name : String) :
    usingsNamed (b :: bs) name =
      (if b.name = name then b.usings else []) ++ usingsNamed bs name := by
  rw [usingsNamed, usingsNamed, List.filter_cons]
  by_cases hname : b.name = name
  · simp [hname]
  · simp [hname]

/-- A name as short as a name that all of the blocks go on below is the name of none of them. -/
theorem usingsNamed_eq_nil {name space : String} (h : ∀ b ∈ bs, Name.IsBelow space b.name)
    (hle : name.length ≤ space.length) : usingsNamed bs name = [] := by
  rw [usingsNamed, List.filter_eq_nil_iff.2, List.flatMap_nil]
  intro b hb heq
  have hlt := (h b hb).length_lt
  rw [beq_iff_eq.1 heq] at hlt
  omega

/-- A block around others adds its directives at the end: the names of the others are longer, and
its own name stands once in the list. -/
theorem flatMap_usingsNamed_cons {names : List String} {b : NamespaceBlock}
    (hnames : names.Pairwise fun inner outer => outer.length < inner.length)
    (hb : b.name ∈ names) (hbs : ∀ c ∈ bs, Name.IsBelow b.name c.name) :
    names.flatMap (usingsNamed (b :: bs)) = names.flatMap (usingsNamed bs) ++ b.usings := by
  obtain ⟨longer, shorter, rfl⟩ := List.append_of_mem hb
  rw [List.pairwise_append, List.pairwise_cons] at hnames
  obtain ⟨-, ⟨hshorter, -⟩, hlonger⟩ := hnames
  have hskip {others : List String} (hothers : ∀ name ∈ others, name.length ≠ b.name.length) :
      others.flatMap (usingsNamed (b :: bs)) = others.flatMap (usingsNamed bs) := by
    refine List.flatMap_congr fun name hname => ?_
    have hne : b.name ≠ name := by
      rintro rfl
      exact hothers _ hname rfl
    rw [usingsNamed_cons, if_neg hne, List.nil_append]
  have hbefore := hskip fun name hname =>
    Nat.ne_of_gt (hlonger name hname b.name List.mem_cons_self)
  have hafter := hskip fun name hname => Nat.ne_of_lt (hshorter name hname)
  have hown : usingsNamed bs b.name = [] := usingsNamed_eq_nil hbs (Nat.le_refl _)
  have hnone : shorter.flatMap (usingsNamed bs) = [] :=
    List.flatMap_eq_nil_iff.2 fun name hname =>
      usingsNamed_eq_nil hbs (Nat.le_of_lt (hshorter name hname))
  rw [List.flatMap_append, List.flatMap_append, List.flatMap_cons, List.flatMap_cons, hbefore,
    hafter, hnone, usingsNamed_cons, if_pos rfl, hown]
  simp

/-- Taken name by name, the longest name first, the directives of blocks that stand one inside the
other are those of the blocks from the innermost one outwards. -/
theorem flatMap_usingsNamed {names : List String}
    (hnames : names.Pairwise fun inner outer => outer.length < inner.length)
    (hbs : bs.Pairwise NamespaceBlock.Encloses)
    (hmem : ∀ b ∈ bs, b.usings = [] ∨ b.name ∈ names) :
    names.flatMap (usingsNamed bs) = bs.reverse.flatMap (·.usings) := by
  induction bs with
  | nil => exact List.flatMap_eq_nil_iff.2 fun _ _ => rfl
  | cons b bs ih =>
    obtain ⟨hb, hrest⟩ := List.pairwise_cons.1 hbs
    obtain ⟨hbmem, hrestmem⟩ := List.forall_mem_cons.1 hmem
    rw [List.reverse_cons, List.flatMap_append, ← ih hrest hrestmem, List.flatMap_singleton]
    by_cases hnone : b.usings = []
    · rw [hnone, List.append_nil]
      refine List.flatMap_congr fun name _ => ?_
      rw [usingsNamed_cons, hnone, ite_self, List.nil_append]
    · refine flatMap_usingsNamed_cons hnames (hbmem.resolve_left hnone) fun c hc => ?_
      exact (hb c hc).2.resolve_left hnone

/-! ### The levels of a file -/

/-- The names of the levels before the global one, for the blocks around a place. -/
def levelNames (bs : List NamespaceBlock) : List String :=
  Name.ancestry ((bs.getLast?.map (·.name)).getD "")

theorem mem_levelNames {name : String} :
    name ∈ levelNames bs ↔ name ≠ "" ∧
      ∃ b, bs.getLast? = some b ∧ (name = b.name ∨ Name.IsBelow name b.name) := by
  rw [levelNames, Name.mem_ancestry]
  refine and_congr_right fun hne => ?_
  cases bs.getLast? with
  | none =>
    have hbelow : ¬ Name.IsBelow name "" := fun h => Nat.not_lt_zero _ h.length_lt
    simp [hne, hbelow]
  | some b => simp

theorem pairwise_levelNames (bs : List NamespaceBlock) :
    (levelNames bs).Pairwise fun inner outer => outer.length < inner.length :=
  (Name.pairwise_ancestry _).imp Name.IsBelow.length_lt

/-- A block with directives has the name of one of the levels. -/
theorem usings_eq_nil_or_mem_levelNames (h : bs.Pairwise NamespaceBlock.Encloses)
    {b : NamespaceBlock} (hb : b ∈ bs) (hname : b.name ≠ "") :
    b.usings = [] ∨ b.name ∈ levelNames bs := by
  obtain rfl | ⟨outer, c, rfl⟩ := List.eq_nil_or_concat' bs
  · cases hb
  have hc : (outer ++ [c]).getLast? = some c := List.getLast?_concat
  rw [mem_levelNames]
  rcases List.mem_append.1 hb with hb | hb
  · have hbc := (List.pairwise_append.1 h).2.2 b hb c (List.mem_singleton_self c)
    exact hbc.2.imp_right fun hbelow => ⟨hname, c, hc, Or.inr hbelow⟩
  · obtain rfl := List.mem_singleton.1 hb
    exact Or.inr ⟨hname, b, hc, Or.inl rfl⟩

variable {m : Model} {offset : Nat}

theorem levels_eq (h : (m.outline.blocksAround offset).Pairwise NamespaceBlock.Encloses) :
    m.levels offset =
      (levelNames (m.outline.blocksAround offset)).map
          (fun name => ⟨name, usingsNamed (m.outline.blocksAround offset) name⟩) ++
        [⟨"", m.outline.usings⟩] := by
  rw [levelNames, ← innermost?_eq_getLast? h]
  rfl

theorem map_name_levels (h : (m.outline.blocksAround offset).Pairwise NamespaceBlock.Encloses) :
    (m.levels offset).map (·.name) = levelNames (m.outline.blocksAround offset) ++ [""] := by
  rw [levels_eq h, List.map_append, List.map_map, List.map_singleton]
  exact congrArg (· ++ [""]) (List.map_id _)

theorem flatMap_usings_levels
    (h : (m.outline.blocksAround offset).Pairwise NamespaceBlock.Encloses)
    (hnamed : ∀ b ∈ m.outline.blocks, b.name ≠ "") :
    (m.levels offset).flatMap (·.usings) =
      (m.outline.blocksAround offset).reverse.flatMap (·.usings) ++ m.outline.usings := by
  have hmem : ∀ b ∈ m.outline.blocksAround offset,
      b.usings = [] ∨ b.name ∈ levelNames (m.outline.blocksAround offset) := by
    intro b hb
    exact usings_eq_nil_or_mem_levelNames h hb (hnamed b (Outline.mem_blocksAround.1 hb).1)
  rw [levels_eq h, List.flatMap_append, List.flatMap_map, List.flatMap_singleton,
    ← flatMap_usingsNamed (pairwise_levelNames _) h hmem]

/-- **No directive in force is lost or counts twice.**  In a file whose ranges are nested, the
blocks around an offset lie one inside the other.  The levels of lookup there are the name of the
innermost of them with all names that it goes on below, the longest first, and then the global
level.  The directives of all levels together are those of the blocks from the innermost one
outwards, and then those of the file. -/
theorem levels_ofFile (src : Source) {tree : Tree} (h : tree.Nested) (table : SymbolTable)
    (offset : Nat) :
    let m : Model := { table, outline := Outline.ofFile src tree }
    let around := m.outline.blocksAround offset
    around.Pairwise (fun outer inner => inner.extent.Within outer.extent) ∧
      (∃ names, (m.levels offset).map (·.name) = names ++ [""] ∧
        names.Pairwise (fun inner outer => outer.length < inner.length) ∧
        ∀ name, name ∈ names ↔ name ≠ "" ∧
          ∃ b, around.getLast? = some b ∧ (name = b.name ∨ Name.IsBelow name b.name)) ∧
      (m.levels offset).flatMap (·.usings) =
        around.reverse.flatMap (·.usings) ++ m.outline.usings := by
  intro m around
  have hstanding := Outline.standing_ofFile src h
  have hencloses : around.Pairwise NamespaceBlock.Encloses := hstanding.encloses offset
  refine ⟨hencloses.imp And.left, ⟨levelNames around, ?_, ?_, ?_⟩, ?_⟩
  · exact map_name_levels hencloses
  · exact pairwise_levelNames around
  · exact fun name => mem_levelNames
  · exact flatMap_usings_levels hencloses hstanding.named

/-- A file with a directive, and two blocks in one another with a directive each. -/
def nestedBlocks : Source :=
  .ofText ("using Z;namespace A.B\x7busing X;" ++
    "namespace C.D\x7busing Y;class P\x7b\x7d\x7d\x7d")

/-- The syntax tree of that file. -/
def nestedBlocksTree : Tree :=
  .ofNamed "compilation_unit" "" 0 63
    [.ofNamed "using_directive" "" 0 8 [.ofNamed "identifier" "" 6 7 []],
     .ofNamed "namespace_declaration" "" 8 63
      [.ofNamed "qualified_name" "name" 18 21 [],
       .ofNamed "declaration_list" "body" 21 63
        [.ofNamed "using_directive" "" 22 30 [.ofNamed "identifier" "" 28 29 []],
         .ofNamed "namespace_declaration" "" 30 62
          [.ofNamed "qualified_name" "name" 40 43 [],
           .ofNamed "declaration_list" "body" 43 62
            [.ofNamed "using_directive" "" 44 52 [.ofNamed "identifier" "" 50 51 []],
             .ofNamed "class_declaration" "" 52 61
              [.ofNamed "identifier" "name" 58 59 [],
               .ofNamed "declaration_list" "body" 59 61 []]]]]]]

/-- In the class, the directives of the inner block come first, then those of the outer one and
those of the file, although the names of the two blocks have two segments each. -/
theorem levels_nestedBlocks :
    let m : Model := ⟨.empty, Outline.ofFile nestedBlocks nestedBlocksTree⟩
    nestedBlocksTree.Nested ∧
      (m.levels 60).map (·.name) = ["A.B.C.D", "A.B.C", "A.B", "A", ""] ∧
      (m.levels 60).flatMap (·.usings) =
        (m.outline.blocksAround 60).reverse.flatMap (·.usings) ++ m.outline.usings ∧
      (m.levels 60).flatMap (·.usings) = [.types "Y", .types "X", .types "Z"] := by
  have hnested : nestedBlocksTree.Nested := by decide +kernel
  refine ⟨hnested, ?_, (levels_ofFile nestedBlocks hnested .empty 60).2.2, ?_⟩
  · decide +kernel
  · decide +kernel

end Model

end Unqualify
