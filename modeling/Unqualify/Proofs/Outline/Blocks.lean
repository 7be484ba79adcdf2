import Unqualify.Outline.OfTree
import Unqualify.Proofs.Name
import Unqualify.Proofs.Tree
import Mathlib.Tactic.SplitIfs

/-!
# Namespace blocks of a file

The blocks of a file are collected in document order.  In a tree whose ranges are nested, a block
that comes after another one either stands inside it or starts where the other has ended; and
inside a block with directives of its own it has a name below the name of that block
(`NamespaceBlock.Precedes`).  A namespace for the rest of the file has no directives of its own, so
nothing is said there about the names that come after it.

* `Outline.Standing.ofMember`: what the walk down one node collects,
* `Outline.standing_ofFile`: the blocks of a whole file.
-/

namespace Unqualify

namespace NamespaceBlock

/-- One block stands inside another, with a name below the name of that one if that one has
directives. -/
def Encloses (outer inner : NamespaceBlock) : Prop :=
  inner.extent.Within outer.extent ∧
    (outer.usings = [] ∨ Name.IsBelow outer.name inner.name)

/-- One block comes before another: the other stands inside it or after it. -/
def Precedes (a b : NamespaceBlock) : Prop :=
  a.Encloses b ∨ a.extent.stop ≤ b.extent.start

theorem Precedes.encloses {a b : NamespaceBlock} {offset : Nat} (h : a.Precedes b)
    (ha : a.extent.contains offset) (hb : b.extent.contains offset) : a.Encloses b := by
  rcases h with h | h
  · exact h
  · rw [Extent.contains_iff] at ha hb
    omega

end NamespaceBlock

namespace Outline

/-- The blocks `bs` stand in the ranges `es` and in a namespace, in document order. -/
structure Standing (space : String) (es : List Extent) (bs : List NamespaceBlock) : Prop where
  /-- Every block lies in one of the ranges. -/
  inside : ∀ b ∈ bs, ∃ e ∈ es, b.extent.Within e
  /-- No block has the empty name. -/
  named : ∀ b ∈ bs, b.name ≠ ""
  /-- In a namespace other than the global one, every block has a name below it. -/
  below : space ≠ "" → ∀ b ∈ bs, Name.IsBelow space b.name
  /-- Of two blocks, the second one stands inside the first or after it. -/
  inOrder : bs.Pairwise NamespaceBlock.Precedes

namespace Standing

variable {space : String} {es es' : List Extent} {as bs : List NamespaceBlock}

theorem nil (space : String) (es : List Extent) : Standing space es [] where
  inside := by simp
  named := by simp
  below := by simp
  inOrder := .nil

theorem mono (h : Standing space es bs) (hsub : ∀ e ∈ es, ∃ e' ∈ es', e.Within e') :
    Standing space es' bs where
  inside := by
    intro b hb
    obtain ⟨e, he, hbe⟩ := h.inside b hb
    obtain ⟨e', he', hee'⟩ := hsub e he
    exact ⟨e', he', hbe.trans hee'⟩
  named := h.named
  below := h.below
  inOrder := h.inOrder

/-- What stands in a namespace stands in the namespace around it. -/
theorem outward {full : String} (h : Standing full es bs) (hfull : full ≠ "")
    (hspace : space ≠ "" → Name.IsBelow space full) : Standing space es bs where
  inside := h.inside
  named := h.named
  below := by
    intro hne b hb
    exact (hspace hne).trans (h.below hfull b hb)
  inOrder := h.inOrder

theorem toGlobal (h : Standing space es bs) : Standing "" es bs where
  inside := h.inside
  named := h.named
  below := fun hne => absurd rfl hne
  inOrder := h.inOrder

/-- Ranges one after the other. -/
theorem append (ha : Standing space es as) (hb : Standing space es' bs)
    (hsep : ∀ e ∈ es, ∀ e' ∈ es', e.stop ≤ e'.start) :
    Standing space (es ++ es') (as ++ bs) where
  inside := by
    intro b hmem
    rcases List.mem_append.1 hmem with hmem | hmem
    · obtain ⟨e, he, hbe⟩ := ha.inside b hmem
      exact ⟨e, List.mem_append_left _ he, hbe⟩
    · obtain ⟨e, he, hbe⟩ := hb.inside b hmem
      exact ⟨e, List.mem_append_right _ he, hbe⟩
  named := List.forall_mem_append.2 ⟨ha.named, hb.named⟩
  below := fun hne => List.forall_mem_append.2 ⟨ha.below hne, hb.below hne⟩
  inOrder := by
    refine List.pairwise_append.2 ⟨ha.inOrder, hb.inOrder, fun a hamem b hbmem => ?_⟩
    obtain ⟨e, he, hae⟩ := ha.inside a hamem
    obtain ⟨e', he', hbe⟩ := hb.inside b hbmem
    exact Or.inr (Nat.le_trans hae.2 (Nat.le_trans (hsep e he e' he') hbe.1))

/-- A block around what stands in it. -/
theorem cons (h : Standing space es bs) (block : NamespaceBlock)
    (hinside : ∀ e ∈ es, e.Within block.extent) (hname : block.name ≠ "")
    (hspace : space ≠ "" → Name.IsBelow space block.name)
    (hbelow : block.usings = [] ∨ ∀ b ∈ bs, Name.IsBelow block.name b.name) :
    Standing space [block.extent] (block :: bs) where
  inside := by
    intro b hmem
    refine ⟨block.extent, List.mem_singleton_self _, ?_⟩
    rcases List.mem_cons.1 hmem with rfl | hmem
    · exact .refl _
    · obtain ⟨e, he, hbe⟩ := h.inside b hmem
      exact hbe.trans (hinside e he)
  named := List.forall_mem_cons.2 ⟨hname, h.named⟩
  below := fun hne => List.forall_mem_cons.2 ⟨hspace hne, h.below hne⟩
  inOrder := by
    refine List.pairwise_cons.2 ⟨fun b hmem => Or.inl ⟨?_, ?_⟩, h.inOrder⟩
    · obtain ⟨e, he, hbe⟩ := h.inside b hmem
      exact hbe.trans (hinside e he)
    · exact hbelow.imp_right fun hall => hall b hmem

end Standing

variable (src : Source)

theorem ne_empty_of_declaredName? {children : List Tree} {name : String}
    (h : declaredName? src children = some name) : name ≠ "" := by
  simp only [declaredName?, Option.bind_eq_bind, Option.bind_eq_some_iff] at h
  obtain ⟨t, -, h⟩ := h
  split_ifs at h with hempty
  cases h
  exact hempty

/-! ### The walk down -/

/-- The ranges of several trees. -/
def rangesOf (ts : List Tree) : List Extent := ts.map (·.label.extent)

mutual

theorem Standing.ofMember (space : String) (outer : List String) :
    (t : Tree) → t.Nested → Standing space [t.label.extent] (ofMember src space outer t).blocks
  | .node label children, h => by
    obtain ⟨inside, inOrder, below⟩ := h
    have hinside : ∀ e ∈ rangesOf children, e.Within label.extent := by
      simpa [rangesOf] using inside
    have hbody (space : String) (outer : List String) :=
      Standing.ofBody space outer children inOrder below
    have hlift {space : String} {bs : List NamespaceBlock}
        (hbs : Standing space (rangesOf children) bs) : Standing space [label.extent] bs :=
      hbs.mono fun e he => ⟨label.extent, List.mem_singleton_self _, hinside e he⟩
    change Standing space [label.extent] _
    rw [Outline.ofMember]
    split_ifs with hspace
    · split
      · exact .nil _ _
      · next name hname =>
        have hfull := Name.join_ne_empty space (ne_empty_of_declaredName? src hname)
        have hbelow : space ≠ "" → Name.IsBelow space (Name.join space name) :=
          fun hs => Name.isBelow_join hs name
        have hin := (hbody (Name.join space name) []).outward hfull hbelow
        rw [blocks_append]
        -- a namespace is a block only if it has a body
        cases Tree.field? "body" children with
        | none => exact hlift hin
        | some body =>
          let block : NamespaceBlock :=
            ⟨Name.join space name, label.extent, usingsOf src body.children⟩
          exact hin.cons block hinside hfull hbelow (Or.inr ((hbody _ []).below hfull))
    · split
      · exact .nil _ _
      · split_ifs
        · exact .nil _ _
        · exact hlift (hbody space _)
    · exact .nil _ _

theorem Standing.ofBody (space : String) (outer : List String) :
    (ts : List Tree) → ts.Pairwise Tree.Before → (∀ t ∈ ts, t.Nested) →
      Standing space (rangesOf ts) (ofBody src space outer ts).blocks
  | [], _, _ => by rw [Outline.ofBody]; exact .nil _ _
  | .node label children :: ts, inOrder, h => by
    obtain ⟨⟨inside, inOrder', below⟩, hts⟩ := List.forall_mem_cons.1 h
    rw [Outline.ofBody]
    split_ifs
    · refine (Standing.ofMembers space outer children inOrder' below).mono fun e he => ?_
      obtain ⟨t, ht, rfl⟩ := List.mem_map.1 he
      exact ⟨label.extent, List.mem_cons_self, inside t ht⟩
    · refine (Standing.ofBody space outer ts inOrder.of_cons hts).mono fun e he => ?_
      exact ⟨e, List.mem_cons_of_mem _ he, .refl e⟩

theorem Standing.ofMembers (space : String) (outer : List String) :
    (ts : List Tree) → ts.Pairwise Tree.Before → (∀ t ∈ ts, t.Nested) →
      Standing space (rangesOf ts) (ofMembers src space outer ts).blocks
  | [], _, _ => by rw [Outline.ofMembers]; exact .nil _ _
  | t :: ts, inOrder, h => by
    obtain ⟨ht, hts⟩ := List.forall_mem_cons.1 h
    have hfirst : Standing space [t.label.extent]
        (if t.label.named then Outline.ofMember src space outer t else {}).blocks := by
      split_ifs
      · exact Standing.ofMember space outer t ht
      · exact .nil _ _
    rw [Outline.ofMembers, blocks_append]
    refine hfirst.append (Standing.ofMembers space outer ts inOrder.of_cons hts) ?_
    rintro _ he _ he'
    obtain rfl := List.mem_singleton.1 he
    obtain ⟨u, hu, rfl⟩ := List.mem_map.1 he'
    exact (List.rel_of_pairwise_cons inOrder hu).2

end

/-! ### The file -/

/-- The ranges from several trees to the end of the file. -/
def rangesTo (fileEnd : Nat) (ts : List Tree) : List Extent :=
  ts.map fun t => { start := t.label.start, stop := fileEnd }

theorem standing_ofTopLevel (fileEnd : Nat) (space : String) {ts : List Tree}
    (hend : ∀ t ∈ ts, t.label.stop ≤ fileEnd) (inOrder : ts.Pairwise Tree.Before)
    (h : ∀ t ∈ ts, t.Nested) :
    Standing "" (rangesTo fileEnd ts) (ofTopLevel src fileEnd space ts).blocks := by
  induction ts generalizing space with
  | nil => exact .nil _ _
  | cons t ts ih =>
    obtain ⟨ht, hts⟩ := List.forall_mem_cons.1 h
    obtain ⟨hendt, hendts⟩ := List.forall_mem_cons.1 hend
    have hrest (space : String) := ih space hendts inOrder.of_cons hts
    have hlater (space : String) : Standing "" (rangesTo fileEnd (t :: ts))
        (ofTopLevel src fileEnd space ts).blocks :=
      (hrest space).mono fun e he => ⟨e, List.mem_cons_of_mem _ he, .refl e⟩
    rw [ofTopLevel]
    split_ifs
    · exact hlater space
    · rw [blocks_append]
      exact hlater space
    · split
      · exact hlater space
      · next name hname =>
        -- the block reaches to the end of the file, around all that comes later
        let block : NamespaceBlock := ⟨name, ⟨t.label.start, fileEnd⟩, []⟩
        have hinside : ∀ e ∈ rangesTo fileEnd ts, e.Within block.extent := by
          intro e he
          obtain ⟨u, hu, rfl⟩ := List.mem_map.1 he
          exact ⟨(List.rel_of_pairwise_cons inOrder hu).1, Nat.le_refl _⟩
        have hblocks := (hrest name).cons block hinside (ne_empty_of_declaredName? src hname)
          (absurd rfl) (Or.inl rfl)
        rw [blocks_append]
        exact hblocks.mono fun e he =>
          ⟨e, List.mem_cons.2 (Or.inl (List.mem_singleton.1 he)), .refl e⟩
    · rw [blocks_append]
      have hfirst := (Standing.ofMember src space [] t ht).toGlobal
      refine (hfirst.append (hrest space) ?_).mono ?_
      · intro e he e' he'
        obtain rfl := List.mem_singleton.1 he
        obtain ⟨u, hu, rfl⟩ := List.mem_map.1 he'
        exact (List.rel_of_pairwise_cons inOrder hu).2
      · intro e he
        rcases List.mem_append.1 he with he | he
        · obtain rfl := List.mem_singleton.1 he
          exact ⟨_, List.mem_cons_self, Nat.le_refl _, hendt⟩
        · exact ⟨e, List.mem_cons_of_mem _ he, .refl e⟩

/-- **The blocks of a file** whose ranges are nested are named, and each stands inside or after
those that come before it. -/
theorem standing_ofFile {tree : Tree} (h : tree.Nested) :
    Standing "" (rangesTo tree.label.stop tree.children) (ofFile src tree).blocks := by
  obtain ⟨inside, inOrder, below⟩ := h
  have hfile := standing_ofTopLevel src _ "" (fun t ht => (inside t ht).2) inOrder below
  rw [ofFile, blocks_append, List.append_nil]
  exact hfile

end Outline

end Unqualify
