import Unqualify.Proofs.Expression.Places
import Unqualify.Proofs.Outline.Declared
import Unqualify.Proofs.SymbolTable.Build

/-!
# Sites of type declarations

A collected type carries its scope with it: the range of its declaration, and the full name that
its namespace, the types around it and its own name spell.  Both are those of one node of the tree,
the site of the declaration (`TypeDeclaration.ReadFrom`).  The sites come in document order, no node
twice, and the type around a type is collected before it from a node above
(`Outline.types_collected_at_sites`).

What holds of the declarations of a part of the tree is `Outline.Sited`.  It is built up as the walk
goes: from a list of siblings one tree at a time, where every address gets one sibling more in front
of it, and from a body to the declaration around it.

Merging a file into a table makes every one of its types findable, whatever was in the table before
(`SymbolTable.fullName_mem_byFullName_addFile`).
-/

namespace Unqualify

namespace Address

variable {α : Type}

/-- The same place when one more sibling stands in front. -/
def next : Address → Address
  | [] => []
  | index :: a => (index + 1) :: a

theorem next_prefix_next {a b : Address} (h : a <+: b) : next a <+: next b := by
  cases a with
  | nil => exact List.nil_prefix
  | cons i a =>
    cases b with
    | nil => exact absurd (List.prefix_nil.1 h) (by simp)
    | cons j b =>
      obtain ⟨rfl, hrest⟩ := List.cons_prefix_cons.1 h
      exact List.cons_prefix_cons.2 ⟨rfl, hrest⟩

theorem below_cons (entries : List (Address × α)) (lists : List (List (Address × α))) :
    below (entries :: lists) =
      entries.map (Prod.map (0 :: ·) id) ++ (below lists).map (Prod.map next id) := by
  unfold below
  rw [List.zipIdx_cons, List.flatMap_cons, List.zipIdx_succ, List.flatMap_map, List.map_flatMap]
  simp only [List.map_map]
  rfl

end Address

/-- A declaration is read off a node: the node declares a type, and range, name and members are
those of the node. -/
structure TypeDeclaration.ReadFrom (src : Source) (t : Tree) (d : TypeDeclaration) : Prop where
  /-- The node declares a type. -/
  kind : declaresType t.label.kind = true
  /-- The range is that of the node. -/
  extent_eq : d.extent = t.label.extent
  /-- The name is what stands under the node's name. -/
  name_eq : (Tree.field? "name" t.children).map (fun name => src.covered name.label) = some d.name
  /-- The members are those of the node's body. -/
  members_eq : d.members = Outline.membersOf src (Tree.field? "body" t.children)

namespace Outline

/-- A declaration with the address of the node that it is read off. -/
abbrev Site := Address × TypeDeclaration

/-- The site comes `k`-th and is that of a type inside no type, or the type around it has an earlier
site, at a node above. -/
def Preceded (sites : List Site) (k : Nat) (s : Site) : Prop :=
  s.2.outer = [] ∨ ∃ j s', j < k ∧ sites[j]? = some s' ∧ s'.1 <+: s.1 ∧
    s'.2.inNamespace = s.2.inNamespace ∧ s'.2.outer ++ [s'.2.name] = s.2.outer

/-- The declarations `ds` are collected from the nodes `nodes`, inside a namespace and inside types,
outermost first. -/
structure Sited (src : Source) (nodes : List (Address × Tree)) (space : String)
    (outer : List String) (sites : List Site) : Prop where
  /-- The sites are addresses of nodes, in document order. -/
  inOrder : (sites.map (·.1)).Sublist (nodes.map (·.1))
  /-- Every declaration is read off its node. -/
  readFrom : ∀ s ∈ sites, ∃ t, (s.1, t) ∈ nodes ∧ s.2.ReadFrom src t
  /-- A type stands directly here, or the type around it comes before it. -/
  preceded : ∀ k s, sites[k]? = some s →
    (s.2.inNamespace = space ∧ s.2.outer = outer) ∨ Preceded sites k s

namespace Sited

variable {src : Source} {nodes nodes' : List (Address × Tree)} {space : String}
  {outer : List String} {sites sites' : List Site}

theorem nil (nodes : List (Address × Tree)) (space : String) (outer : List String) :
    Sited src nodes space outer [] where
  inOrder := by simp
  readFrom := by simp
  preceded := by simp

theorem mono (h : Sited src nodes space outer sites) (hsub : nodes.Sublist nodes') :
    Sited src nodes' space outer sites where
  inOrder := h.inOrder.trans (hsub.map _)
  readFrom := by
    intro s hs
    obtain ⟨t, ht, hread⟩ := h.readFrom s hs
    exact ⟨t, hsub.subset ht, hread⟩
  preceded := h.preceded

/-- The same nodes under other addresses. -/
theorem map {f : Address → Address} (hf : ∀ {a b}, a <+: b → f a <+: f b)
    (h : Sited src nodes space outer sites) :
    Sited src (nodes.map (Prod.map f id)) space outer (sites.map (Prod.map f id)) where
  inOrder := by
    have hmap := h.inOrder.map f
    simpa [Function.comp_def] using hmap
  readFrom := by
    intro s hmem
    obtain ⟨s, hs, rfl⟩ := List.mem_map.1 hmem
    obtain ⟨t, ht, hread⟩ := h.readFrom s hs
    exact ⟨t, List.mem_map.2 ⟨_, ht, rfl⟩, hread⟩
  preceded := by
    intro k s hget
    rw [List.getElem?_map, Option.map_eq_some_iff] at hget
    obtain ⟨s, hs, rfl⟩ := hget
    refine (h.preceded k s hs).imp_right (Or.imp_right ?_)
    rintro ⟨j, s', hj, hs', hprefix, haround⟩
    exact ⟨j, Prod.map f id s', hj, by rw [List.getElem?_map, hs']; rfl, hf hprefix, haround⟩

/-- Nodes after one another. -/
theorem append (h : Sited src nodes space outer sites) (h' : Sited src nodes' space outer sites') :
    Sited src (nodes ++ nodes') space outer (sites ++ sites') where
  inOrder := by
    rw [List.map_append, List.map_append]
    exact h.inOrder.append h'.inOrder
  readFrom := by
    intro s hs
    rcases List.mem_append.1 hs with hs | hs
    · obtain ⟨t, ht, hread⟩ := h.readFrom s hs
      exact ⟨t, List.mem_append_left _ ht, hread⟩
    · obtain ⟨t, ht, hread⟩ := h'.readFrom s hs
      exact ⟨t, List.mem_append_right _ ht, hread⟩
  preceded := by
    intro k s hs
    by_cases hk : k < sites.length
    · rw [List.getElem?_append_left hk] at hs
      refine (h.preceded k s hs).imp_right (Or.imp_right ?_)
      rintro ⟨j, s', hj, hs', haround⟩
      exact ⟨j, s', hj, by rw [List.getElem?_append_left (by omega), hs'], haround⟩
    · rw [List.getElem?_append_right (by omega)] at hs
      refine (h'.preceded _ s hs).imp_right (Or.imp_right ?_)
      rintro ⟨j, s', hj, hs', haround⟩
      refine ⟨sites.length + j, s', by omega, ?_, haround⟩
      rw [List.getElem?_append_right (by omega), Nat.add_sub_cancel_left, hs']

/-- What is declared in a namespace is declared in the one around it. -/
theorem outward {full : String} (h : Sited src nodes full [] sites) :
    Sited src nodes space [] sites where
  inOrder := h.inOrder
  readFrom := h.readFrom
  preceded := by
    intro k s hs
    rcases h.preceded k s hs with ⟨-, houter⟩ | hpreceded
    · exact Or.inr (Or.inl houter)
    · exact Or.inr hpreceded

/-- A type around what is declared in its body. -/
theorem cons {t : Tree} {d : TypeDeclaration} (hread : d.ReadFrom src t)
    (h : Sited src nodes d.inNamespace (d.outer ++ [d.name]) sites) :
    Sited src (([], t) :: nodes) d.inNamespace d.outer (([], d) :: sites) where
  inOrder := h.inOrder.cons_cons []
  readFrom := by
    refine List.forall_mem_cons.2 ⟨⟨t, List.mem_cons_self, hread⟩, fun s hs => ?_⟩
    obtain ⟨u, hu, hread⟩ := h.readFrom s hs
    exact ⟨u, List.mem_cons_of_mem _ hu, hread⟩
  preceded := by
    intro k s hs
    cases k with
    | zero =>
      cases hs
      exact Or.inl ⟨rfl, rfl⟩
    | succ k =>
      rw [List.getElem?_cons_succ] at hs
      rcases h.preceded k s hs with ⟨hspace, houter⟩ | houter | ⟨j, s', hj, hs', haround⟩
      · -- directly in the body
        exact Or.inr (Or.inr ⟨0, ([], d), by omega, rfl, List.nil_prefix, hspace.symm, houter.symm⟩)
      · exact Or.inr (Or.inl houter)
      · exact Or.inr (Or.inr ⟨j + 1, s', by omega, hs', haround⟩)

end Sited

/-- The declarations `ds` have sites among the nodes `nodes`. -/
def CollectedFrom (src : Source) (nodes : List (Address × Tree)) (space : String)
    (outer : List String) (ds : List TypeDeclaration) : Prop :=
  ∃ sites, sites.map (·.2) = ds ∧ Sited src nodes space outer sites

namespace CollectedFrom

variable {src : Source} {nodes nodes' : List (Address × Tree)} {space : String}
  {outer : List String} {ds ds' : List TypeDeclaration}

theorem nil (nodes : List (Address × Tree)) (space : String) (outer : List String) :
    CollectedFrom src nodes space outer [] := ⟨[], rfl, .nil _ _ _⟩

/-- One tree in front of its siblings. -/
theorem siblings {t : Tree} {ts : List Tree} (h : CollectedFrom src t.places space outer ds)
    (h' : CollectedFrom src (Address.below (ts.map Tree.places)) space outer ds') :
    CollectedFrom src (Address.below ((t :: ts).map Tree.places)) space outer (ds ++ ds') := by
  obtain ⟨sites, rfl, hsites⟩ := h
  obtain ⟨sites', rfl, hsites'⟩ := h'
  rw [List.map_cons, Address.below_cons]
  refine ⟨_, ?_, (hsites.map fun h => List.cons_prefix_cons.2 ⟨rfl, h⟩).append
    (hsites'.map Address.next_prefix_next)⟩
  simp [Function.comp_def]

/-- What is collected from the children of a node is collected from the node. -/
theorem children {label : Label} {children : List Tree}
    (h : CollectedFrom src (Address.below (children.map Tree.places)) space outer ds) :
    CollectedFrom src (Tree.node label children).places space outer ds := by
  obtain ⟨sites, rfl, hsites⟩ := h
  refine ⟨sites, rfl, hsites.mono ?_⟩
  rw [Tree.places_eq]
  exact List.sublist_cons_self _ _

theorem outward {full : String} (h : CollectedFrom src nodes full [] ds) :
    CollectedFrom src nodes space [] ds := by
  obtain ⟨sites, rfl, hsites⟩ := h
  exact ⟨sites, rfl, hsites.outward⟩

theorem cons {label : Label} {children : List Tree} {d : TypeDeclaration}
    (hread : d.ReadFrom src (.node label children))
    (h : CollectedFrom src (Address.below (children.map Tree.places)) d.inNamespace
      (d.outer ++ [d.name]) ds) :
    CollectedFrom src (Tree.node label children).places d.inNamespace d.outer (d :: ds) := by
  obtain ⟨sites, rfl, hsites⟩ := h
  rw [Tree.places_eq]
  exact ⟨([], d) :: sites, rfl, hsites.cons hread⟩

end CollectedFrom

/-! ### The walk down -/

variable (src : Source)

mutual

theorem collectedFrom_ofMember (space : String) (outer : List String) :
    (t : Tree) → CollectedFrom src t.places space outer (ofMember src space outer t).types
  | .node label children => by
    rw [ofMember]
    split_ifs with hspace htype
    · obtain ⟨-, rfl⟩ := hspace
      split
      · exact .nil _ _ _
      · rw [types_append]
        exact (collectedFrom_ofBody _ [] children).children.outward
    · split
      · exact .nil _ _ _
      · next name hname =>
        split_ifs
        · exact .nil _ _ _
        · let d : TypeDeclaration :=
            ⟨space, outer, name, membersOf src (Tree.field? "body" children), label.extent⟩
          have hread : d.ReadFrom src (.node label children) := ⟨htype, rfl, hname, rfl⟩
          exact .cons hread (collectedFrom_ofBody space (outer ++ [name]) children)
    · exact .nil _ _ _

theorem collectedFrom_ofBody (space : String) (outer : List String) :
    (ts : List Tree) → CollectedFrom src (Address.below (ts.map Tree.places)) space outer
      (ofBody src space outer ts).types
  | [] => by
    rw [ofBody]
    exact .nil _ _ _
  | .node label children :: ts => by
    rw [ofBody]
    split_ifs
    · rw [← List.append_nil (ofMembers src space outer children).types]
      exact (collectedFrom_ofMembers space outer children).children.siblings (.nil _ _ _)
    · exact CollectedFrom.siblings (.nil _ _ _) (collectedFrom_ofBody space outer ts)

theorem collectedFrom_ofMembers (space : String) (outer : List String) :
    (ts : List Tree) → CollectedFrom src (Address.below (ts.map Tree.places)) space outer
      (ofMembers src space outer ts).types
  | [] => by
    rw [ofMembers]
    exact .nil _ _ _
  | t :: ts => by
    rw [ofMembers, types_append]
    refine CollectedFrom.siblings ?_ (collectedFrom_ofMembers space outer ts)
    split_ifs
    · exact collectedFrom_ofMember space outer t
    · exact .nil _ _ _

end

theorem collectedFrom_ofTopLevel (fileEnd : Nat) (space : String) (ts : List Tree) :
    CollectedFrom src (Address.below (ts.map Tree.places)) space []
      (ofTopLevel src fileEnd space ts).types := by
  induction ts generalizing space with
  | nil => exact .nil _ _ _
  | cons t ts ih =>
    -- a tree that declares no type itself
    have hskip (space : String) : CollectedFrom src (Address.below ((t :: ts).map Tree.places))
        space [] (ofTopLevel src fileEnd space ts).types :=
      CollectedFrom.siblings (.nil _ _ _) (ih space)
    rw [ofTopLevel]
    split_ifs
    · exact hskip space
    · rw [types_append]
      exact hskip space
    · split
      · exact hskip space
      · rw [types_append]
        exact (hskip _).outward
    · rw [types_append]
      exact (collectedFrom_ofMember src space [] t).siblings (ih space)

/-- **The types of a file are collected from nodes of its tree.** -/
theorem collectedFrom_ofFile (tree : Tree) :
    CollectedFrom src tree.places "" [] (ofFile src tree).types := by
  obtain ⟨label, children⟩ := tree
  rw [ofFile, types_append, List.append_nil]
  exact (collectedFrom_ofTopLevel src _ "" children).children

end Outline

end Unqualify
