import Unqualify.Proofs.Model.Parameters
import Unqualify.Proofs.Outline.Reading
import Mathlib.Data.List.TakeWhile

/-!
# Local names stay inside their type

The walk over a file comes to the named nodes of its tree in document order, and at each of them it
knows the nodes around it (`Tree.visits`).  The locals of the file are what these nodes declare by
themselves, one after the other (`Outline.locals_ofFile`).

A node makes what it declares visible in one of four places: in itself, in the node directly around
it, in the one around that, or in the nearest node that bounds locals (`Outline.VisibleIn`).  The
nodes on the way up hold one another, so the place holds the declared name.  And none of the four is
farther away than the innermost type declaration, if no parameter stands in a type declaration
without a list around it: the range of a local lies inside that type
(`Outline.locals_stay_inside_types`).
-/

namespace Unqualify

/-! ### The walk -/

namespace Tree

mutual

/-- The nodes that a walk comes to from a tree on, each with the nodes around it, nearest first. -/
def visitsFrom (around : List Label) : Tree → List (List Label × Tree)
  | .node label children =>
    (around, .node label children) :: visitsFromAll (label :: around) children

/-- The nodes that a walk comes to from the named trees of a list on. -/
def visitsFromAll (around : List Label) : List Tree → List (List Label × Tree)
  | [] => []
  | t :: ts => (if t.label.named then visitsFrom around t else []) ++ visitsFromAll around ts

end

/-- The nodes that the walk over a file comes to, in document order. -/
def visits (root : Tree) : List (List Label × Tree) := visitsFrom [] root

variable {root t : Tree} {around : List Label}

mutual

theorem reached_of_mem_visitsFrom {around : List Label} :
    (t : Tree) → root.Reached around t → ∀ v ∈ visitsFrom around t, root.Reached v.1 v.2
  | .node label children, h => by
    rw [visitsFrom]
    refine List.forall_mem_cons.2 ⟨h, ?_⟩
    exact reached_of_mem_visitsFromAll children fun t ht hnamed => .child h ht hnamed

theorem reached_of_mem_visitsFromAll {around : List Label} :
    (ts : List Tree) → (∀ t ∈ ts, t.label.named = true → root.Reached around t) →
      ∀ v ∈ visitsFromAll around ts, root.Reached v.1 v.2
  | [], _ => by simp [visitsFromAll]
  | t :: ts, h => by
    obtain ⟨ht, hts⟩ := List.forall_mem_cons.1 h
    rw [visitsFromAll]
    refine List.forall_mem_append.2 ⟨?_, reached_of_mem_visitsFromAll ts hts⟩
    split_ifs with hnamed
    · exact reached_of_mem_visitsFrom t (ht hnamed)
    · simp

end

theorem visitsFrom_subset_visitsFromAll {ts : List Tree} (hmem : t ∈ ts)
    (hnamed : t.label.named = true) : visitsFrom around t ⊆ visitsFromAll around ts := by
  induction ts with
  | nil => cases hmem
  | cons u ts ih =>
    rw [visitsFromAll]
    rcases List.mem_cons.1 hmem with rfl | hmem
    · rw [if_pos hnamed]
      exact List.subset_append_left _ _
    · exact List.subset_append_of_subset_right _ (ih hmem)

theorem visitsFrom_subset_of_reached (h : root.Reached around t) :
    visitsFrom around t ⊆ root.visits := by
  induction h with
  | root => exact List.Subset.refl _
  | child above mem named ih =>
    refine List.Subset.trans (visitsFrom_subset_visitsFromAll mem named) ?_
    refine List.Subset.trans ?_ ih
    rw [visitsFrom]
    exact List.subset_cons_self _ _

/-- **The walk comes to every node that can be reached**, and to no other. -/
theorem mem_visits_iff : (around, t) ∈ root.visits ↔ root.Reached around t := by
  constructor
  · exact reached_of_mem_visitsFrom root .root (around, t)
  · intro h
    apply visitsFrom_subset_of_reached h
    cases t with
    | node label children =>
      rw [visitsFrom]
      exact List.mem_cons_self

/-- Where every node holds its children, the nodes on the way up hold one another. -/
theorem Reached.pairwise_within (h : root.Reached around t)
    (hinside : ∀ around t, root.Reached around t →
      ∀ c ∈ t.children, c.label.extent.Within t.label.extent) :
    (t.label :: around).Pairwise fun inner outer => inner.extent.Within outer.extent := by
  induction h with
  | root => exact List.pairwise_singleton _ _
  | @child label children around t above mem named ih =>
    have hparent : t.label.extent.Within label.extent := hinside _ _ above t mem
    refine List.pairwise_cons.2 ⟨List.forall_mem_cons.2 ⟨hparent, fun outer houter => ?_⟩, ih⟩
    exact hparent.trans (List.rel_of_pairwise_cons ih houter)

end Tree

namespace Outline

variable {src : Source} {around : List Label} {t : Tree} {scope : Label}

/-! ### Locals node by node -/

theorem locals_ofTopLevel_eq_nil (fileEnd : Nat) (space : String) (ts : List Tree) :
    (ofTopLevel src fileEnd space ts).locals = [] := by
  induction ts generalizing space with
  | nil => rfl
  | cons t ts ih =>
    rw [ofTopLevel]
    split_ifs
    · exact ih space
    · rw [locals_append, ih space, List.append_nil]
    · split
      · exact ih space
      · rw [locals_append, ih _, List.append_nil]
    · rw [locals_append, ih space, List.append_nil]
      exact (onlyDeclares_ofMember space [] t).2

mutual

theorem localsOf_eq_flatMap (around : List Label) : (t : Tree) →
    localsOf src around t = (t.visitsFrom around).flatMap fun v => localsAt src v.1 v.2
  | .node label children => by
    rw [localsOf, Tree.visitsFrom, List.flatMap_cons, localsOfAll_eq_flatMap]

theorem localsOfAll_eq_flatMap (around : List Label) : (ts : List Tree) →
    localsOfAll src around ts =
      (Tree.visitsFromAll around ts).flatMap fun v => localsAt src v.1 v.2
  | [] => by rw [localsOfAll, Tree.visitsFromAll, List.flatMap_nil]
  | t :: ts => by
    rw [localsOfAll, Tree.visitsFromAll, List.flatMap_append, localsOfAll_eq_flatMap around ts]
    split_ifs
    · rw [localsOf_eq_flatMap around t]
    · rw [List.flatMap_nil]

end

/-- **The locals of a file are what its nodes declare by themselves**, node by node. -/
theorem locals_ofFile (src : Source) (root : Tree) :
    (ofFile src root).locals = root.visits.flatMap fun v => localsAt src v.1 v.2 := by
  rw [ofFile, locals_append, locals_ofTopLevel_eq_nil, List.nil_append]
  exact localsOf_eq_flatMap [] root

/-! ### The type around a node -/

/-- The innermost type declaration among the nodes around a node. -/
def innermostType? (around : List Label) : Option Label :=
  around.find? fun a => declaresType a.kind

/-- The nodes around a node up to the innermost type declaration, without that one. -/
def belowType (around : List Label) : List Label :=
  around.takeWhile fun a => !declaresType a.kind

/-- The node that bounds a local is the nearest one below the innermost type declaration. -/
theorem enclosingScope?_eq (around : List Label) :
    enclosingScope? around = (belowType around).find? fun a => boundsLocals a.kind := by
  induction around with
  | nil => rfl
  | cons a around ih =>
    rw [enclosingScope?, belowType, List.takeWhile_cons]
    by_cases htype : declaresType a.kind = true
    · simp [htype]
    · rw [if_neg htype, Bool.eq_false_iff.2 htype, Bool.not_false, if_pos rfl, List.find?_cons]
      split_ifs with hbounds
      · rw [hbounds]
      · rw [Bool.eq_false_iff.2 hbounds, ih, belowType]

/-- A node on the way up is no farther away than the innermost type declaration. -/
def UpToType (scope : Label) (around : List Label) : Prop :=
  scope ∈ belowType around ∨ innermostType? around = some scope

theorem upToType_cons_self (scope : Label) (around : List Label) :
    UpToType scope (scope :: around) := by
  by_cases htype : declaresType scope.kind = true
  · exact Or.inr (by simp [innermostType?, htype])
  · exact Or.inl (by simp [belowType, htype])

theorem UpToType.cons (h : UpToType scope around) {a : Label} (ha : declaresType a.kind = false) :
    UpToType scope (a :: around) := by
  rcases h with h | h
  · refine Or.inl ?_
    rw [belowType, List.takeWhile_cons, ha, Bool.not_false, if_pos rfl]
    exact List.mem_cons_of_mem _ h
  · refine Or.inr ?_
    rw [innermostType?, List.find?_cons, ha]
    exact h

theorem UpToType.mem (h : UpToType scope around) : scope ∈ around := by
  rcases h with h | h
  · exact (List.takeWhile_sublist _).subset h
  · exact List.mem_of_find?_eq_some h

/-- Up to the innermost type declaration, the nodes on the way up lie in it. -/
theorem UpToType.within (h : UpToType scope around)
    (haround : around.Pairwise fun inner outer => inner.extent.Within outer.extent)
    {type : Label} (htype : innermostType? around = some type) :
    scope.extent.Within type.extent := by
  rcases h with h | h
  · have hhead := htype
    rw [innermostType?, List.find?_eq_head?_dropWhile_not, List.head?_eq_some_iff] at hhead
    obtain ⟨after, hafter⟩ := hhead
    have hsplit : belowType around ++ type :: after = around := by
      rw [← hafter]
      exact List.takeWhile_append_dropWhile
    rw [← hsplit] at haround
    exact (List.pairwise_append.1 haround).2.2 scope h type List.mem_cons_self
  · rw [htype] at h
    cases h
    exact .refl _

/-! ### Where a declared name is visible -/

/-- Where the name that a node declares can be visible, among the node itself and the nodes around
it. -/
inductive VisibleIn (label : Label) : List Label → Label → Prop
  /-- In the node itself. -/
  | itself (around : List Label) : VisibleIn label around label
  /-- In the node directly around it. -/
  | parent (scope : Label) (around : List Label) : VisibleIn label (scope :: around) scope
  /-- The name of a parameter in the node that owns the list. -/
  | owner (list scope : Label) (around : List Label) (kind : label.kind = "parameter") :
    VisibleIn label (list :: scope :: around) scope
  /-- In the nearest node that bounds locals. -/
  | enclosing {around : List Label} {scope : Label} (bounds : enclosingScope? around = some scope) :
    VisibleIn label around scope

theorem VisibleIn.of_head? {label : Label} (h : around.head? = some scope) :
    VisibleIn label around scope := by
  cases around with
  | nil => cases h
  | cons a around =>
    cases h
    exact .parent _ around

theorem VisibleIn.upToType {label : Label} (h : VisibleIn label around scope)
    (hlisted : label.kind = "parameter" →
      ∀ parent ∈ around.head?, declaresType parent.kind = false) :
    scope = label ∨ UpToType scope around := by
  cases h with
  | itself => exact Or.inl rfl
  | parent scope around => exact Or.inr (upToType_cons_self scope around)
  | owner list scope around kind =>
    exact Or.inr ((upToType_cons_self scope around).cons (hlisted kind list rfl))
  | enclosing bounds =>
    rw [enclosingScope?_eq] at bounds
    exact Or.inr (Or.inl (List.mem_of_find?_eq_some bounds))

theorem declare_none (src : Source) (name : Option Tree) : declare src name none = [] := by
  cases name <;> rfl

theorem exists_of_mem_declare {name : Option Tree} {scope : Option Label} {l : Local}
    (h : l ∈ declare src name scope) :
    ∃ n s, name = some n ∧ scope = some s ∧ l = ⟨src.covered n.label, s.extent⟩ := by
  unfold declare at h
  split at h
  · next n s =>
    dsimp only at h
    split_ifs at h
    · exact ⟨n, s, rfl, rfl, List.mem_singleton.1 h⟩
    · cases h
  · cases h

/-- What a node declares by itself has its name from the node or one of its children, and is visible
in one of the four places. -/
theorem exists_of_mem_localsAt {l : Local} (h : l ∈ localsAt src around t) :
    ∃ name scope, (name = t ∨ name ∈ t.children) ∧ VisibleIn t.label around scope ∧
      l = ⟨src.covered name.label, scope.extent⟩ := by
  obtain ⟨label, children⟩ := t
  rw [localsAt] at h
  split at h
  · next hkind =>
    obtain ⟨name, scope, hname, hscope, rfl⟩ := exists_of_mem_declare h
    refine ⟨name, scope, Or.inr (Tree.mem_of_field? hname), ?_, rfl⟩
    obtain _ | ⟨list, _ | ⟨_, around⟩⟩ := around
    · cases hscope
    · cases hscope
    · cases hscope
      exact .owner list scope around hkind
  · obtain ⟨name, scope, hname, hscope, rfl⟩ := exists_of_mem_declare h
    exact ⟨name, scope, Or.inl (Option.some.inj hname).symm, .of_head? hscope, rfl⟩
  · obtain ⟨name, scope, hname, hscope, rfl⟩ := exists_of_mem_declare h
    exact ⟨name, scope, Or.inr (Tree.mem_of_field? hname), .of_head? hscope, rfl⟩
  · obtain ⟨name, scope, hname, hscope, rfl⟩ := exists_of_mem_declare h
    cases hscope
    have hleft := (Option.mem_filter_iff.1 hname).1
    exact ⟨name, label, Or.inr (Tree.mem_of_field? hleft), .itself around, rfl⟩
  · obtain ⟨name, scope, hname, hscope, rfl⟩ := exists_of_mem_declare h
    exact ⟨name, scope, Or.inr (Tree.mem_of_field? hname), .enclosing hscope, rfl⟩
  · obtain ⟨name, scope, hname, hscope, rfl⟩ := exists_of_mem_declare h
    exact ⟨name, scope, Or.inr (Tree.mem_of_field? hname), .enclosing hscope, rfl⟩
  · split_ifs at h
    · obtain ⟨name, hname, h⟩ := List.mem_flatMap.1 h
      obtain ⟨name', scope, hname', hscope, rfl⟩ := exists_of_mem_declare h
      cases hname'
      exact ⟨name, scope, Or.inr (List.mem_filter.1 hname).1, .enclosing hscope, rfl⟩
    · cases h

/-- What a variable declarator declares is bounded by the nearest node below the innermost type. -/
theorem localsAt_variableDeclarator (src : Source) (around : List Label)
    (hkind : t.label.kind = "variable_declarator") :
    localsAt src around t = declare src (Tree.field? "name" t.children)
      ((belowType around).find? fun a => boundsLocals a.kind) := by
  obtain ⟨label, children⟩ := t
  rw [← enclosingScope?_eq]
  change label.kind = _ at hkind
  rw [localsAt, hkind]
  rfl

/-- **Locals stay inside their type, and fields are no locals.**  Take a tree whose nodes hold their
children and in which no parameter stands directly in a type declaration.  Its locals are what the
nodes that the walk comes to declare by themselves.  Each of them is visible in the range of the
node that declares it or of one around that node.  That range holds the range of the name, and it
lies inside the innermost type declaration around the node.  A variable declarator that meets no
node which bounds locals on the way up to that type declares nothing; one that does declares a local
of the nearest. -/
theorem locals_stay_inside_types (src : Source) {root : Tree}
    (hinside : ∀ around t, root.Reached around t →
      ∀ c ∈ t.children, c.label.extent.Within t.label.extent)
    (hlisted : ∀ around t, root.Reached around t → t.label.kind = "parameter" →
      ∀ parent ∈ around.head?, declaresType parent.kind = false) :
    ((ofFile src root).locals = root.visits.flatMap fun v => localsAt src v.1 v.2) ∧
      (∀ around t, root.Reached around t → ∀ l ∈ localsAt src around t,
        ∃ name scope, (name = t ∨ name ∈ t.children) ∧ scope ∈ t.label :: around ∧
          l = ⟨src.covered name.label, scope.extent⟩ ∧
          name.label.extent.Within scope.extent ∧
          ∀ type ∈ innermostType? around, scope.extent.Within type.extent) ∧
      ∀ around t, root.Reached around t → t.label.kind = "variable_declarator" →
        ((∀ a ∈ belowType around, boundsLocals a.kind = false) → localsAt src around t = []) ∧
        ∀ scope name, ((belowType around).find? fun a => boundsLocals a.kind) = some scope →
          Tree.field? "name" t.children = some name → name.label.kind = "identifier" →
          src.covered name.label ≠ "" →
          localsAt src around t = [⟨src.covered name.label, scope.extent⟩] := by
  refine ⟨locals_ofFile src root, fun around t hreached l hl => ?_,
    fun around t _ hkind => ⟨?_, ?_⟩⟩
  · obtain ⟨name, scope, hname, hvisible, rfl⟩ := exists_of_mem_localsAt hl
    have hway := hreached.pairwise_within hinside
    have hplace := hvisible.upToType (hlisted around t hreached)
    have hscope : scope ∈ t.label :: around :=
      List.mem_cons.2 (hplace.imp_right UpToType.mem)
    have hnode : name.label.extent.Within t.label.extent := by
      rcases hname with rfl | hname
      · exact .refl _
      · exact hinside around t hreached name hname
    refine ⟨name, scope, hname, hscope, rfl, ?_, fun type htype => ?_⟩
    · rcases List.mem_cons.1 hscope with rfl | hscope
      · exact hnode
      · exact hnode.trans (List.rel_of_pairwise_cons hway hscope)
    · rcases hplace with rfl | hplace
      · exact List.rel_of_pairwise_cons hway (List.mem_of_find?_eq_some htype)
      · exact hplace.within hway.of_cons htype
  · intro hnone
    have hscope : ((belowType around).find? fun a => boundsLocals a.kind) = none :=
      List.find?_eq_none.2 fun a ha => by simp [hnone a ha]
    rw [localsAt_variableDeclarator src around hkind, hscope, declare_none]
  · intro scope name hscope hname hidentifier hne
    rw [localsAt_variableDeclarator src around hkind, hscope, hname]
    simp [declare, hidentifier, hne]

/-- The declarator of a field `x`. -/
def fieldDeclarator : Tree :=
  .ofNamed "variable_declarator" "" 12 13 [.ofNamed "identifier" "name" 12 13 []]

/-- A class with that field and a method that has a parameter `a` and a variable `b`. -/
def fieldAndLocalsTree : Tree :=
  .ofNamed "compilation_unit" "" 0 36
    [.ofNamed "class_declaration" "" 0 36
      [.ofNamed "identifier" "name" 6 7 [],
       .ofNamed "declaration_list" "body" 7 36
        [.ofNamed "field_declaration" "" 8 14
          [.ofNamed "variable_declaration" "" 8 13
            [.ofNamed "predefined_type" "type" 8 11 [], fieldDeclarator]],
         .ofNamed "method_declaration" "" 14 35
          [.ofNamed "predefined_type" "returns" 14 18 [],
           .ofNamed "identifier" "name" 19 20 [],
           .ofNamed "parameter_list" "parameters" 20 27
            [.ofNamed "parameter" "" 21 26
              [.ofNamed "predefined_type" "type" 21 24 [], .ofNamed "identifier" "name" 25 26 []]],
           .ofNamed "block" "body" 27 35
            [.ofNamed "local_declaration_statement" "" 28 34
              [.ofNamed "variable_declaration" "" 28 33
                [.ofNamed "predefined_type" "type" 28 31 [],
                 .ofNamed "variable_declarator" "" 32 33
                  [.ofNamed "identifier" "name" 32 33 []]]]]]]]]

/-- The text of that class. -/
def fieldAndLocalsText : Source := .ofText "class P\x7bint x;void M(int a)\x7bint b;\x7d\x7d"

/-- The parameter is visible in the method and the variable in its block, both inside the class, and
the field is no local. -/
theorem field_and_locals_told_apart :
    let src := fieldAndLocalsText
    let root := fieldAndLocalsTree
    (ofFile src root).locals = [⟨"a", ⟨14, 35⟩⟩, ⟨"b", ⟨27, 35⟩⟩] ∧
      ((ofFile src root).locals = root.visits.flatMap fun v => localsAt src v.1 v.2) ∧
      (∀ around t, root.Reached around t → ∀ l ∈ localsAt src around t,
        ∃ name scope, (name = t ∨ name ∈ t.children) ∧ scope ∈ t.label :: around ∧
          l = ⟨src.covered name.label, scope.extent⟩ ∧
          name.label.extent.Within scope.extent ∧
          ∀ type ∈ innermostType? around, scope.extent.Within type.extent) ∧
      ∃ around, root.Reached around fieldDeclarator ∧ localsAt src around fieldDeclarator = [] := by
  intro src root
  have hholds : ∀ v ∈ root.visits, ∀ c ∈ v.2.children, c.label.extent.Within v.2.label.extent := by
    decide +kernel
  have hlists : ∀ v ∈ root.visits, v.2.label.kind = "parameter" →
      ∀ parent ∈ v.1.head?, declaresType parent.kind = false := by
    decide +kernel
  obtain ⟨hlocals, hplaces, hdeclarators⟩ := locals_stay_inside_types src
    (fun around t h => hholds (around, t) (Tree.mem_visits_iff.2 h))
    (fun around t h => hlists (around, t) (Tree.mem_visits_iff.2 h))
  have hfield : ∃ v ∈ root.visits, v.2 = fieldDeclarator ∧
      ∀ a ∈ belowType v.1, boundsLocals a.kind = false :=
    ⟨_, List.mem_of_getElem? (i := 7) rfl, rfl, by decide +kernel⟩
  obtain ⟨⟨around, t⟩, hmem, rfl, hbelow⟩ := hfield
  have hreached := Tree.mem_visits_iff.1 hmem
  exact ⟨by decide +kernel, hlocals, hplaces, around, hreached,
    (hdeclarators around _ hreached rfl).1 hbelow⟩

end Outline

end Unqualify
