import Unqualify.Proofs.Expression.Origin
import Unqualify.Proofs.Scan.Chain

/-!
# Accesses that are kept

The walk down a syntax tree drops nodes in two ways: it stops at some of them, and it leaves out
those below which nothing was found.  Only the first can lose an access.

A node hides what is below one of its children in four cases (`Site.Hides`): it is of a kind that
is not looked into, it is a dotted name that stands for a type, it became an access of which the
child is not the left operand, or it is a name below an alias.  An access that none of the nodes
above it hides, and that is not reached as a type itself, has its own node in the expression tree
(`Site.access_kept`).  So subtrees that are left out hold no such access, and accesses among the
arguments of a call are found although the call is the operand of another access.
-/

namespace Unqualify

open Expression

namespace Tree

/-- Unnamed nodes are tokens: nothing stands below them, and none of them is an access. -/
def UnnamedAreTokens (t : Tree) : Prop :=
  ∀ p ∈ t.places, p.2.label.named = false →
    p.2.children.isEmpty = true ∧ p.2.label.kind ≠ "member_access_expression"

instance (t : Tree) : Decidable t.UnnamedAreTokens :=
  inferInstanceAs (Decidable (∀ p ∈ t.places, _))

theorem UnnamedAreTokens.child {t c : Tree} (h : t.UnnamedAreTokens) {k : Nat}
    (hc : t.children[k]? = some c) : c.UnnamedAreTokens :=
  fun p hp => h (k :: p.1, p.2) (cons_mem_places.2 ⟨c, hc, hp⟩)

/-- An access is named, and so is every node that it stands below. -/
theorem UnnamedAreTokens.named {t v : Tree} (h : t.UnnamedAreTokens) {b : Address}
    (hv : (b, v) ∈ t.places) (hkind : v.label.kind = "member_access_expression") :
    t.label.named = true := by
  rw [← Bool.not_eq_false]
  intro hunnamed
  obtain ⟨hempty, hne⟩ := h ([], t) (nil_mem_places.2 rfl) hunnamed
  cases b with
  | nil =>
    obtain rfl := nil_mem_places.1 hv
    exact hne hkind
  | cons k b =>
    obtain ⟨c, hc, -⟩ := cons_mem_places.1 hv
    rw [List.isEmpty_iff.1 hempty] at hc
    cases hc

end Tree

namespace Site

variable (src : Source)

/-- The node at an address, as the walk comes to it. -/
def reach? (s : Site) : Address → Option Site
  | [] => some s
  | k :: b => ((s.children src)[k]?).bind fun c => c.reach? b

/-- The nodes above an address, each with the index of the child that the way down goes on to. -/
def path (s : Site) : Address → List (Site × Nat)
  | [] => []
  | k :: b =>
    (s, k) ::
      match (s.children src)[k]? with
      | some c => c.path b
      | none => []

/-- The node hides what is at its child of that index, and below. -/
def Hides (s : Site) (index : Nat) : Prop :=
  -- nothing below such a node is looked at
  s.tree.label.kind ∈ ["comment", "using_directive", "identifier"] ∨
  -- a dotted name that stands for a type
  s.tree.label.kind = "member_access_expression" ∧ s.position = .type ∨
  -- of an access, only the left operand is looked at
  s.kept.any isAccess = true ∧ s.operand? ≠ some index ∨
  -- an alias and a name, or nothing
  s.tree.label.kind = "alias_qualified_name" ∧ s.position = .expression

instance (s : Site) (index : Nat) : Decidable (s.Hides index) :=
  inferInstanceAs (Decidable (_ ∨ _ ∧ _ ∨ _ ∧ _ ∨ _ ∧ _))

variable {src}

variable (src) in
theorem exists_reach? (s : Site) {b : Address} {v : Tree} (hv : (b, v) ∈ s.tree.places) :
    ∃ sv, s.reach? src b = some sv ∧ sv.tree = v := by
  induction b generalizing s with
  | nil => exact ⟨s, rfl, (Tree.nil_mem_places.1 hv).symm⟩
  | cons k b ih =>
    obtain ⟨t, ht, hbelow⟩ := Tree.cons_mem_places.1 hv
    rw [← map_tree_children src, List.getElem?_map, Option.map_eq_some_iff] at ht
    obtain ⟨c, hc, rfl⟩ := ht
    obtain ⟨sv, hsv, htree⟩ := ih c hbelow
    exact ⟨sv, by rw [reach?, hc, Option.bind_some, hsv], htree⟩

theorem mem_places_of_reach? {s sv : Site} {b : Address} (h : s.reach? src b = some sv) :
    (b, sv.tree) ∈ s.tree.places := by
  induction b generalizing s with
  | nil =>
    cases h
    exact Tree.nil_mem_places.2 rfl
  | cons k b ih =>
    obtain ⟨c, hc, hsv⟩ := Option.bind_eq_some_iff.1 h
    exact Tree.cons_mem_places.2 ⟨c.tree, tree_of_getElem?_children hc, ih hsv⟩

/-- Below the root, the walk comes to a node in a position. -/
theorem eq_of_of_reach? {s sv : Site} {k : Nat} {b : Address}
    (h : s.reach? src (k :: b) = some sv) : sv = of src sv.position sv.tree := by
  induction b generalizing s k with
  | nil =>
    obtain ⟨c, hc, hsv⟩ := Option.bind_eq_some_iff.1 h
    cases hsv
    exact eq_of_of_mem_children (List.mem_of_getElem? hc)
  | cons j b ih =>
    obtain ⟨c, -, hsv⟩ := Option.bind_eq_some_iff.1 h
    exact ih hsv

/-! ### One step down -/

variable (src) in
/-- An access in expression syntax is always kept, as an access or else for what is below it. -/
theorem exists_ofTree?_of_access (tree : Tree)
    (hkind : tree.label.kind = "member_access_expression") :
    ∃ e, ofTree? src .expression tree = some e ∧
      (e.isAccess = true ∨
        e.isOther = true ∧ accessParts? src "expression" tree.children = none) := by
  obtain ⟨label, ts⟩ := tree
  have hform : formOf .expression label.kind = .access "expression" := by
    rw [show label.kind = _ from hkind]
    rfl
  cases hparts : accessParts? src "expression" ts with
  | none => exact ⟨_, ofTree?_of_accessParts?_none hform hparts, .inr ⟨rfl, hparts⟩⟩
  | some parts =>
    obtain ⟨k, t, -, -, haccess⟩ := exists_operand hform hparts
    exact ⟨_, haccess, .inl rfl⟩

/-- **A node that does not hide a child keeps it**: if the child leaves something, the node does,
and the child is one of its sources. -/
theorem mem_sources_of_not_hides {s c : Site} (h : s.Regular src) {k : Nat}
    (hc : (s.children src)[k]? = some c) (hkept : c.isKept = true) (hhides : ¬ s.Hides k) :
    s.kept.isSome = true ∧ (c, k) ∈ s.sources src := by
  -- nodes that hold others together keep all that is left of them
  have hother {es : List Expression} {span : Span} (hs : s.kept = some (.other es span)) :
      s.kept.isSome = true ∧ (c, k) ∈ s.sources src := by
    rw [sources_of_other hs, hs]
    exact ⟨rfl, List.mem_filter.2 ⟨List.mem_zipIdx_iff_getElem?.2 hc, hkept⟩⟩
  cases h with
  | ofFile tree => exact hother rfl
  | of position tree =>
    obtain ⟨label, ts⟩ := tree
    cases hform : formOf position label.kind with
    | dropped =>
      rcases formOf_eq_dropped hform with hkind | hkind | ⟨hkind, hposition⟩
      · exact absurd (.inl (by simp [of, Tree.label, hkind])) hhides
      · exact absurd (.inl (by simp [of, Tree.label, hkind])) hhides
      · exact absurd (.inr (.inl ⟨hkind, hposition⟩)) hhides
    | name =>
      have hkind := formOf_eq_name hform
      exact absurd (.inl (by simp [of, Tree.label, hkind])) hhides
    | aliased => exact absurd (.inr (.inr (.inr (formOf_eq_aliased hform)))) hhides
    | access field =>
      cases hparts : accessParts? src field ts with
      | none => exact hother (ofTree?_of_accessParts?_none hform hparts)
      | some parts =>
        obtain ⟨i, t, hi, -, hs⟩ := exists_operand hform hparts
        obtain rfl : i = k := by
          by_contra hne
          refine hhides (.inr (.inr (.inl ⟨?_, ?_⟩)))
          · simp only [of, hs, Option.any_some, isAccess]
          · rw [hi]
            exact fun h => hne (Option.some.inj h)
        rw [sources_of_access hs hi hc]
        exact ⟨by rw [of, hs]; rfl, List.mem_singleton_self _⟩
    | other =>
      cases hes : ofChildren src label.kind position [] ts with
      | nil =>
        -- then nothing would be left of the child
        have hs := ofTree?_of_nil hform hes
        have hsites : (of src position (.node label ts)).children src =
            sitesFrom src label.kind position [] ts := by
          simp only [children, of, hs, Tree.label, Tree.children]
        rw [hsites] at hc
        have hmem := List.mem_filter.2 ⟨List.mem_of_getElem? hc, hkept⟩
        rw [ofChildren_eq, List.map_eq_nil_iff] at hes
        rw [hes] at hmem
        cases hmem
      | cons e es => exact hother (ofTree?_of_cons hform hes)

/-! ### All the way down -/

/-- **An access that nothing hides is found from wherever the walk sets out.** -/
theorem exists_place_of_access {s sv : Site} (h : s.Regular src) {b : Address}
    (htokens : s.tree.UnnamedAreTokens) (hsv : s.reach? src b = some sv)
    (hkind : sv.tree.label.kind = "member_access_expression")
    (hposition : sv.position = .expression)
    (hclear : ∀ p ∈ s.path src b, ¬ p.1.Hides p.2) :
    s.kept.isSome = true ∧
      ∃ a, (a, sv.expression src) ∈ (s.expression src).places ∧ s.origin src a = b := by
  induction b generalizing s with
  | nil =>
    cases hsv
    refine ⟨?_, [], Expression.nil_mem_places.2 rfl, by rw [origin]⟩
    cases h with
    | ofFile tree => rfl
    | of position tree =>
      obtain rfl : position = .expression := hposition
      obtain ⟨e, he, -⟩ := exists_ofTree?_of_access src tree hkind
      simp only [of, he, Option.isSome_some]
  | cons k b ih =>
    obtain ⟨c, hc, hsv⟩ := Option.bind_eq_some_iff.1 hsv
    have htree := tree_of_getElem?_children hc
    have hpath : s.path src (k :: b) = (s, k) :: c.path src b := by simp only [path, hc]
    rw [hpath] at hclear
    obtain ⟨hhere, hbelow⟩ := List.forall_mem_cons.1 hclear
    obtain ⟨hkept, a, hplace, horigin⟩ := ih (regular_of_mem_children (List.mem_of_getElem? hc))
      (htokens.child htree) hsv hbelow
    have hnamed : c.tree.label.named = true :=
      (htokens.child htree).named (mem_places_of_reach? hsv) hkind
    obtain ⟨hs, hmem⟩ := mem_sources_of_not_hides h hc (by simp [isKept, hnamed, hkept]) hhere
    obtain ⟨i, hi⟩ := List.mem_iff_getElem?.1 hmem
    refine ⟨hs, i :: a, Expression.cons_mem_places.2 ⟨c.expression src, ?_, hplace⟩, ?_⟩
    · rw [children_expression h, List.getElem?_map, hi, Option.map_some]
    · simp only [origin, hi, horigin]

/-- **No access is lost.**  Take any syntax tree in which unnamed nodes are tokens, and any member
access in it that is not reached as a type.  If none of the nodes above it hides it, then a node of
the expression tree comes from it and has its range.  That node is an access as well, unless the
member access is the root of the tree or cannot be taken apart; then it holds others together. -/
theorem access_kept (src : Source) {tree : Tree} (htokens : tree.UnnamedAreTokens) {b : Address}
    {v : Tree} (hv : (b, v) ∈ tree.places) (hkind : v.label.kind = "member_access_expression")
    (hposition : ((ofFile src tree).reach? src b).map (·.position) ≠ some .type)
    (hclear : ∀ p ∈ (ofFile src tree).path src b, ¬ p.1.Hides p.2) :
    ∃ a e, (a, e) ∈ (Expression.ofFile src tree).places ∧ (ofFile src tree).origin src a = b ∧
      e.span = src.spanOf v.label ∧
      (e.isAccess = true ∨
        e.isOther = true ∧ (b = [] ∨ accessParts? src "expression" v.children = none)) := by
  obtain ⟨sv, hsv, rfl⟩ := exists_reach? src (ofFile src tree) hv
  have hexpression : sv.position = .expression := by
    rw [hsv, Option.map_some, ne_eq, Option.some.injEq] at hposition
    cases hp : sv.position with
    | expression => rfl
    | type => exact absurd hp hposition
  obtain ⟨-, a, hplace, horigin⟩ :=
    exists_place_of_access (.ofFile tree) htokens hsv hkind hexpression hclear
  refine ⟨a, sv.expression src, hplace, horigin, ?_⟩
  cases b with
  | nil =>
    cases hsv
    exact ⟨rfl, .inr ⟨rfl, .inl rfl⟩⟩
  | cons k b =>
    have hof := eq_of_of_reach? hsv
    rw [hexpression] at hof
    obtain ⟨e, he, hform⟩ := exists_ofTree?_of_access src sv.tree hkind
    have hkept : sv.kept = some e := by rw [hof]; exact he
    rw [expression_of_kept hkept]
    refine ⟨span_ofTree? he, hform.imp_right fun h => ⟨h.1, .inr h.2⟩⟩

/-- The access `x.y` in `F(x.y).C;`. -/
def argumentAccess : Tree :=
  .ofNamed "member_access_expression" "" 2 5
    [.ofNamed "identifier" "expression" 2 3 [], .node ⟨".", "", false, 3, 4⟩ [],
     .ofNamed "identifier" "name" 4 5 []]

/-- The tree of `F(x.y).C;`. -/
def callChain : Tree :=
  .ofNamed "compilation_unit" "" 0 9
    [.ofNamed "global_statement" "" 0 9
      [.ofNamed "expression_statement" "" 0 9
        [.ofNamed "member_access_expression" "" 0 8
          [.ofNamed "invocation_expression" "expression" 0 6
            [.ofNamed "identifier" "function" 0 1 [],
             .ofNamed "argument_list" "arguments" 1 6
              [.node ⟨"(", "", false, 1, 2⟩ [], .ofNamed "argument" "" 2 5 [argumentAccess],
               .node ⟨")", "", false, 5, 6⟩ []]],
           .node ⟨".", "", false, 6, 7⟩ [], .ofNamed "identifier" "name" 7 8 []],
         .node ⟨";", "", false, 8, 9⟩ []]]]

/-- The access `x.y` is found among the arguments of the call that `C` is taken of. -/
theorem argument_access_kept :
    let src := Source.ofText "F(x.y).C;"
    let b : Address := [0, 0, 0, 0, 1, 1, 0]
    let root := ofFile src callChain
    callChain.UnnamedAreTokens ∧ (b, argumentAccess) ∈ callChain.places ∧
      (root.reach? src b).map (·.position) = some .expression ∧
      (∀ p ∈ root.path src b, ¬ p.1.Hides p.2) ∧
      ∃ a e, (a, e) ∈ (Expression.ofFile src callChain).places ∧ root.origin src a = b ∧
        e.span = src.spanOf argumentAccess.label ∧ e.isAccess = true := by
  intro src b root
  have htokens : callChain.UnnamedAreTokens := by decide +kernel
  have hmem : (b, argumentAccess) ∈ callChain.places := by
    simp only [b, callChain, Tree.cons_mem_places, Tree.nil_mem_places]
    exact ⟨_, rfl, _, rfl, _, rfl, _, rfl, _, rfl, _, rfl, _, rfl, rfl⟩
  have hposition : (root.reach? src b).map (·.position) = some .expression := by decide +kernel
  have hclear : ∀ p ∈ root.path src b, ¬ p.1.Hides p.2 := by decide +kernel
  have hparts : accessParts? src "expression" argumentAccess.children ≠ none := by decide +kernel
  obtain ⟨a, e, hplace, horigin, hspan, hform⟩ :=
    access_kept src htokens hmem rfl (by rw [hposition]; decide) hclear
  refine ⟨htokens, hmem, hposition, hclear, a, e, hplace, horigin, hspan, ?_⟩
  rcases hform with haccess | ⟨-, hroot | hnone⟩
  · exact haccess
  · exact absurd hroot (List.cons_ne_nil _ _)
  · exact absurd hnone hparts

end Site

end Unqualify
