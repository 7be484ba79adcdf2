import Unqualify.Proofs.Expression.Placed
import Unqualify.Proofs.Expression.Places
import Unqualify.Proofs.Tree
import Mathlib.Data.List.Flatten
import Mathlib.Data.List.Pairwise

/-!
# Where expressions come from

The walk down a syntax tree comes to a node in some position and makes an expression of it, or
nothing (`Site`).  The expressions below that one are made of children of the node: of those that
leave something, or of the left operand alone if the node is an access
(`Site.children_expression`).  So every node of an expression tree comes from a node of the syntax
tree, and its address there is read off step by step (`Site.origin`).

Nothing is invented, duplicated or moved on the way (`Site.origin_embeds`): nodes of the expression
tree in document order come from nodes of the syntax tree in document order, children come from
children, and each has the range, the text and the name of the node that it comes from
(`Expression.Mirrors`).
-/

namespace Unqualify

namespace Expression

variable (src : Source)

/-! ### What a node is read as -/

/-- A simple name is what is read from a node: an identifier, or a generic name, of which the
identifier counts and the type arguments do not. -/
inductive ReadFrom : Tree → SimpleName → Prop
  /-- The node is the identifier. -/
  | identifier {t : Tree} (kind : t.label.kind = "identifier")
    (nonempty : src.covered t.label ≠ "") :
    ReadFrom t ⟨src.covered t.label, src.spanOf t.label, src.covered t.label⟩
  /-- The identifier is a child of the node, apart from the type arguments. -/
  | generic {t i : Tree} (kind : t.label.kind = "generic_name") (mem : i ∈ t.children)
    (identifierKind : i.label.kind = "identifier") (nonempty : src.covered i.label ≠ "")
    (apart : t.children.Pairwise Tree.Before →
      ∀ w ∈ t.children, w.label.kind = "type_argument_list" → i.Before w ∨ w.Before i) :
    ReadFrom t ⟨src.covered i.label, src.spanOf t.label, src.covered t.label⟩

/-- An expression shows the node that it comes from: its kind fits, its range and its text are
those of the node, and its names are read from children of the node. -/
def Mirrors (t : Tree) : Expression → Prop
  | identifier name => t.label.kind = "identifier" ∧ ReadFrom src t name
  | access _ form =>
    (t.label.kind = "member_access_expression" ∨ t.label.kind = "qualified_name") ∧
      form.span = src.spanOf t.label ∧ form.text = src.covered t.label ∧
      ∃ u ∈ t.children, ReadFrom src u form.name
  | aliased aliasName name span =>
    t.label.kind = "alias_qualified_name" ∧ span = src.spanOf t.label ∧
      (∃ u ∈ t.children, ReadFrom src u aliasName) ∧ ∃ u ∈ t.children, ReadFrom src u name
  | other _ span => span = src.spanOf t.label

variable {src}

theorem readFrom_of_simpleName? {t : Tree} {name : SimpleName}
    (h : simpleName? src t = some name) : ReadFrom src t name := by
  obtain ⟨label, children⟩ := t
  rw [simpleName?] at h
  split at h
  · cases h
  · next bare hbare =>
    split_ifs at h with hne
    cases h
    rw [bareName?] at hbare
    split at hbare
    · next hkind =>
      cases hbare
      exact .identifier hkind hne
    · next hkind =>
      obtain ⟨i, hi, rfl⟩ := Option.map_eq_some_iff.1 hbare
      have hmem : i ∈ children := List.mem_of_find?_eq_some hi
      have hnamed := List.find?_some hi
      simp only [Bool.and_eq_true, beq_iff_eq] at hnamed
      refine .generic hkind hmem hnamed.2 hne fun hbefore w hw hwkind => ?_
      -- siblings come one after the other, and the two are not the same
      have : Std.Symm fun t u : Tree => t.Before u ∨ u.Before t := ⟨fun _ _ => Or.symm⟩
      have hapart : children.Pairwise fun t u => t.Before u ∨ u.Before t := hbefore.imp Or.inl
      refine hapart.forall hmem hw ?_
      rintro rfl
      rw [hnamed.2] at hwkind
      exact absurd hwkind (by decide)
    · cases hbare

theorem formOf_eq_dropped {position : Position} {kind : String}
    (h : formOf position kind = .dropped) :
    kind = "comment" ∨ kind = "using_directive" ∨
      (kind = "member_access_expression" ∧ position = .type) := by
  unfold formOf at h
  split at h <;> simp_all

theorem formOf_eq_name {position : Position} {kind : String} (h : formOf position kind = .name) :
    kind = "identifier" := by
  unfold formOf at h
  split at h <;> simp_all

theorem formOf_eq_access {position : Position} {kind field : String}
    (h : formOf position kind = .access field) :
    position = .expression ∧ (kind = "member_access_expression" ∨ kind = "qualified_name") := by
  unfold formOf at h
  split at h <;> simp_all

theorem formOf_eq_aliased {position : Position} {kind : String}
    (h : formOf position kind = .aliased) :
    kind = "alias_qualified_name" ∧ position = .expression := by
  unfold formOf at h
  split at h <;> simp_all

/-- An access that cannot be taken apart is kept for what is below it. -/
theorem ofTree?_of_accessParts?_none {position : Position} {label : Label} {ts : List Tree}
    {field : String} (hform : formOf position label.kind = .access field)
    (hparts : accessParts? src field ts = none) :
    ofTree? src position (.node label ts) =
      some (.other (ofChildren src label.kind .expression [] ts) (src.spanOf label)) := by
  simp only [ofTree?, hform, hparts]

/-- Nothing becomes of a node below which nothing is found. -/
theorem ofTree?_of_nil {position : Position} {label : Label} {ts : List Tree}
    (hform : formOf position label.kind = .other)
    (hes : ofChildren src label.kind position [] ts = []) :
    ofTree? src position (.node label ts) = none := by
  simp only [ofTree?, hform, hes]

/-- A node holds together what is found below it. -/
theorem ofTree?_of_cons {position : Position} {label : Label} {ts : List Tree} {e : Expression}
    {es : List Expression} (hform : formOf position label.kind = .other)
    (hes : ofChildren src label.kind position [] ts = e :: es) :
    ofTree? src position (.node label ts) = some (.other (e :: es) (src.spanOf label)) := by
  simp only [ofTree?, hform, hes]

theorem ofFirst?_eq (test : Label → Bool) (ts : List Tree) :
    ofFirst? src test ts = (ts.find? fun t => test t.label).bind (ofTree? src .expression) := by
  induction ts with
  | nil => rfl
  | cons t ts ih =>
    rw [ofFirst?, List.find?_cons]
    cases test t.label with
    | true => rfl
    | false => exact ih

end Expression

open Expression

/-- A node of a syntax tree as the walk comes to it. -/
structure Site where
  /-- The node. -/
  tree : Tree
  /-- The position that it stands in. -/
  position : Position
  /-- What becomes of it. -/
  kept : Option Expression

namespace Site

variable (src : Source)

/-- A node that the walk comes to in a position. -/
def of (position : Position) (tree : Tree) : Site :=
  { tree, position, kept := ofTree? src position tree }

/-- The root of a file, which is always kept as a node that holds others together. -/
def ofFile (tree : Tree) : Site :=
  { tree, position := .expression, kept := some (Expression.ofFile src tree) }

/-- What stands for the node.  An operand that nothing becomes of still stands for itself. -/
def expression (s : Site) : Expression := s.kept.getD (.other [] (src.spanOf s.tree.label))

/-- Whether the node is kept below a node that holds others together. -/
def isKept (s : Site) : Bool := s.tree.label.named && s.kept.isSome

/-- The children of a node of kind `parent` in a position.  `earlier` lists the fields of the
children before them. -/
def sitesFrom (parent : String) (position : Position) (earlier : List String) :
    List Tree → List Site
  | [] => []
  | t :: ts =>
    of src (childPosition parent position earlier t.label) t ::
      sitesFrom parent position (t.label.field :: earlier) ts

/-- The children of the node.  What is below an access is looked at as an expression. -/
def children (s : Site) : List Site :=
  match s.kept with
  | some (.access ..) => s.tree.children.map (of src .expression)
  | _ => sitesFrom src s.tree.label.kind s.position [] s.tree.children

/-- The index of the left operand of an access. -/
def operand? (s : Site) : Option Nat :=
  match formOf s.position s.tree.label.kind with
  | .access field => s.tree.children.findIdx? fun t => isOperand field s.tree.children t.label
  | _ => none

/-- The children that the expressions below the node's own one are made of, with their indices. -/
def sources (s : Site) : List (Site × Nat) :=
  match s.kept with
  | some (.access ..) => (s.operand?.bind fun k => ((s.children src)[k]?).map (·, k)).toList
  | some (.other ..) => (s.children src).zipIdx.filter (·.1.isKept)
  | _ => []

/-- The address of the node that a node of the expression comes from. -/
def origin (s : Site) : Address → Address
  | [] => []
  | i :: a =>
    match (s.sources src)[i]? with
    | some (child, k) => k :: child.origin a
    | none => []

/-- The walk comes to the node: it is the root of a file, or stands in some position. -/
inductive Regular : Site → Prop
  | ofFile (tree : Tree) : Regular (ofFile src tree)
  | of (position : Position) (tree : Tree) : Regular (of src position tree)

variable {src}

/-! ### The children of a node -/

theorem map_tree_sitesFrom (parent : String) (position : Position) (earlier : List String)
    (ts : List Tree) : (sitesFrom src parent position earlier ts).map (·.tree) = ts := by
  induction ts generalizing earlier with
  | nil => rfl
  | cons t ts ih => rw [sitesFrom, List.map_cons, ih, of]

theorem eq_of_of_mem_sitesFrom {parent : String} {position : Position} {earlier : List String}
    {ts : List Tree} {c : Site} (h : c ∈ sitesFrom src parent position earlier ts) :
    c = of src c.position c.tree := by
  induction ts generalizing earlier with
  | nil => cases h
  | cons t ts ih =>
    rcases List.mem_cons.1 h with rfl | h
    · rfl
    · exact ih h

variable (src) in
theorem map_tree_children (s : Site) : (s.children src).map (·.tree) = s.tree.children := by
  unfold children
  split
  · rw [List.map_map]
    exact List.map_id _
  · exact map_tree_sitesFrom _ _ _ _

theorem eq_of_of_mem_children {s c : Site} (h : c ∈ s.children src) :
    c = of src c.position c.tree := by
  unfold children at h
  split at h
  · obtain ⟨t, -, rfl⟩ := List.mem_map.1 h
    rfl
  · exact eq_of_of_mem_sitesFrom h

theorem regular_of_mem_children {s c : Site} (h : c ∈ s.children src) : c.Regular src := by
  rw [eq_of_of_mem_children h]
  exact .of c.position c.tree

theorem tree_of_getElem?_children {s c : Site} {k : Nat} (h : (s.children src)[k]? = some c) :
    s.tree.children[k]? = some c.tree := by
  rw [← map_tree_children src, List.getElem?_map, h, Option.map_some]

/-- The children of a node keep their order in its expression. -/
theorem sources_sublist (s : Site) : (s.sources src).Sublist (s.children src).zipIdx := by
  unfold sources
  split
  · cases hk : s.operand?.bind fun k => ((s.children src)[k]?).map (·, k) with
    | none => exact List.nil_sublist _
    | some source =>
      obtain ⟨k, -, hsource⟩ := Option.bind_eq_some_iff.1 hk
      obtain ⟨c, hc, rfl⟩ := Option.map_eq_some_iff.1 hsource
      exact List.singleton_sublist.2 (List.mem_zipIdx_iff_getElem?.2 hc)
  · exact List.filter_sublist
  · exact List.nil_sublist _

theorem sources_of_access {s c : Site} {left : Expression} {form : Access} {k : Nat}
    (hkept : s.kept = some (.access left form)) (hk : s.operand? = some k)
    (hc : (s.children src)[k]? = some c) : s.sources src = [(c, k)] := by
  simp only [sources, hkept, hk, Option.bind_some, hc, Option.map_some, Option.toList_some]

theorem sources_of_other {s : Site} {es : List Expression} {span : Span}
    (hkept : s.kept = some (.other es span)) :
    s.sources src = (s.children src).zipIdx.filter fun c => c.1.isKept := by
  simp only [sources, hkept]

theorem mem_children_of_mem_sources {s c : Site} {k : Nat} (h : (c, k) ∈ s.sources src) :
    (s.children src)[k]? = some c :=
  List.mem_zipIdx_iff_getElem?.1 (s.sources_sublist.mem h)

/-! ### What a node is made into -/

theorem ofChildren_eq (parent : String) (position : Position) (earlier : List String)
    (ts : List Tree) :
    ofChildren src parent position earlier ts =
      ((sitesFrom src parent position earlier ts).filter isKept).map (·.expression src) := by
  induction ts generalizing earlier with
  | nil => rfl
  | cons t ts ih =>
    rw [ofChildren, sitesFrom, List.filter_cons, ih]
    cases hnamed : t.label.named with
    | false => simp [isKept, of, hnamed]
    | true =>
      cases hkept : ofTree? src (childPosition parent position earlier t.label) t with
      | none => simp [isKept, of, hnamed, hkept]
      | some e => simp [isKept, of, hnamed, hkept, expression]

/-- Of the children of a node that holds others together, those are made into something that are
kept. -/
theorem map_expression_sources {s : Site} {es : List Expression} {span : Span}
    (h : s.kept = some (.other es span)) :
    (s.sources src).map (fun c => c.1.expression src) =
      ofChildren src s.tree.label.kind s.position [] s.tree.children := by
  have hfilter := List.filter_map (f := Prod.fst) (p := isKept) (l := (s.children src).zipIdx)
  rw [List.zipIdx_map_fst] at hfilter
  have hsources : s.sources src = (s.children src).zipIdx.filter (isKept ∘ Prod.fst) :=
    sources_of_other h
  have hchildren : s.children src =
      sitesFrom src s.tree.label.kind s.position [] s.tree.children := by
    simp only [children, h]
  rw [ofChildren_eq, ← hchildren, hfilter, hsources, List.map_map]
  rfl

theorem expression_of_kept {s : Site} {e : Expression} (h : s.kept = some e) :
    s.expression src = e := by
  rw [expression, h, Option.getD_some]

/-- The operand of an access is the expression of the child that stands at its index. -/
theorem exists_operand {position : Position} {label : Label} {ts : List Tree} {field : String}
    {leftLabel : Label} {name : SimpleName} (hform : formOf position label.kind = .access field)
    (hparts : accessParts? src field ts = some (leftLabel, name)) :
    ∃ k t, (of src position (.node label ts)).operand? = some k ∧ ts[k]? = some t ∧
      ofTree? src position (.node label ts) =
        some (.access ((of src .expression t).expression src)
          { name, span := src.spanOf label, text := src.covered label }) := by
  have hleft := hparts
  simp only [accessParts?, Option.bind_eq_bind, Option.bind_eq_some_iff] at hleft
  obtain ⟨left, hleft, nameNode, -, name', -, h⟩ := hleft
  split_ifs at h
  cases h
  have hfind := hleft
  rw [List.find?_eq_bind_findIdx?_getElem?] at hfind
  obtain ⟨k, hk, hleftk⟩ := Option.bind_eq_some_iff.1 hfind
  refine ⟨k, left, ?_, hleftk, ?_⟩
  · simp only [operand?, of, Tree.label, Tree.children, hform]
    exact hk
  · simp only [ofTree?, hform, hparts, ofFirst?_eq, hleft, Option.bind_some]
    rfl

theorem children_expression_of (position : Position) (tree : Tree) :
    ((of src position tree).expression src).children =
      ((of src position tree).sources src).map fun c => c.1.expression src := by
  obtain ⟨label, ts⟩ := tree
  cases hform : formOf position label.kind with
  | dropped =>
    have hkept : ofTree? src position (.node label ts) = none := by rw [ofTree?, hform]
    simp [expression, sources, of, hkept, Expression.children]
  | name =>
    have hkept : ofTree? src position (.node label ts) =
        (simpleName? src (.node label ts)).map .identifier := by rw [ofTree?, hform]
    cases hname : simpleName? src (.node label ts) <;>
      simp [expression, sources, of, hkept, hname, Expression.children]
  | access field =>
    cases hparts : accessParts? src field ts with
    | none =>
      have hkept := ofTree?_of_accessParts?_none hform hparts
      obtain ⟨rfl, -⟩ := formOf_eq_access hform
      rw [expression_of_kept hkept, map_expression_sources hkept]
      rfl
    | some parts =>
      obtain ⟨k, t, hk, ht, hkept⟩ := exists_operand hform hparts
      have hchild : ((of src position (.node label ts)).children src)[k]? =
          some (of src .expression t) := by
        simp [children, of, hkept, Tree.children, ht]
      rw [expression_of_kept hkept, sources_of_access hkept hk hchild]
      rfl
  | aliased =>
    have hkept : ofTree? src position (.node label ts) =
        (do
          let aliasName ← (Tree.field? "alias" ts).bind (simpleName? src)
          let name ← (Tree.field? "name" ts).bind (simpleName? src)
          some (.aliased aliasName name (src.spanOf label))) := by rw [ofTree?, hform]
    cases halias : (Tree.field? "alias" ts).bind (simpleName? src) <;>
      cases hname : (Tree.field? "name" ts).bind (simpleName? src) <;>
        simp [expression, sources, of, hkept, halias, hname, Expression.children]
  | other =>
    cases hes : ofChildren src label.kind position [] ts with
    | nil =>
      have hkept := ofTree?_of_nil hform hes
      simp [expression, sources, of, hkept, Expression.children]
    | cons e es =>
      have hkept := ofTree?_of_cons hform hes
      rw [expression_of_kept hkept, map_expression_sources hkept, Expression.children, ← hes]
      rfl

/-- **The expressions below that of a node are made of children of the node**, in their order. -/
theorem children_expression {s : Site} (h : s.Regular src) :
    (s.expression src).children = (s.sources src).map fun c => c.1.expression src := by
  cases h with
  | of position tree => exact children_expression_of position tree
  | ofFile tree =>
    have hkept : (ofFile src tree).kept = some (Expression.ofFile src tree) := rfl
    rw [expression_of_kept hkept, map_expression_sources hkept]
    rfl

/-! ### From the expression back to the tree -/

/-- A child of an expression comes from a child of the node that the expression comes from. -/
theorem exists_source {s : Site} (h : s.Regular src) {i : Nat} {e : Expression}
    (he : (s.expression src).children[i]? = some e) :
    ∃ c k, c.Regular src ∧ (s.children src)[k]? = some c ∧ c.expression src = e ∧
      ∀ a, s.origin src (i :: a) = k :: c.origin src a := by
  rw [children_expression h, List.getElem?_map, Option.map_eq_some_iff] at he
  obtain ⟨⟨c, k⟩, hsource, rfl⟩ := he
  have hc : (s.children src)[k]? = some c :=
    mem_children_of_mem_sources (List.mem_of_getElem? hsource)
  refine ⟨c, k, regular_of_mem_children (List.mem_of_getElem? hc), hc, rfl, fun a => ?_⟩
  rw [origin, hsource]

/-- Children come from children. -/
theorem origin_child {s : Site} (h : s.Regular src) {a : Address} {i : Nat} {e : Expression}
    (he : (a ++ [i], e) ∈ (s.expression src).places) :
    ∃ k, s.origin src (a ++ [i]) = s.origin src a ++ [k] := by
  induction a generalizing s with
  | nil =>
    obtain ⟨child, hchild, -⟩ := Expression.cons_mem_places.1 he
    obtain ⟨c, k, -, -, -, horigin⟩ := exists_source h hchild
    exact ⟨k, horigin []⟩
  | cons j a ih =>
    obtain ⟨child, hchild, hbelow⟩ := Expression.cons_mem_places.1 he
    obtain ⟨c, k, hc, -, rfl, horigin⟩ := exists_source h hchild
    obtain ⟨k', hk'⟩ := ih hc hbelow
    exact ⟨k', by rw [List.cons_append, horigin, horigin, hk', List.cons_append]⟩

theorem mirrors_of_ofTree? {position : Position} {tree : Tree} {e : Expression}
    (h : ofTree? src position tree = some e) : Mirrors src tree e := by
  obtain ⟨label, ts⟩ := tree
  have hfield {field : String} {name : SimpleName}
      (hname : (Tree.field? field ts).bind (simpleName? src) = some name) :
      ∃ u ∈ ts, ReadFrom src u name := by
    obtain ⟨u, hu, hread⟩ := Option.bind_eq_some_iff.1 hname
    exact ⟨u, List.mem_of_find?_eq_some hu, readFrom_of_simpleName? hread⟩
  rw [ofTree?] at h
  split at h
  · cases h
  · next hform =>
    obtain ⟨name, hname, rfl⟩ := Option.map_eq_some_iff.1 h
    exact ⟨formOf_eq_name hform, readFrom_of_simpleName? hname⟩
  · next field hform =>
    split at h
    · cases h
      rfl
    · next parts leftLabel name hparts =>
      cases h
      obtain ⟨-, u, hu, hname⟩ := exists_of_accessParts? hparts
      exact ⟨(formOf_eq_access hform).2, rfl, rfl, u, hu, readFrom_of_simpleName? hname⟩
  · next hform =>
    simp only [Option.bind_eq_bind, Option.bind_eq_some_iff] at h
    obtain ⟨aliasName, halias, name, hname, h⟩ := h
    cases h
    exact ⟨(formOf_eq_aliased hform).1, rfl, hfield (Option.bind_eq_some_iff.2 halias),
      hfield (Option.bind_eq_some_iff.2 hname)⟩
  · split at h <;> cases h
    rfl

theorem mirrors_expression {s : Site} (h : s.Regular src) :
    Mirrors src s.tree (s.expression src) := by
  cases h with
  | ofFile tree => rfl
  | of position tree =>
    cases hkept : ofTree? src position tree with
    | none =>
      rw [expression, of, hkept]
      rfl
    | some e =>
      rw [expression_of_kept hkept]
      exact mirrors_of_ofTree? hkept

/-- Every node of an expression shows the node that it comes from. -/
theorem exists_mirrored {s : Site} (h : s.Regular src) {a : Address} {e : Expression}
    (he : (a, e) ∈ (s.expression src).places) :
    ∃ t, (s.origin src a, t) ∈ s.tree.places ∧ Mirrors src t e := by
  induction a generalizing s with
  | nil =>
    rw [Expression.nil_mem_places.1 he]
    exact ⟨s.tree, Tree.nil_mem_places.2 rfl, mirrors_expression h⟩
  | cons i a ih =>
    obtain ⟨child, hchild, hbelow⟩ := Expression.cons_mem_places.1 he
    obtain ⟨c, k, hc, hck, rfl, horigin⟩ := exists_source h hchild
    obtain ⟨t, ht, hmirrors⟩ := ih hc hbelow
    refine ⟨t, ?_, hmirrors⟩
    rw [horigin]
    exact Tree.cons_mem_places.2 ⟨c.tree, tree_of_getElem?_children hck, ht⟩

/-- The nodes below an expression come from below the sources of its own node. -/
theorem map_origin_below {s : Site} (h : s.Regular src) :
    (Address.below ((s.expression src).children.map places)).map (fun p => s.origin src p.1) =
      (s.sources src).flatMap fun c =>
        (c.1.expression src).places.map fun p => c.2 :: c.1.origin src p.1 := by
  rw [children_expression h, List.map_map, Address.map_below_map fun a _ => s.origin src a]
  have horigin : ∀ x ∈ (s.sources src).zipIdx,
      ((x.1.1.expression src).places.map fun p => s.origin src (x.2 :: p.1)) =
        (x.1.1.expression src).places.map fun p => x.1.2 :: x.1.1.origin src p.1 := by
    rintro ⟨⟨c, k⟩, i⟩ hmem
    simp only [origin, List.mem_zipIdx_iff_getElem?.1 hmem]
  have hindices := congrArg (List.flatMap fun c : Site × Nat =>
    (c.1.expression src).places.map fun p => c.2 :: c.1.origin src p.1)
      (List.zipIdx_map_fst 0 (s.sources src))
  rw [List.flatMap_map] at hindices
  rw [← hindices]
  exact List.flatMap_congr horigin

/-- **Document order is kept**: what the nodes of an expression come from, in their order, is a
selection of the nodes of the tree, in theirs. -/
theorem map_origin_sublist {s : Site} (h : s.Regular src) :
    ((s.expression src).places.map fun p => s.origin src p.1).Sublist
      (s.tree.places.map (·.1)) := by
  induction htree : s.tree using Tree.inductionOn generalizing s with
  | node label ts ih =>
    rw [← htree, Tree.places_eq, Expression.places_eq, List.map_cons, List.map_cons,
      map_origin_below h, ← map_tree_children src, List.map_map,
      Address.map_below_map fun a _ => a]
    have hbelow : ∀ c ∈ (s.children src).zipIdx,
        ((c.1.expression src).places.map fun p => c.2 :: c.1.origin src p.1).Sublist
          (c.1.tree.places.map fun p => c.2 :: p.1) := by
      rintro ⟨c, k⟩ hmem
      have hck := List.mem_zipIdx_iff_getElem?.1 hmem
      have hmem : c.tree ∈ ts := by
        have hchild := tree_of_getElem?_children hck
        rw [htree] at hchild
        exact List.mem_of_getElem? hchild
      have hc := ih c.tree hmem (regular_of_mem_children (List.mem_of_getElem? hck)) rfl
      simpa only [List.map_map, Function.comp_def] using hc.map (k :: ·)
    exact ((s.sources_sublist.flatMap _).trans (List.Sublist.flatMap_right _ hbelow)).cons_cons []

end Site

/-- Every node of an expression comes from a node of a syntax tree. -/
structure Expression.Embeds (src : Source) (e : Expression) (tree : Tree)
    (origin : Address → Address) : Prop where
  /-- The root comes from the root. -/
  root : origin [] = []
  /-- No two nodes come from the same one. -/
  injective : ∀ p ∈ e.places, ∀ q ∈ e.places, origin p.1 = origin q.1 → p = q
  /-- Nodes in document order come from nodes in document order. -/
  inOrder : (e.places.map fun p => origin p.1).Sublist (tree.places.map (·.1))
  /-- A child comes from a child of what its parent comes from. -/
  child : ∀ a i c, (a ++ [i], c) ∈ e.places → ∃ k, origin (a ++ [i]) = origin a ++ [k]
  /-- Each node shows the one that it comes from. -/
  mirrors : ∀ a c, (a, c) ∈ e.places → ∃ t, (origin a, t) ∈ tree.places ∧ Mirrors src t c

namespace Site

/-- **Nothing is invented, duplicated or moved**: the nodes of the expression tree of a file, in the
order in which a scan goes through them, come from nodes of the syntax tree, each from its own, in
the same order and with the same nesting. -/
theorem origin_embeds (src : Source) (tree : Tree) :
    (Expression.ofFile src tree).places.map (·.2) = (Expression.ofFile src tree).preorder ∧
      (Expression.ofFile src tree).Embeds src tree ((ofFile src tree).origin src) := by
  have hregular : (ofFile src tree).Regular src := .ofFile tree
  have hinOrder := map_origin_sublist hregular
  have hnodup := tree.nodup_places.sublist hinOrder
  refine ⟨Expression.map_snd_places _, ?_⟩
  exact {
    root := by rw [origin]
    injective := fun p hp q hq heq => List.inj_on_of_nodup_map hnodup hp hq heq
    inOrder := hinOrder
    child := fun a i c hc => origin_child hregular hc
    mirrors := fun a c hc => exists_mirrored hregular hc }

end Site

end Unqualify
