import Unqualify.Expression.OfTree

/-!
# Where expressions stand

A parser places the nodes of a tree on the text: every range lies inside the text on character
boundaries, children lie inside their parent, and siblings follow one another without overlap
(`Tree.Placed`).  The expressions made from such a tree are placed in the same way, and the last
name of every access is a non-empty part of it (`Expression.Placed`).

Every node that is kept keeps its range (`Expression.span_ofTree?`), so most of this is inherited
from the tree.  What has to be shown is that the parts of an access come from below it, whichever
of its children they are read from, and that a name that can be read is not empty.
-/

namespace Unqualify

/-- The range of a node is a part of the text. -/
structure Label.Placed (text : String) (l : Label) : Prop where
  /-- It does not end before it starts. -/
  ordered : l.start ≤ l.stop
  /-- It starts on a character boundary. -/
  start_boundary : Text.IsBoundary text l.start
  /-- It ends on a character boundary. -/
  stop_boundary : Text.IsBoundary text l.stop

/-- The nodes of a tree are placed on a text as a parser places them. -/
inductive Tree.Placed (text : String) : Tree → Prop
  /-- Children lie inside their parent, and each ends before the next one starts. -/
  | node {label : Label} {children : List Tree} (range : label.Placed text)
    (inside : ∀ t ∈ children, label.start ≤ t.label.start ∧ t.label.stop ≤ label.stop)
    (inOrder : children.Pairwise fun t u => t.label.stop ≤ u.label.start)
    (below : ∀ t ∈ children, t.Placed text) : Tree.Placed text (.node label children)

instance (text : String) (l : Label) : Decidable (l.Placed text) :=
  decidable_of_iff
    (l.start ≤ l.stop ∧ Text.IsBoundary text l.start ∧ Text.IsBoundary text l.stop)
    ⟨fun h => ⟨h.1, h.2.1, h.2.2⟩, fun h => ⟨h.ordered, h.start_boundary, h.stop_boundary⟩⟩

namespace Tree

variable {text : String}

theorem placed_node_iff {label : Label} {children : List Tree} :
    (node label children).Placed text ↔
      label.Placed text ∧
        (∀ t ∈ children, label.start ≤ t.label.start ∧ t.label.stop ≤ label.stop) ∧
        (children.Pairwise fun t u => t.label.stop ≤ u.label.start) ∧
        ∀ t ∈ children, t.Placed text := by
  constructor
  · rintro ⟨range, inside, inOrder, below⟩
    exact ⟨range, inside, inOrder, below⟩
  · rintro ⟨range, inside, inOrder, below⟩
    exact .node range inside inOrder below

mutual

/-- Check a tree from the root down. -/
def decidePlaced (text : String) : (tree : Tree) → Decidable (tree.Placed text)
  | .node _ children =>
    have := decidePlacedAll text children
    decidable_of_iff _ placed_node_iff.symm

/-- Check several trees. -/
def decidePlacedAll (text : String) :
    (trees : List Tree) → Decidable (∀ t ∈ trees, t.Placed text)
  | [] => .isTrue (by simp)
  | t :: ts =>
    have := decidePlaced text t
    have := decidePlacedAll text ts
    decidable_of_iff (t.Placed text ∧ ∀ u ∈ ts, u.Placed text) List.forall_mem_cons.symm

end

instance (tree : Tree) : Decidable (tree.Placed text) := decidePlaced text tree

theorem Placed.range {tree : Tree} (h : tree.Placed text) : tree.label.Placed text := by
  cases h with
  | node range _ _ _ => exact range

end Tree

/-- One span lies inside another. -/
def Span.Within (inner outer : Span) : Prop :=
  outer.start ≤ inner.start ∧ inner.stop ≤ outer.stop

theorem Span.Within.trans {a b c : Span} (hab : a.Within b) (hbc : b.Within c) : a.Within c :=
  ⟨Nat.le_trans hbc.1 hab.1, Nat.le_trans hab.2 hbc.2⟩

/-- The last name of an access is a non-empty part of it, and the text can be cut where the
access and where the name starts. -/
structure Access.Placed (text : String) (form : Access) : Prop where
  /-- The access starts on a character boundary. -/
  start_boundary : Text.IsBoundary text form.span.start
  /-- The name starts on a character boundary. -/
  name_boundary : Text.IsBoundary text form.name.span.start
  /-- The name is not empty. -/
  name_nonempty : form.name.span.start < form.name.span.stop
  /-- The name lies inside the access. -/
  name_within : form.name.span.Within form.span

/-- The nodes of an expression tree are placed on a text. -/
inductive Expression.Placed (text : String) : Expression → Prop
  | identifier (name : SimpleName) : Expression.Placed text (.identifier name)
  | aliased (aliasName name : SimpleName) (span : Span) :
    Expression.Placed text (.aliased aliasName name span)
  /-- The operand of an access lies inside it. -/
  | access {left : Expression} {form : Access} (range : form.Placed text)
    (inside : left.span.Within form.span) (below : left.Placed text) :
    Expression.Placed text (.access left form)
  /-- Children lie inside their parent, and each ends before the next one starts. -/
  | other {children : List Expression} {span : Span}
    (inside : ∀ e ∈ children, e.span.Within span)
    (inOrder : children.Pairwise fun e f => e.span.stop ≤ f.span.start)
    (below : ∀ e ∈ children, e.Placed text) : Expression.Placed text (.other children span)

theorem Label.Placed.stop_le {text : String} {l : Label} (h : l.Placed text) :
    l.stop ≤ text.utf8ByteSize :=
  h.stop_boundary.le_rawEndPos

/-- In a text whose offsets are all offsets, the span of a node ends where the node does. -/
theorem Source.stop_spanOf {src : Source} {l : Label} (hsize : src.text.utf8ByteSize ≤ maxOffset)
    (h : l.Placed src.text) : (src.spanOf l).stop = l.stop := by
  have hordered := h.ordered
  have hstop := h.stop_le
  simp only [spanOf, Span.stop]
  omega

/-- Nothing can be read from an empty range. -/
theorem Text.lt_of_slice_ne_empty {s : String} {start stop : Nat} (h : slice s start stop ≠ "") :
    start < stop := by
  rw [slice] at h
  cases ht : slice? s start stop with
  | none => simp [ht] at h
  | some t =>
    rw [ht, Option.getD_some] at h
    obtain ⟨u, v, -, rfl, rfl⟩ := slice?_eq_some_iff.1 ht
    have hpos : t.utf8ByteSize ≠ 0 := fun hzero => h (String.utf8ByteSize_eq_zero_iff.1 hzero)
    rw [String.utf8ByteSize_append]
    omega

namespace Expression

variable {src : Source}

/-! ### What the children of a node become -/

theorem exists_of_simpleName? {tree : Tree} {name : SimpleName}
    (h : simpleName? src tree = some name) :
    ∃ bare, bareName? src tree = some bare ∧ bare ≠ "" ∧ name.span = src.spanOf tree.label := by
  rw [simpleName?] at h
  split at h
  · cases h
  · next bare hbare =>
    split at h
    · cases h
    · next hne =>
      cases h
      exact ⟨bare, hbare, hne, rfl⟩

/-- Every kept node keeps its range. -/
theorem span_ofTree? {position : Position} {tree : Tree} {e : Expression}
    (h : ofTree? src position tree = some e) : e.span = src.spanOf tree.label := by
  obtain ⟨label, children⟩ := tree
  rw [ofTree?] at h
  split at h
  · cases h
  · obtain ⟨name, hname, rfl⟩ := Option.map_eq_some_iff.1 h
    obtain ⟨-, -, -, hspan⟩ := exists_of_simpleName? hname
    exact hspan
  · split at h <;> (cases h; rfl)
  · simp only [Option.bind_eq_bind, Option.bind_eq_some_iff] at h
    obtain ⟨aliasName, -, name, -, h⟩ := h
    cases h
    rfl
  · split at h <;> cases h
    rfl

theorem exists_of_mem_ofChildren {parent : String} {position : Position} {earlier : List String}
    {trees : List Tree} {e : Expression} (h : e ∈ ofChildren src parent position earlier trees) :
    ∃ t ∈ trees, ∃ inner, ofTree? src inner t = some e := by
  induction trees generalizing earlier with
  | nil => simp [ofChildren] at h
  | cons t ts ih =>
    have hrest : e ∈ ofChildren src parent position (t.label.field :: earlier) ts →
        ∃ u ∈ t :: ts, ∃ inner, ofTree? src inner u = some e := by
      intro hmem
      obtain ⟨u, hu, inner, hinner⟩ := ih hmem
      exact ⟨u, List.mem_cons_of_mem t hu, inner, hinner⟩
    simp only [ofChildren] at h
    split at h
    · split at h
      · next first hfirst =>
        rcases List.mem_cons.1 h with rfl | h
        · exact ⟨t, List.mem_cons_self, _, hfirst⟩
        · exact hrest h
      · exact hrest h
    · exact hrest h

theorem exists_of_ofFirst? {test : Label → Bool} {trees : List Tree} {e : Expression}
    (h : ofFirst? src test trees = some e) :
    ∃ t ∈ trees, ofTree? src .expression t = some e := by
  induction trees with
  | nil => simp [ofFirst?] at h
  | cons t ts ih =>
    rw [ofFirst?] at h
    split at h
    · exact ⟨t, List.mem_cons_self, h⟩
    · obtain ⟨u, hu, he⟩ := ih h
      exact ⟨u, List.mem_cons_of_mem t hu, he⟩

/-- The parts of an access are read from two of its children. -/
theorem exists_of_accessParts? {field : String} {children : List Tree} {leftLabel : Label}
    {name : SimpleName} (h : accessParts? src field children = some (leftLabel, name)) :
    (∃ t ∈ children, t.label = leftLabel) ∧ ∃ u ∈ children, simpleName? src u = some name := by
  simp only [accessParts?, Option.bind_eq_bind, Option.bind_eq_some_iff] at h
  obtain ⟨left, hleft, nameNode, hnode, name', hname, h⟩ := h
  split at h
  · cases h
  · cases h
    refine ⟨⟨left, List.mem_of_find?_eq_some hleft, rfl⟩, nameNode, ?_, hname⟩
    rcases Option.or_eq_some_iff.1 hnode with hfield | ⟨-, hlast⟩
    · exact List.mem_of_find?_eq_some hfield
    · exact (List.mem_filter.1 (List.mem_of_getLast? hlast)).1

/-! ### Placement is inherited -/

/-- A name that can be read is not empty: neither is the identifier in it. -/
theorem lt_of_simpleName? {tree : Tree} {name : SimpleName} (hplaced : tree.Placed src.text)
    (h : simpleName? src tree = some name) : tree.label.start < tree.label.stop := by
  obtain ⟨bare, hbare, hne, -⟩ := exists_of_simpleName? h
  cases hplaced with
  | @node label children range inside inOrder below =>
    rw [bareName?] at hbare
    split at hbare
    · cases hbare
      exact Text.lt_of_slice_ne_empty hne
    · -- a generic name is longer than the identifier in it
      obtain ⟨t, ht, rfl⟩ := Option.map_eq_some_iff.1 hbare
      have hlt := Text.lt_of_slice_ne_empty hne
      have hin := inside t (List.mem_of_find?_eq_some ht)
      simp only [Tree.label]
      omega
    · cases hbare

theorem pairwise_ofChildren {parent : String} {position : Position} {earlier : List String}
    {trees : List Tree} (hsize : src.text.utf8ByteSize ≤ maxOffset)
    (hplaced : ∀ t ∈ trees, t.Placed src.text)
    (h : trees.Pairwise fun t u => t.label.stop ≤ u.label.start) :
    (ofChildren src parent position earlier trees).Pairwise
      fun e f => e.span.stop ≤ f.span.start := by
  induction trees generalizing earlier with
  | nil => simp [ofChildren]
  | cons t ts ih =>
    obtain ⟨hfirst, hrest⟩ := List.pairwise_cons.1 h
    have ihrest := @ih (t.label.field :: earlier)
      (fun u hu => hplaced u (List.mem_cons_of_mem t hu)) hrest
    simp only [ofChildren]
    split
    · split
      · next e he =>
        refine List.pairwise_cons.2 ⟨fun f hf => ?_, ihrest⟩
        obtain ⟨u, hu, inner, hinner⟩ := exists_of_mem_ofChildren hf
        rw [span_ofTree? he, span_ofTree? hinner,
          Source.stop_spanOf hsize (hplaced t List.mem_cons_self).range]
        exact hfirst u hu
      · exact ihrest
    · exact ihrest

/-- The span of a child lies inside that of its parent. -/
theorem within_spanOf {label : Label} {children : List Tree} {t : Tree}
    (hsize : src.text.utf8ByteSize ≤ maxOffset)
    (h : (Tree.node label children).Placed src.text) (ht : t ∈ children) :
    (src.spanOf t.label).Within (src.spanOf label) := by
  cases h with
  | node range inside _ below =>
    refine ⟨(inside t ht).1, ?_⟩
    rw [Source.stop_spanOf hsize range, Source.stop_spanOf hsize (below t ht).range]
    exact (inside t ht).2

/-- A node that holds its children together is placed when they are. -/
theorem placed_other (hsize : src.text.utf8ByteSize ≤ maxOffset) {label : Label}
    {children : List Tree} (h : (Tree.node label children).Placed src.text)
    (hbelow : ∀ t ∈ children, ∀ position e, ofTree? src position t = some e → e.Placed src.text)
    (parent : String) (position : Position) (earlier : List String) :
    Expression.Placed src.text
      (.other (ofChildren src parent position earlier children) (src.spanOf label)) := by
  have hnode := h
  cases h with
  | node range inside inOrder below =>
    refine .other (fun e he => ?_) (pairwise_ofChildren hsize below inOrder) fun e he => ?_
    · obtain ⟨t, ht, inner, hinner⟩ := exists_of_mem_ofChildren he
      rw [span_ofTree? hinner]
      exact within_spanOf hsize hnode ht
    · obtain ⟨t, ht, inner, hinner⟩ := exists_of_mem_ofChildren he
      exact hbelow t ht inner e hinner

/-- **The expressions of a placed tree are placed.** -/
theorem placed_ofTree? (hsize : src.text.utf8ByteSize ≤ maxOffset) {tree : Tree}
    (h : tree.Placed src.text) {position : Position} {e : Expression}
    (he : ofTree? src position tree = some e) : e.Placed src.text := by
  induction h generalizing position e with
  | @node label children range inside inOrder below ih =>
    have hnode : (Tree.node label children).Placed src.text := .node range inside inOrder below
    have hother := placed_other hsize hnode (fun t ht _ _ => ih t ht) label.kind
    rw [ofTree?] at he
    split at he
    · cases he
    · obtain ⟨name, -, rfl⟩ := Option.map_eq_some_iff.1 he
      exact .identifier name
    · next field _ =>
      split at he
      · cases he
        exact hother .expression []
      · next leftLabel name hparts =>
        cases he
        obtain ⟨⟨t, ht, rfl⟩, u, hu, hname⟩ := exists_of_accessParts? hparts
        obtain ⟨-, -, -, hspan⟩ := exists_of_simpleName? hname
        have hrange : Access.Placed src.text
            { name, span := src.spanOf label, text := src.covered label } := by
          refine ⟨range.start_boundary, ?_, ?_, ?_⟩
          · rw [hspan]
            exact (below u hu).range.start_boundary
          · rw [hspan, Source.stop_spanOf hsize (below u hu).range]
            exact lt_of_simpleName? (below u hu) hname
          · rw [hspan]
            exact within_spanOf hsize hnode hu
        -- the operand is what its child becomes, or an empty node in its place
        cases hleft : ofFirst? src (isOperand field children) children with
        | none =>
          exact .access hrange (within_spanOf hsize hnode ht) (.other (by simp) .nil (by simp))
        | some left =>
          obtain ⟨v, hv, hv'⟩ := exists_of_ofFirst? hleft
          refine .access hrange ?_ (ih v hv hv')
          rw [Option.getD_some, span_ofTree? hv']
          exact within_spanOf hsize hnode hv
    · simp only [Option.bind_eq_bind, Option.bind_eq_some_iff] at he
      obtain ⟨aliasName, -, name, -, he⟩ := he
      cases he
      exact .aliased aliasName name _
    · have hkept := hother position []
      split at he
      · cases he
      · cases he
        exact hkept

theorem placed_ofFile (hsize : src.text.utf8ByteSize ≤ maxOffset) {tree : Tree}
    (h : tree.Placed src.text) : (ofFile src tree).Placed src.text := by
  obtain ⟨label, children⟩ := tree
  have hnode := h
  cases h with
  | node _ _ _ below =>
    exact placed_other hsize hnode (fun t ht _ _ => placed_ofTree? hsize (below t ht)) _ _ _

end Expression

end Unqualify
