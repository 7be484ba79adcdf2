import Unqualify.Tree

/-!
# Ranges of a syntax tree

The ranges of a tree's nodes lie in one another as the nodes do (`Tree.Nested`): children inside
their parent, and siblings one after the other.
-/

namespace Unqualify

namespace Extent

variable {a b c : Extent}

/-- One range lies inside another. -/
def Within (inner outer : Extent) : Prop :=
  outer.start ≤ inner.start ∧ inner.stop ≤ outer.stop

instance (inner outer : Extent) : Decidable (inner.Within outer) :=
  inferInstanceAs (Decidable (_ ∧ _))

theorem Within.refl (a : Extent) : a.Within a := ⟨Nat.le_refl _, Nat.le_refl _⟩

theorem Within.trans (hab : a.Within b) (hbc : b.Within c) : a.Within c :=
  ⟨Nat.le_trans hbc.1 hab.1, Nat.le_trans hab.2 hbc.2⟩

end Extent

namespace Tree

/-- A node that the grammar names. -/
def ofNamed (kind field : String) (start stop : Nat) (children : List Tree) : Tree :=
  .node { kind, field, named := true, start, stop } children

/-- One sibling stands before another: it starts first, and it ends before the other starts. -/
def Before (t u : Tree) : Prop :=
  t.label.start ≤ u.label.start ∧ t.label.stop ≤ u.label.start

instance (t u : Tree) : Decidable (t.Before u) :=
  inferInstanceAs (Decidable (_ ∧ _))

/-- Every node holds its children, and they come one after the other. -/
inductive Nested : Tree → Prop
  /-- A node whose children lie inside it in their order, with such nodes below. -/
  | node {label : Label} {children : List Tree}
    (inside : ∀ t ∈ children, t.label.extent.Within label.extent)
    (inOrder : children.Pairwise Before)
    (below : ∀ t ∈ children, t.Nested) : Nested (.node label children)

theorem nested_node_iff {label : Label} {children : List Tree} :
    (node label children).Nested ↔
      (∀ t ∈ children, t.label.extent.Within label.extent) ∧ children.Pairwise Before ∧
        ∀ t ∈ children, t.Nested := by
  constructor
  · rintro ⟨inside, inOrder, below⟩
    exact ⟨inside, inOrder, below⟩
  · rintro ⟨inside, inOrder, below⟩
    exact .node inside inOrder below

mutual

/-- Check a tree from the root down. -/
def decideNested : (t : Tree) → Decidable t.Nested
  | .node _ children =>
    have := decideAllNested children
    decidable_of_iff _ nested_node_iff.symm

/-- Check several trees. -/
def decideAllNested : (ts : List Tree) → Decidable (∀ t ∈ ts, t.Nested)
  | [] => .isTrue (by simp)
  | t :: ts =>
    have := decideNested t
    have := decideAllNested ts
    decidable_of_iff (t.Nested ∧ ∀ u ∈ ts, u.Nested) List.forall_mem_cons.symm

end

instance (t : Tree) : Decidable t.Nested := decideNested t

end Tree

end Unqualify
