import Unqualify.Proofs.Scan.Preorder
import Unqualify.Tree
import Mathlib.Data.List.Nodup

/-!
# Places of nodes

A node of a tree is told from another one that looks the same by its address, the indices of the
children on the way down to it.  The nodes of a syntax tree and those of an expression are listed
with their addresses in document order, parents first (`Tree.places`, `Expression.places`).  No
address is listed twice (`Tree.nodup_places`), and without the addresses the nodes of an expression
are the ones that a scan goes through (`Expression.map_snd_places`).
-/

namespace Unqualify

/-- Where a node stands in a tree: the index of a child for every level, from the root down. -/
abbrev Address := List Nat

namespace Address

variable {α β : Type}

/-- What is listed of each of several trees, as listed of the tree that they are the children
of. -/
def below (lists : List (List (Address × α))) : List (Address × α) :=
  lists.zipIdx.flatMap fun (entries, index) => entries.map fun (a, x) => (index :: a, x)

theorem map_below (f : Address → α → β) (lists : List (List (Address × α))) :
    (below lists).map (fun p => f p.1 p.2) =
      lists.zipIdx.flatMap fun l => l.1.map fun p => f (l.2 :: p.1) p.2 := by
  simp only [below, List.map_flatMap, List.map_map, Function.comp_def]

theorem map_below_map {γ : Type} (f : Address → α → β) (entries : γ → List (Address × α))
    (xs : List γ) :
    (below (xs.map entries)).map (fun p => f p.1 p.2) =
      xs.zipIdx.flatMap fun x => (entries x.1).map fun p => f (x.2 :: p.1) p.2 := by
  rw [map_below, List.zipIdx_map, List.flatMap_map]
  rfl

theorem cons_mem_below {lists : List (List (Address × α))} {index : Nat} {a : Address} {x : α} :
    (index :: a, x) ∈ below lists ↔ ∃ entries, lists[index]? = some entries ∧ (a, x) ∈ entries := by
  simp only [below, List.mem_flatMap, List.mem_map, Prod.exists, List.mem_zipIdx_iff_getElem?]
  constructor
  · rintro ⟨entries, k, hentries, b, y, hmem, heq⟩
    cases heq
    exact ⟨entries, hentries, hmem⟩
  · rintro ⟨entries, hentries, hmem⟩
    exact ⟨entries, index, hentries, a, x, hmem, rfl⟩

theorem nil_not_mem_below {lists : List (List (Address × α))} {x : α} : ([], x) ∉ below lists := by
  simp [below]

theorem nodup_below {lists : List (List (Address × α))}
    (h : ∀ entries ∈ lists, (entries.map (·.1)).Nodup) : ((below lists).map (·.1)).Nodup := by
  rw [map_below fun a _ => a, List.nodup_flatMap]
  constructor
  · rintro ⟨entries, index⟩ hmem
    have hentries := h entries (List.mem_of_getElem? (List.mem_zipIdx_iff_getElem?.1 hmem))
    have hmap : entries.map (fun p => index :: p.1) = (entries.map (·.1)).map (index :: ·) := by
      rw [List.map_map, Function.comp_def]
    rw [hmap]
    exact hentries.map (List.cons_injective)
  · -- addresses below different children begin with different indices
    have hindices : lists.zipIdx.Pairwise fun l l' => l.2 < l'.2 := by
      have hrange : (lists.zipIdx.map (·.2)).Pairwise (· < ·) := by
        rw [List.zipIdx_map_snd]
        exact List.pairwise_lt_range'
      exact List.pairwise_map.1 hrange
    refine hindices.imp fun {l l'} hlt => ?_
    intro a ha ha'
    obtain ⟨p, -, rfl⟩ := List.mem_map.1 ha
    obtain ⟨p', -, heq⟩ := List.mem_map.1 ha'
    have hindex : l'.2 = l.2 := (List.cons.inj heq).1
    omega

end Address

/-! ### Syntax trees -/

namespace Tree

/-- Induction on syntax trees, with one hypothesis for each child of a node. -/
@[elab_as_elim]
theorem inductionOn {P : Tree → Prop} (t : Tree)
    (node : ∀ label children, (∀ child ∈ children, P child) → P (.node label children)) : P t :=
  match t with
  | .node label children => node label children fun child _ => inductionOn child node

mutual

/-- The nodes of a syntax tree with their addresses, in document order. -/
def places : Tree → List (Address × Tree)
  | node label children => ([], node label children) :: Address.below (placesAll children)

/-- The nodes of several trees, tree by tree. -/
def placesAll : List Tree → List (List (Address × Tree))
  | [] => []
  | t :: ts => t.places :: placesAll ts

end

theorem placesAll_eq_map (ts : List Tree) : placesAll ts = ts.map places := by
  induction ts with
  | nil => rfl
  | cons t ts ih => rw [placesAll, ih, List.map_cons]

theorem places_eq (t : Tree) : t.places = ([], t) :: Address.below (t.children.map places) := by
  cases t with
  | node label children => rw [places, placesAll_eq_map, Tree.children]

theorem nil_mem_places {t v : Tree} : ([], v) ∈ t.places ↔ v = t := by
  simp [places_eq t, Address.nil_not_mem_below]

theorem cons_mem_places {t v : Tree} {index : Nat} {a : Address} :
    (index :: a, v) ∈ t.places ↔ ∃ c, t.children[index]? = some c ∧ (a, v) ∈ c.places := by
  simp [places_eq t, Address.cons_mem_below]

/-- **No address is listed twice.** -/
theorem nodup_places (t : Tree) : (t.places.map (·.1)).Nodup := by
  induction t using Tree.inductionOn with
  | node label children ih =>
    rw [places_eq, List.map_cons, List.nodup_cons]
    constructor
    · intro hmem
      obtain ⟨⟨a, v⟩, hp, rfl⟩ := List.mem_map.1 hmem
      exact Address.nil_not_mem_below hp
    · refine Address.nodup_below fun entries hentries => ?_
      obtain ⟨c, hc, rfl⟩ := List.mem_map.1 hentries
      exact ih c hc

end Tree

/-! ### Expressions -/

namespace Expression

mutual

/-- The nodes of an expression with their addresses, in document order. -/
def places : Expression → List (Address × Expression)
  | identifier name => [([], identifier name)]
  | access left form => ([], access left form) :: Address.below [left.places]
  | aliased aliasName name span => [([], aliased aliasName name span)]
  | other children span => ([], other children span) :: Address.below (placesAll children)

/-- The nodes of several expressions, expression by expression. -/
def placesAll : List Expression → List (List (Address × Expression))
  | [] => []
  | e :: es => e.places :: placesAll es

end

theorem placesAll_eq_map (es : List Expression) : placesAll es = es.map places := by
  induction es with
  | nil => rfl
  | cons e es ih => rw [placesAll, ih, List.map_cons]

theorem places_eq (e : Expression) :
    e.places = ([], e) :: Address.below (e.children.map places) := by
  cases e with
  | identifier name => rfl
  | access left form => rfl
  | aliased aliasName name span => rfl
  | other children span => rw [places, placesAll_eq_map, Expression.children]

theorem nil_mem_places {e e' : Expression} : ([], e') ∈ e.places ↔ e' = e := by
  simp [places_eq e, Address.nil_not_mem_below]

theorem cons_mem_places {e e' : Expression} {index : Nat} {a : Address} :
    (index :: a, e') ∈ e.places ↔ ∃ c, e.children[index]? = some c ∧ (a, e') ∈ c.places := by
  simp [places_eq e, Address.cons_mem_below]

/-- **Without their addresses, the nodes are those of the document order.** -/
theorem map_snd_places (e : Expression) : e.places.map (·.2) = e.preorder := by
  induction e using Expression.inductionOn with
  | identifier name => rfl
  | aliased aliasName name span => rfl
  | access left form ih =>
    rw [places, List.map_cons, Address.map_below fun _ x => x, preorder_access, ← ih]
    simp
  | other children span ih =>
    have hchildren : (children.map places).flatMap (·.map (·.2)) = children.flatMap preorder := by
      rw [List.flatMap_map]
      exact List.flatMap_congr ih
    have hindices := congrArg (List.flatMap (·.map (·.2)))
      (List.zipIdx_map_fst 0 (children.map places))
    rw [List.flatMap_map] at hindices
    rw [places_eq, List.map_cons, Address.map_below fun _ x => x, preorder_other, ← hchildren,
      Expression.children, hindices]

end Expression

end Unqualify
