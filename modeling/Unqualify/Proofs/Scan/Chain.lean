import Unqualify.Proofs.Scan.Report
import Unqualify.Proofs.SymbolTable.Build

/-!
# Chains of accesses

A chain is an access, its left operand, the left operand of that, and so on
(`Expression.spine`), down to a base that is no access (`Expression.base`).  The accesses of a tree
fall into chains that cannot be extended to the right (`Expression.chains`,
`Expression.filter_isAccess_preorder`), and a scan goes through them one after the other
(`Scanner.findingsOf_eq_flatMap_chains`).

Namespaces and types directly in a namespace are members of namespaces only.  So left of an access
that denotes such a type there are only namespaces (`Scanner.filter_spine_of_nameSpace`), and
nothing right of a type or of a member denotes such a type (`Scanner.filter_spine_of_base`).  Hence
`Scanner.chain_reported_at_most_once`.
-/

namespace Unqualify

namespace Expression

/-- Whether the node is a member access. -/
def isAccess : Expression → Bool
  | access .. => true
  | _ => false

/-- The accesses of a chain, outermost first: the expression, its left operand and so on, as long
as these are accesses. -/
def spine : Expression → List Expression
  | access left form => access left form :: left.spine
  | _ => []

/-- What stands left of all accesses of a chain. -/
def base : Expression → Expression
  | access left _ => left.base
  | e => e

mutual

/-- The outermost accesses of the chains in an expression, in document order.  An expression that
is an operand continues the chain it stands in, and begins none. -/
def chainsFrom (isOperand : Bool) : Expression → List Expression
  | access left form =>
    if isOperand then chainsFrom true left else access left form :: chainsFrom true left
  | other children _ => chainsFromAll children
  | identifier _ => []
  | aliased .. => []

/-- The outermost accesses of the chains in several expressions, none of them an operand. -/
def chainsFromAll : List Expression → List Expression
  | [] => []
  | e :: es => chainsFrom false e ++ chainsFromAll es

end

/-- The outermost accesses of the chains in an expression, in document order. -/
def chains (e : Expression) : List Expression := e.chainsFrom false

theorem chainsFromAll_eq_flatMap (es : List Expression) : chainsFromAll es = es.flatMap chains := by
  induction es with
  | nil => rfl
  | cons e es ih => rw [chainsFromAll, ih, List.flatMap_cons, chains]

theorem filter_isAccess_preorder_from (isOperand : Bool) (e : Expression) :
    e.preorder.filter isAccess =
      (if isOperand then e.spine else []) ++ (e.chainsFrom isOperand).flatMap spine := by
  induction e using Expression.inductionOn generalizing isOperand with
  | identifier name => cases isOperand <;> rfl
  | aliased aliasName name span => cases isOperand <;> rfl
  | other children span ih =>
    have hspine : (if isOperand then (other children span).spine else []) = [] := by
      cases isOperand <;> rfl
    rw [hspine, List.nil_append, chainsFrom, chainsFromAll_eq_flatMap, List.flatMap_assoc,
      preorder_other, List.filter_cons_of_neg (by simp [isAccess]), List.filter_flatMap]
    exact List.flatMap_congr fun child hchild => ih child hchild false
  | access left form ih =>
    -- the left operand is filtered to the rest of the chain and the chains inside its base
    rw [preorder_access, List.filter_cons_of_pos rfl, ih true]
    cases isOperand <;> simp [chainsFrom, spine]

/-- **The accesses of a tree are those of its chains**, chain by chain. -/
theorem filter_isAccess_preorder (e : Expression) :
    e.preorder.filter isAccess = e.chains.flatMap spine :=
  filter_isAccess_preorder_from false e

end Expression

namespace Scanner

variable {s : Scanner} {m : Model}

/-! ### What the accesses of a chain denote -/

/-- A chain that does not begin in a namespace never comes to one. -/
theorem entityOf?_ne_nameSpace_of_base (hwf : m.table.WellFormed) {e : Expression}
    (hbase : ∀ space, m.entityOf? e.base ≠ some (.nameSpace space)) (space : String) :
    m.entityOf? e ≠ some (.nameSpace space) := by
  induction e using Expression.inductionOn generalizing space with
  | identifier name => exact hbase space
  | aliased aliasName name span => exact hbase space
  | other children span _ => exact hbase space
  | access left form ih =>
    intro h
    obtain ⟨inner, hleft⟩ := entityOf?_left hwf h (Or.inl ⟨space, rfl⟩)
    exact ih hbase inner hleft

/-- A chain that does not begin in a namespace has no access that denotes a top-level type. -/
theorem filter_spine_of_base (hwf : m.table.WellFormed) {e : Expression}
    (hbase : ∀ space, m.entityOf? e.base ≠ some (.nameSpace space)) :
    e.spine.filter (fun a => (m.resolve a).isNamespacedType) = [] := by
  induction e using Expression.inductionOn with
  | identifier name => rfl
  | aliased aliasName name span => rfl
  | other children span _ => rfl
  | access left form ih =>
    rw [Expression.spine, List.filter_cons_of_neg, ih hbase]
    intro hsymbol
    obtain ⟨entity, hentity, htop⟩ := isTopLevel_of_resolve hwf hsymbol
    obtain ⟨space, hleft⟩ := entityOf?_left hwf hentity (Or.inr htop)
    exact entityOf?_ne_nameSpace_of_base (e := left) hwf hbase space hleft

/-- A chain that ends in a namespace has no access that denotes a type. -/
theorem filter_spine_of_nameSpace (hwf : m.table.WellFormed) {e : Expression} {space : String}
    (h : m.entityOf? e = some (.nameSpace space)) :
    e.spine.filter (fun a => (m.resolve a).isNamespacedType) = [] := by
  induction e using Expression.inductionOn generalizing space with
  | identifier name => rfl
  | aliased aliasName name span => rfl
  | other children span _ => rfl
  | access left form ih =>
    obtain ⟨inner, hleft⟩ := entityOf?_left hwf h (Or.inl ⟨space, rfl⟩)
    rw [Expression.spine, List.filter_cons_of_neg, ih hleft]
    simp [Model.resolve, h, SymbolTable.describe, Symbol.isNamespacedType]

/-- **At most one access of a chain denotes a type directly in a namespace.** -/
theorem length_filter_spine_le_one (hwf : m.table.WellFormed) (e : Expression) :
    (e.spine.filter fun a => (m.resolve a).isNamespacedType).length ≤ 1 := by
  induction e using Expression.inductionOn with
  | identifier name => exact Nat.zero_le 1
  | aliased aliasName name span => exact Nat.zero_le 1
  | other children span _ => exact Nat.zero_le 1
  | access left form ih =>
    by_cases hsymbol : (m.resolve (.access left form)).isNamespacedType = true
    · -- the chain reaches its type here, and there are only namespaces further left
      obtain ⟨entity, hentity, htop⟩ := isTopLevel_of_resolve hwf hsymbol
      obtain ⟨space, hleft⟩ := entityOf?_left hwf hentity (Or.inr htop)
      rw [Expression.spine, List.filter_cons, if_pos hsymbol, filter_spine_of_nameSpace hwf hleft]
      exact Nat.le_refl 1
    · rw [Expression.spine, List.filter_cons, if_neg hsymbol]
      exact ih

/-! ### What is reported of a chain -/

/-- A scan goes through the chains of a tree one after the other. -/
theorem findingsOf_eq_flatMap_chains (oracle : Oracle) (root : Expression) :
    s.findingsOf oracle root =
      root.chains.flatMap fun chain => chain.spine.filterMap (s.scan oracle) := by
  rw [← List.filterMap_flatMap, ← Expression.filter_isAccess_preorder, List.filterMap_filter,
    findingsOf]
  refine List.filterMap_congr fun e _ => ?_
  cases e <;> rfl

theorem length_filterMap_scan_le_one (hwf : m.table.WellFormed) (e : Expression) :
    (e.spine.filterMap (s.scan m.oracle)).length ≤ 1 := by
  refine Nat.le_trans ?_ (length_filter_spine_le_one hwf e)
  rw [List.length_filterMap_eq_countP, ← List.countP_eq_length_filter]
  refine List.countP_mono_left fun a _ hscan => ?_
  obtain ⟨f, hf⟩ := Option.isSome_iff_exists.1 hscan
  obtain ⟨-, -, -, -, hsymbol⟩ := exists_access_of_scan hf
  exact hsymbol

/-- **Each chain is reported at most once.**  For every table that can be built, every file and
every expression tree: in a chain of accesses of any length and over any base at most one access
denotes a type directly in a namespace, and none does if the base denotes a type itself.  The
accesses of the tree are those of its chains; a scan reports what it reports of each chain, at
most one finding, chain after chain; and a cancelled scan reports the first of these findings. -/
theorem chain_reported_at_most_once (updates : List SymbolTable.Update) (outline : Outline)
    (s : Scanner) (root : Expression) :
    let m : Model := { table := SymbolTable.build updates, outline }
    let reported (chain : Expression) := chain.spine.filterMap (s.scan m.oracle)
    (∀ chain : Expression,
      (chain.spine.filter fun a => (m.resolve a).isNamespacedType).length ≤ 1 ∧
        ((m.resolve chain.base).kind = .namedType →
          ∀ a ∈ chain.spine, (m.resolve a).isNamespacedType = false)) ∧
    root.preorder.filter Expression.isAccess = root.chains.flatMap Expression.spine ∧
    (∀ chain ∈ root.chains, (reported chain).length ≤ 1) ∧
    (s.scanTree m.oracle .never root).findings = root.chains.flatMap reported ∧
    ∀ signal, (s.scanTree m.oracle signal root).findings <+: root.chains.flatMap reported := by
  intro m reported
  have hwf : m.table.WellFormed := (SymbolTable.reachable_build updates).wellFormed
  have hfindings : s.findingsOf m.oracle root = root.chains.flatMap reported :=
    findingsOf_eq_flatMap_chains m.oracle root
  refine ⟨fun chain => ⟨length_filter_spine_le_one hwf chain, fun hbase a ha => ?_⟩,
    root.filter_isAccess_preorder, fun chain _ => length_filterMap_scan_le_one hwf chain, ?_,
    fun signal => ?_⟩
  · -- a base that denotes a type does not denote a namespace
    have hnone := filter_spine_of_base (e := chain) hwf fun space hspace => by
      simp [Model.resolve, hspace, SymbolTable.describe] at hbase
    simpa using List.filter_eq_nil_iff.1 hnone a ha
  · rw [findings_scanTree_never, hfindings]
  · rw [← hfindings]
    exact findings_scanTree_prefix s m.oracle signal root

end Scanner

end Unqualify
