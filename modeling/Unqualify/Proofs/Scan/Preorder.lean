import Unqualify.Scan

/-!
# Scanning in document order

A scan keeps a stack of nodes still to visit.  As long as nobody cancels it, it visits the nodes
of the tree in document order, parents first (`Expression.preorder`), and gives out the finding
of every node that has one (`Scanner.findings_scanTree_never`).  Cancelled, it gives out the first
of these findings (`Scanner.findings_scanTree_prefix`).
-/

namespace Unqualify

namespace Expression

/-- Induction on expressions, with one hypothesis for each child of a node. -/
@[elab_as_elim]
theorem inductionOn {P : Expression → Prop} (e : Expression)
    (identifier : ∀ name, P (.identifier name))
    (access : ∀ left form, P left → P (.access left form))
    (aliased : ∀ aliasName name span, P (.aliased aliasName name span))
    (other : ∀ children span, (∀ child ∈ children, P child) → P (.other children span)) : P e :=
  match e with
  | .identifier name => identifier name
  | .access left form => access left form (inductionOn left identifier access aliased other)
  | .aliased aliasName name span => aliased aliasName name span
  | .other children span =>
    other children span fun child _ => inductionOn child identifier access aliased other

mutual

theorem map_snd_outline (depth : Nat) :
    (e : Expression) → (outline depth e).map (·.2) = preorder e
  | .identifier _ => rfl
  | .access left form => by
    simp [preorder, outline, map_snd_outline (depth + 1) left, map_snd_outline 1 left]
  | .aliased .. => rfl
  | .other children span => by
    simp [preorder, outline, map_snd_outlineAll (depth + 1) children,
      map_snd_outlineAll 1 children]

theorem map_snd_outlineAll (depth : Nat) :
    (es : List Expression) → (outlineAll depth es).map (·.2) = es.flatMap preorder
  | [] => rfl
  | e :: es => by
    simp [outlineAll, map_snd_outline depth e, map_snd_outlineAll depth es]

end

@[simp] theorem preorder_identifier (name : SimpleName) :
    (identifier name).preorder = [identifier name] := rfl

@[simp] theorem preorder_access (left : Expression) (form : Access) :
    (access left form).preorder = access left form :: left.preorder := by
  rw [preorder, outline, List.map_cons, map_snd_outline]

@[simp] theorem preorder_aliased (aliasName name : SimpleName) (span : Span) :
    (aliased aliasName name span).preorder = [aliased aliasName name span] := rfl

@[simp] theorem preorder_other (children : List Expression) (span : Span) :
    (other children span).preorder = other children span :: children.flatMap preorder := by
  rw [preorder, outline, List.map_cons, map_snd_outlineAll]

/-- A node comes before its children, and those come one after the other. -/
theorem preorder_eq (e : Expression) : e.preorder = e :: e.children.flatMap preorder := by
  cases e <;> simp [children]

end Expression

namespace Scanner

variable (s : Scanner) (oracle : Oracle)

/-- What an expression gives rise to when nobody cancels the scan. -/
def findingsOf (e : Expression) : List Finding :=
  e.preorder.filterMap (s.scan oracle)

/-- The finding of the node itself comes before those of the nodes below it. -/
theorem findingsOf_eq (e : Expression) :
    s.findingsOf oracle e =
      (s.scan oracle e).toList ++ e.children.flatMap (s.findingsOf oracle) := by
  rw [findingsOf, Expression.preorder_eq, List.filterMap_cons, List.filterMap_flatMap]
  cases s.scan oracle e <;> rfl

theorem findingsOf_identifier (name : SimpleName) :
    s.findingsOf oracle (.identifier name) = [] := rfl

theorem findingsOf_access (left : Expression) (form : Access) :
    s.findingsOf oracle (.access left form) =
      (s.scan oracle (.access left form)).toList ++ s.findingsOf oracle left := by
  rw [findingsOf_eq]
  simp [Expression.children]

theorem findingsOf_other (children : List Expression) (span : Span) :
    s.findingsOf oracle (.other children span) = children.flatMap (s.findingsOf oracle) := by
  rw [findingsOf_eq]
  simp [Expression.children, scan]

theorem findings_walk_never (p : Progress) (stack : List Expression) :
    (s.walk oracle .never p stack).findings = stack.flatMap (s.findingsOf oracle) := by
  fun_induction walk s oracle .never p stack with
  | case1 => rfl
  | case2 _ _ _ hsignal => cases hsignal
  | case3 p node stack _ next asked hscan ih =>
    rw [List.flatMap_cons, findingsOf_eq, hscan]
    simpa [Scanned.afterQueries] using ih
  | case4 _ _ _ _ _ _ _ _ hsignal => cases hsignal
  | case5 p node stack _ next asked finding hscan _ ih =>
    rw [List.flatMap_cons, findingsOf_eq, hscan]
    simpa [Scanned.afterQueries, Scanned.afterFinding] using ih

/-- **A scan that is not cancelled is the scan of the nodes in document order.** -/
theorem findings_scanTree_never (root : Expression) :
    (s.scanTree oracle .never root).findings = s.findingsOf oracle root := by
  rw [scanTree, findings_walk_never]
  simp

theorem findings_walk_prefix (signal : Signal) (p : Progress) (stack : List Expression) :
    (s.walk oracle signal p stack).findings <+: stack.flatMap (s.findingsOf oracle) := by
  fun_induction walk s oracle signal p stack with
  | case1 => exact List.nil_prefix
  | case2 => exact List.nil_prefix
  | case3 p node stack _ next asked hscan ih =>
    rw [List.flatMap_cons, findingsOf_eq, hscan]
    simpa [Scanned.afterQueries] using ih
  | case4 => exact List.nil_prefix
  | case5 p node stack _ next asked finding hscan _ ih =>
    rw [List.flatMap_cons, findingsOf_eq, hscan]
    simpa [Scanned.afterQueries, Scanned.afterFinding] using ih

/-- **A cancelled scan gives out the first findings of the whole one.** -/
theorem findings_scanTree_prefix (signal : Signal) (root : Expression) :
    (s.scanTree oracle signal root).findings <+: s.findingsOf oracle root := by
  simpa [scanTree] using s.findings_walk_prefix oracle signal .zero [root]

end Scanner

end Unqualify
