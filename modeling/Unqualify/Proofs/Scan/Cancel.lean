import Mathlib.Data.List.Basic
import Unqualify.Proofs.Scan.Preorder

/-!
# Cancelled scans

A scan reads the signal before it looks at a node, and once more when it has a finding of that node
to give out.  Between these readings the signal can be raised at any moment: before the scan, between
two nodes or while the questions about a node are being asked.

A scan that nobody cancels visits the nodes in document order, each at two moments: its progress
when the visit starts and when the questions about the node have been asked (`Scanner.visits`).  As
a raised signal stays raised (`Signal.Lasting`), these moments decide what a cancelled scan does:

* it gives out the findings of the nodes whose questions had all been asked when the signal was
  raised, and no finding of the node in progress (`Scanner.findings_scanTree`);
* it asks about the nodes whose visit had started, and about no later one
  (`Scanner.queries_scanTree`).
-/

namespace Unqualify

/-! ### Moments -/

namespace Progress

/-- One moment is not after another: nothing has been undone. -/
structure Before (p q : Progress) : Prop where
  /-- Visited nodes stay visited. -/
  visited_le : p.visited ≤ q.visited
  /-- Resolved expressions stay resolved. -/
  resolved_le : p.resolved ≤ q.resolved
  /-- Findings are not taken back. -/
  given_le : p.given ≤ q.given

instance (p q : Progress) : Decidable (p.Before q) :=
  decidable_of_iff (p.visited ≤ q.visited ∧ p.resolved ≤ q.resolved ∧ p.given ≤ q.given)
    ⟨fun h => ⟨h.1, h.2.1, h.2.2⟩, fun h => ⟨h.visited_le, h.resolved_le, h.given_le⟩⟩

theorem Before.refl (p : Progress) : p.Before p :=
  ⟨Nat.le_refl _, Nat.le_refl _, Nat.le_refl _⟩

theorem Before.trans {p q r : Progress} (h : p.Before q) (h' : q.Before r) : p.Before r :=
  ⟨Nat.le_trans h.visited_le h'.visited_le, Nat.le_trans h.resolved_le h'.resolved_le,
    Nat.le_trans h.given_le h'.given_le⟩

theorem before_give (p : Progress) : p.Before p.give :=
  ⟨Nat.le_refl _, Nat.le_refl _, Nat.le_succ _⟩

theorem before_advance (p : Progress) (node : Expression) : p.Before (Scanner.advance p node) := by
  cases node with
  | access left form => exact ⟨Nat.le_succ _, Nat.le_succ _, Nat.le_refl _⟩
  | identifier name => exact ⟨Nat.le_succ _, Nat.le_refl _, Nat.le_refl _⟩
  | aliased aliasName name span => exact ⟨Nat.le_succ _, Nat.le_refl _, Nat.le_refl _⟩
  | other children span => exact ⟨Nat.le_succ _, Nat.le_refl _, Nat.le_refl _⟩

end Progress

/-- A signal that stays raised once it is raised. -/
def Signal.Lasting (signal : Signal) : Prop :=
  ∀ p q, p.Before q → signal p = true → signal q = true

/-- The text of the expression that a question asks to resolve. -/
def Query.resolved? : Query → Option String
  | .resolve text => some text
  | .lookup .. => none

/-- The written form of a node that is an access. -/
def Expression.form? : Expression → Option Access
  | .access _ form => some form
  | _ => none

namespace Scanner

/-! ### The course of a scan -/

/-- One node in the course of a scan that nobody cancels. -/
structure Visit where
  /-- The node. -/
  node : Expression
  /-- When its visit starts. -/
  start : Progress
  /-- When the questions about it have been asked. -/
  finish : Progress

variable (s : Scanner) (oracle : Oracle)

/-- How far a scan has come when it goes on to the node after `node`. -/
def leave (p : Progress) (node : Expression) : Progress :=
  if (s.scan oracle node).isSome then (advance p node).give else advance p node

/-- The visits of a scan to some nodes, one after the other, beginning at `p`. -/
def visitsFrom (p : Progress) : List Expression → List Visit
  | [] => []
  | node :: nodes =>
    { node, start := p, finish := advance p node } :: visitsFrom (s.leave oracle p node) nodes

/-- The visits of a scan that nobody cancels: every node in document order. -/
def visits (root : Expression) : List Visit :=
  s.visitsFrom oracle .zero root.preorder

theorem map_node_visitsFrom (p : Progress) (nodes : List Expression) :
    (s.visitsFrom oracle p nodes).map (·.node) = nodes := by
  induction nodes generalizing p with
  | nil => rfl
  | cons node nodes ih => rw [visitsFrom, List.map_cons, ih]

theorem advance_before_leave (p : Progress) (node : Expression) :
    (advance p node).Before (s.leave oracle p node) := by
  rw [leave]
  split
  · exact Progress.before_give _
  · exact Progress.Before.refl _

variable {s oracle}

/-- No visit starts or ends before the scan comes to its node. -/
theorem before_of_mem_visitsFrom {p : Progress} {nodes : List Expression} {v : Visit}
    (hv : v ∈ s.visitsFrom oracle p nodes) : p.Before v.start ∧ p.Before v.finish := by
  induction nodes generalizing p with
  | nil => cases hv
  | cons node nodes ih =>
    rcases List.mem_cons.1 hv with rfl | hv
    · exact ⟨Progress.Before.refl p, Progress.before_advance p node⟩
    · have hleave : p.Before (s.leave oracle p node) :=
        (Progress.before_advance p node).trans (s.advance_before_leave oracle p node)
      obtain ⟨hstart, hfinish⟩ := ih hv
      exact ⟨hleave.trans hstart, hleave.trans hfinish⟩

/-- The nodes on a stack and below them, in document order: the topmost node comes first. -/
theorem flatMap_preorder_cons (node : Expression) (stack : List Expression) :
    (node :: stack).flatMap Expression.preorder =
      node :: (node.children ++ stack).flatMap Expression.preorder := by
  rw [List.flatMap_cons, Expression.preorder_eq, List.cons_append, List.flatMap_append]

/-! ### What a cancelled scan does -/

variable {signal : Signal} (hlasting : signal.Lasting)

include hlasting

/-- Nothing is visited after the signal has been raised. -/
theorem filter_visitsFrom_of_raised {p : Progress} (hraised : signal p = true)
    (nodes : List Expression) :
    (s.visitsFrom oracle p nodes).filter (fun v => !signal v.start) = [] ∧
      (s.visitsFrom oracle p nodes).filter (fun v => !signal v.finish) = [] := by
  constructor
  · refine List.filter_eq_nil_iff.2 fun v hv => ?_
    simp [hlasting p v.start (before_of_mem_visitsFrom hv).1 hraised]
  · refine List.filter_eq_nil_iff.2 fun v hv => ?_
    simp [hlasting p v.finish (before_of_mem_visitsFrom hv).2 hraised]

theorem findings_walk (p : Progress) (stack : List Expression) :
    (s.walk oracle signal p stack).findings =
      ((s.visitsFrom oracle p (stack.flatMap Expression.preorder)).filter
        fun v => !signal v.finish).filterMap fun v => s.scan oracle v.node := by
  fun_induction walk s oracle signal p stack with
  | case1 => rfl
  | case2 p node stack hraised =>
    rw [(filter_visitsFrom_of_raised hlasting hraised _).2]
    rfl
  | case3 p node stack _ next asked hscan ih =>
    have hleave : s.leave oracle p node = next := by simp [leave, hscan, next]
    rw [flatMap_preorder_cons, visitsFrom, hleave, Scanned.afterQueries, ih, List.filter_cons]
    split
    · simp [hscan]
    · rfl
  | case4 p node stack _ next asked finding hscan hraised =>
    -- the questions about the node were being asked when the signal was raised
    have hafter : signal (s.leave oracle p node) = true :=
      hlasting next _ (s.advance_before_leave oracle p node) hraised
    rw [flatMap_preorder_cons, visitsFrom, List.filter_cons,
      (filter_visitsFrom_of_raised hlasting hafter _).2]
    simp [next, hraised]
  | case5 p node stack _ next asked finding hscan hnot ih =>
    have hleave : s.leave oracle p node = next.give := by simp [leave, hscan, next]
    rw [flatMap_preorder_cons, visitsFrom, hleave, List.filter_cons, if_pos (by simpa using hnot),
      List.filterMap_cons, hscan, ← ih]
    rfl

theorem queries_walk (p : Progress) (stack : List Expression) :
    (s.walk oracle signal p stack).queries =
      ((s.visitsFrom oracle p (stack.flatMap Expression.preorder)).filter
        fun v => !signal v.start).flatMap fun v => s.queries oracle v.node := by
  fun_induction walk s oracle signal p stack with
  | case1 => rfl
  | case2 p node stack hraised =>
    rw [(filter_visitsFrom_of_raised hlasting hraised _).1]
    rfl
  | case3 p node stack hnot next asked hscan ih =>
    have hleave : s.leave oracle p node = next := by simp [leave, hscan, next]
    rw [flatMap_preorder_cons, visitsFrom, hleave, List.filter_cons, if_pos (by simpa using hnot),
      List.flatMap_cons, ← ih]
    rfl
  | case4 p node stack hnot next asked finding hscan hraised =>
    have hafter : signal (s.leave oracle p node) = true :=
      hlasting next _ (s.advance_before_leave oracle p node) hraised
    rw [flatMap_preorder_cons, visitsFrom, List.filter_cons, if_pos (by simpa using hnot),
      (filter_visitsFrom_of_raised hlasting hafter _).1]
    simp [asked]
  | case5 p node stack hnot next asked finding hscan _ ih =>
    have hleave : s.leave oracle p node = next.give := by simp [leave, hscan, next]
    rw [flatMap_preorder_cons, visitsFrom, hleave, List.filter_cons, if_pos (by simpa using hnot),
      List.flatMap_cons, ← ih]
    rfl

/-- **A cancelled scan gives out the findings of the nodes whose questions had all been asked when
the signal was raised.** -/
theorem findings_scanTree (root : Expression) :
    (s.scanTree oracle signal root).findings =
      ((s.visits oracle root).filter fun v => !signal v.finish).filterMap
        fun v => s.scan oracle v.node := by
  rw [scanTree, findings_walk hlasting, List.flatMap_singleton]
  rfl

/-- **A cancelled scan asks about the nodes whose visit had started when the signal was raised.** -/
theorem queries_scanTree (root : Expression) :
    (s.scanTree oracle signal root).queries =
      ((s.visits oracle root).filter fun v => !signal v.start).flatMap
        fun v => s.queries oracle v.node := by
  rw [scanTree, queries_walk hlasting, List.flatMap_singleton]
  rfl

omit hlasting

theorem lasting_never : Signal.Lasting .never := by
  intro p q _ h
  cases h

theorem lasting_afterResolving (n : Nat) : Signal.Lasting (.afterResolving n) := by
  intro p q hpq h
  simp only [Signal.afterResolving, decide_eq_true_eq] at *
  exact Nat.le_trans h hpq.resolved_le

/-! ### Questions of a whole scan -/

theorem filterMap_resolved?_queries (node : Expression) :
    (s.queries oracle node).filterMap Query.resolved? = (node.form?.map Access.text).toList := by
  cases node with
  | access left form =>
    simp only [queries, Expression.form?]
    split <;> rfl
  | identifier name => rfl
  | aliased aliasName name span => rfl
  | other children span => rfl

/-- **A scan that nobody cancels resolves every access once, in document order.** -/
theorem filterMap_resolved?_scanTree_never (root : Expression) :
    (s.scanTree oracle .never root).queries.filterMap Query.resolved? =
      (root.preorder.filterMap Expression.form?).map Access.text := by
  have hall : (s.visits oracle root).filter (fun v => !Signal.never v.start) =
      s.visits oracle root := List.filter_eq_self.2 fun _ _ => rfl
  have hnodes : (s.visits oracle root).flatMap (fun v => s.queries oracle v.node) =
      root.preorder.flatMap (s.queries oracle) := by
    rw [← s.map_node_visitsFrom oracle .zero root.preorder, List.flatMap_map]
    rfl
  rw [queries_scanTree lasting_never, hall, hnodes, List.filterMap_flatMap, List.map_filterMap,
    List.filterMap_eq_flatMap_toList]
  exact congrArg (List.flatMap · root.preorder) (funext filterMap_resolved?_queries)

end Scanner

end Unqualify
