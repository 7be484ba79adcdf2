import Unqualify.Rule

/-!
# Scanning

A scan visits the nodes of an expression tree in document order and applies the rule to every
access.  It can be cancelled: the signal is read before each node and once more before a
finding is given out, so a cancelled scan never gives out a finding of the node in progress.

Time in a scan is measured by its own progress, the number of nodes visited, of questions asked
and of findings given out; a signal is a predicate on that (`Signal`).  No two readings of the
signal fall on the same progress, so a signal can be raised before any of them.  The questions
that a scan asks its oracle are recorded next to its findings.
-/

namespace Unqualify

/-- A question to the oracle. -/
inductive Query where
  /-- What does the expression with this text denote? -/
  | resolve (text : String)
  /-- What does this name mean at this offset? -/
  | lookup (offset : Nat) (name : String)
  deriving DecidableEq, Repr

/-- How far a scan has come. -/
structure Progress where
  /-- Nodes visited. -/
  visited : Nat
  /-- Expressions resolved. -/
  resolved : Nat
  /-- Findings given out. -/
  given : Nat
  deriving DecidableEq, Repr

/-- A scan that has not begun. -/
def Progress.zero : Progress := { visited := 0, resolved := 0, given := 0 }

/-- How far a scan has come when it has given out one more finding. -/
def Progress.give (p : Progress) : Progress := { p with given := p.given + 1 }

/-- Whether a scan is to stop, by how far it has come. -/
abbrev Signal := Progress → Bool

namespace Signal

/-- Never stop. -/
def never : Signal := fun _ => false

/-- Stop before the first node. -/
def raised : Signal := fun _ => true

/-- Stop once a number of expressions have been resolved. -/
def afterResolving (n : Nat) : Signal := fun p => n ≤ p.resolved

end Signal

/-- What a scan gives out. -/
structure Scanned where
  /-- Findings, in document order. -/
  findings : List Finding
  /-- Questions, in the order they were asked. -/
  queries : List Query
  deriving DecidableEq, Repr

namespace Scanned

/-- The outcome of a scan that was not begun. -/
def nothing : Scanned := { findings := [], queries := [] }

/-- Questions asked before the rest of a scan. -/
def afterQueries (queries : List Query) (rest : Scanned) : Scanned :=
  { rest with queries := queries ++ rest.queries }

/-- A finding given out before the rest of a scan. -/
def afterFinding (finding : Finding) (rest : Scanned) : Scanned :=
  { rest with findings := finding :: rest.findings }

end Scanned

/-- How to scan. -/
structure Scanner where
  /-- The rule to apply. -/
  rule : Rule := Rule.qualification
  /-- Whether to work out a fix for every finding. -/
  offerFixes : Bool := false

namespace Scanner

variable (s : Scanner) (oracle : Oracle)

/-- The finding on an access that denotes `symbol`. -/
def report (access : Access) (symbol : Symbol) : Option Finding :=
  (s.rule.evaluate access symbol).map fun finding =>
    if s.offerFixes then
      match Rule.suggestFix oracle access symbol with
      | .ok fix => { finding with fix := .offered fix }
      | .error rejection => { finding with fix := .withheld rejection }
    else
      finding

/-- Look at one node. -/
def scan (node : Expression) : Option Finding :=
  match node with
  | .access _ form => s.report oracle form (oracle.resolve node)
  | _ => none

/-- The questions asked about one node. -/
def queries (node : Expression) : List Query :=
  match node with
  | .access _ form =>
    let asksForFix := s.offerFixes && (s.rule.evaluate form (oracle.resolve node)).isSome
    .resolve form.text ::
      if asksForFix then [.lookup form.span.start form.name.identifier] else []
  | _ => []

/-- Look at one node and nothing else. -/
def scanOne (node : Expression) : Scanned :=
  { findings := (s.scan oracle node).toList, queries := s.queries oracle node }

/-- How far a scan has come when it has asked its questions about one more node. -/
def advance (p : Progress) (node : Expression) : Progress :=
  match node with
  | .access .. => { p with visited := p.visited + 1, resolved := p.resolved + 1 }
  | _ => { p with visited := p.visited + 1 }

/-- Visit the nodes on a stack and all nodes below them, topmost first, until the signal is
raised. -/
def walk (signal : Signal) (p : Progress) : List Expression → Scanned
  | [] => .nothing
  | node :: stack =>
    if signal p then
      .nothing
    else
      let next := advance p node
      let asked := s.queries oracle node
      match s.scan oracle node with
      | none => (walk signal next (node.children ++ stack)).afterQueries asked
      | some finding =>
        if signal next then
          { findings := [], queries := asked }
        else
          ((walk signal next.give (node.children ++ stack)).afterFinding finding).afterQueries
            asked
termination_by stack => Expression.sizeAll stack
decreasing_by
  all_goals
    simp only [Expression.sizeAll, Expression.sizeAll_append, Expression.size_eq node]
    omega

/-- Scan a whole tree. -/
def scanTree (signal : Signal) (root : Expression) : Scanned :=
  s.walk oracle signal .zero [root]

end Scanner

end Unqualify
