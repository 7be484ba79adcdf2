import Unqualify.Span

/-!
# Findings

What a scan reports about one access: where it stands, what to say about it, and whether the
qualification can be removed.
-/

namespace Unqualify

/-- How serious a finding is. -/
inductive Severity where
  /-- Worth fixing; never fails a build on its own. -/
  | warning
  deriving DecidableEq, Repr

/-- The word for a severity in reports. -/
def Severity.label : Severity → String
  | .warning => "warning"

/-- A text edit: replace a span. -/
structure Fix where
  /-- The span to replace. -/
  span : Span
  /-- What to put there; empty to delete. -/
  replacement : String
  deriving DecidableEq, Repr

/-- Why the short form would not mean the same. -/
inductive Rejection where
  /-- The short name would match several symbols, with these full names. -/
  | ambiguous (candidates : List String)
  /-- The short name means nothing here. -/
  | notInScope
  /-- The short name means something else, with this full name. -/
  | resolvesElsewhere (target : String)
  deriving DecidableEq, Repr

/-- The reason in words. -/
def Rejection.text : Rejection → String
  | ambiguous candidates => "short name is ambiguous (" ++ ", ".intercalate candidates ++ ")"
  | notInScope => "short name is not in scope"
  | resolvesElsewhere target => "short name would bind to `" ++ target ++ "`"

/-- What is known about fixing a finding. -/
inductive FixStatus where
  /-- Nobody asked. -/
  | notRequested
  /-- The edit is safe. -/
  | offered (fix : Fix)
  /-- There is no safe edit. -/
  | withheld (rejection : Rejection)
  deriving DecidableEq, Repr

/-- One finding of a rule. -/
structure Finding where
  /-- The access as it is written. -/
  argument : String
  /-- What is known about fixing it. -/
  fix : FixStatus
  /-- What to tell the user. -/
  message : String
  /-- Identifier of the rule. -/
  ruleId : String
  /-- Severity. -/
  severity : Severity
  /-- Extent of the access. -/
  span : Span
  deriving DecidableEq, Repr

/-- The edit that a finding offers. -/
def Finding.offeredFix? (f : Finding) : Option Fix :=
  match f.fix with
  | .offered fix => some fix
  | _ => none

/-- The reason why a finding's fix is withheld. -/
def Finding.rejection? (f : Finding) : Option Rejection :=
  match f.fix with
  | .withheld rejection => some rejection
  | _ => none

end Unqualify
