import Unqualify.Expression.Basic
import Unqualify.Finding
import Unqualify.Symbol

/-!
# The rule on redundant qualification

An access is redundant when it names a type directly inside a namespace by more than its
simple name.  The qualification may go when the simple name, looked up where the access
stands, means exactly that type.
-/

namespace Unqualify

/-- Who answers the rule's questions about names. -/
structure Oracle where
  /-- What an expression denotes. -/
  resolve : Expression → Symbol
  /-- What a simple name would mean at an offset. -/
  lookup : Nat → String → Lookup

/-- A rule and its wording. -/
structure Rule where
  /-- Stable identifier. -/
  id : String
  /-- One-line summary. -/
  title : String
  /-- What the rule checks. -/
  description : String
  /-- Grouping label. -/
  category : String
  /-- Severity of every finding. -/
  severity : Severity
  /-- Message, in which `{0}` stands for the access. -/
  messageFormat : String
  /-- Whether the rule runs when the configuration does not mention it. -/
  enabledByDefault : Bool
  deriving Repr

namespace Rule

/-- The rule on redundant qualification. -/
def qualification : Rule where
  id := "WI01001"
  title := "Unnecessary namespace qualification"
  description := "A type referenced through its full namespace path can be " ++
    "referenced by its simple name when that name is in scope."
  category := "Lang"
  severity := .warning
  messageFormat := "Type name '\x7b0\x7d' is unnecessarily qualified"
  enabledByDefault := true

/-- A message format with its placeholders filled in. -/
def fill (argument : List Char) : List Char → List Char
  | '\x7b' :: '0' :: '\x7d' :: cs => argument ++ fill argument cs
  | c :: cs => c :: fill argument cs
  | [] => []

/-- The message about an access. -/
def message (r : Rule) (argument : String) : String :=
  String.ofList (fill argument.toList r.messageFormat.toList)

/-- Report an access that is written with more than its simple name, if it denotes a type
directly inside a namespace. -/
def evaluate (r : Rule) (access : Access) (symbol : Symbol) : Option Finding :=
  if symbol.isNamespacedType ∧ access.text ≠ access.name.text then
    some
      { argument := access.text
        fix := .notRequested
        message := r.message access.text
        ruleId := r.id
        severity := r.severity
        span := access.span }
  else
    none

/-- The span from the start of an access up to its last name, covering `Foo.Bar.`. -/
def qualifierSpan (access : Access) : Span :=
  { access.span with len := access.name.span.start - access.span.start }

/-- The edit that drops the qualification, given what the simple name means where the access
stands. -/
def fixFor (access : Access) (symbol : Symbol) : Lookup → Except Rejection Fix
  | .ambiguous candidates => .error (.ambiguous candidates)
  | .notFound => .error .notInScope
  | .unique bound =>
    if bound = symbol then .ok { span := qualifierSpan access, replacement := "" }
    else .error (.resolvesElsewhere bound.fullName)

/-- The edit that drops the qualification, or why there is none. -/
def suggestFix (oracle : Oracle) (access : Access) (symbol : Symbol) : Except Rejection Fix :=
  fixFor access symbol (oracle.lookup access.span.start access.name.identifier)

end Rule

end Unqualify
