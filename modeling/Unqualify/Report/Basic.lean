import Unqualify.Finding

/-!
# Reports

The findings of one file, and the counts that summaries are made of.
-/

namespace Unqualify

/-- The findings of one file. -/
structure Report where
  /-- Path of the file. -/
  path : String
  /-- The text the findings refer to. -/
  text : String
  /-- Findings in document order. -/
  findings : List Finding
  deriving DecidableEq, Repr

namespace Report

/-- The fixes that the findings of a file offer. -/
def offeredFixes (r : Report) : List Fix :=
  r.findings.filterMap Finding.offeredFix?

/-- Whether any file has a finding. -/
def anyFinding (reports : List Report) : Bool :=
  reports.any fun r => !r.findings.isEmpty

/-- The number of findings of all files. -/
def findingCount (reports : List Report) : Nat :=
  (reports.flatMap (·.findings)).length

/-- The number of findings whose fix is withheld. -/
def withheldCount (reports : List Report) : Nat :=
  (reports.flatMap (·.findings)).countP (·.rejection?.isSome)

end Report

end Unqualify
