import Unqualify.Json
import Unqualify.Report.Basic
import Unqualify.Text.Search

/-!
# Reports as JSON

One object for each finding, in a list over all files.
-/

namespace Unqualify

/-- A span as JSON. -/
def Span.toJson (s : Span) : Json :=
  .obj [("column", .num s.column), ("len", .num s.len), ("line", .num s.line),
    ("start", .num s.start)]

/-- A fix as JSON. -/
def Fix.toJson (f : Fix) : Json :=
  .obj [("replacement", .str f.replacement), ("span", f.span.toJson)]

/-- A rejection as JSON, its kind under `reason`. -/
def Rejection.toJson : Rejection → Json
  | ambiguous candidates =>
    .obj [("reason", .str "ambiguous"), ("candidates", .arr (candidates.map .str))]
  | notInScope => .obj [("reason", .str "not_in_scope")]
  | resolvesElsewhere target =>
    .obj [("reason", .str "resolves_elsewhere"), ("target", .str target)]

/-- The state of a fix as JSON, its kind under `status`. -/
def FixStatus.toJson : FixStatus → Json
  | notRequested => .obj [("status", .str "not_requested")]
  | offered fix => .obj [("status", .str "offered"), ("fix", fix.toJson)]
  | withheld rejection => .obj [("status", .str "withheld"), ("rejection", rejection.toJson)]

/-- The fields of a finding as JSON. -/
def Finding.fields (f : Finding) : List (String × Json) :=
  [("argument", .str f.argument), ("fix", f.fix.toJson), ("message", .str f.message),
   ("rule_id", .str f.ruleId), ("severity", .str f.severity.label), ("span", f.span.toJson)]

/-- A finding as JSON. -/
def Finding.toJson (f : Finding) : Json := .obj f.fields

namespace Report

/-- The findings of a file as JSON, each with the file's path in slashes. -/
def toJsonItems (r : Report) : List Json :=
  let file := Text.replaceChar '\\' '/' r.path
  r.findings.map fun f => .obj (f.fields ++ [("file", .str file)])

/-- All findings as JSON text. -/
def renderJson (reports : List Report) : String :=
  (Json.arr (reports.flatMap toJsonItems)).pretty

end Report

end Unqualify
