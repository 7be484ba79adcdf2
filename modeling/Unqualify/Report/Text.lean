import Unqualify.Report.Basic
import Unqualify.Text.Lines
import Unqualify.Text.Slice

/-!
# Reports as text

Findings as a compiler prints them: a line with the place and the message, the source line
below it, and a note on the fix where one was asked for.
-/

namespace Unqualify

namespace Report

/-- The line with the place and the message of a finding. -/
def headerLine (path : String) (f : Finding) : String :=
  let line := f.span.line
  let column := f.span.column
  path ++ s!":{line}:{column}: " ++ f.severity.label ++ "[" ++ f.ruleId ++ "]: " ++ f.message

/-- The source line of a finding, among the lines of its text; none if there is no such
line. -/
def sourceLine (lines : List String) (f : Finding) : List String :=
  (lines[f.span.line - 1]?).toList.map ("    " ++ ·)

/-- The note on the fix of a finding. -/
def fixLine (text : String) (f : Finding) : List String :=
  match f.fix with
  | .notRequested => []
  | .offered fix =>
    ["    fix: remove `" ++ Text.slice text fix.span.start fix.span.stop ++ "`"]
  | .withheld rejection => ["    fix withheld: " ++ rejection.text]

/-- The lines on one finding; `lines` are those of the text. -/
def findingLines (r : Report) (lines : List String) (f : Finding) : List String :=
  headerLine r.path f :: (sourceLine lines f ++ fixLine r.text f)

/-- The lines on one file.  A file without findings is not cut into lines. -/
def outputLines (r : Report) : List String :=
  match r.findings with
  | [] => []
  | findings =>
    let lines := Text.lines r.text
    findings.flatMap (r.findingLines lines)

/-- All findings as text. -/
def renderText (reports : List Report) : String :=
  String.join ((reports.flatMap outputLines).map (· ++ "\n"))

/-- The summary on one line. -/
def renderSummary (reports : List Report) : String :=
  let files := reports.length
  let findings := findingCount reports
  let affected := reports.countP fun r => !r.findings.isEmpty
  if findings = 0 then
    s!"No redundant qualifications in {files} files"
  else
    s!"{findings} redundant qualifications in {affected} of {files} files"

end Report

end Unqualify
