import Unqualify.Config
import Unqualify.Json

/-!
# The reference document

What `info` shows: how the program is used, its rules, the configuration it found, and its
exit codes; as markdown or as JSON.
-/

namespace Unqualify

/-- The state of a project as far as the reference shows it. -/
structure Info where
  /-- Whether there is a configuration file. -/
  configFound : Bool
  /-- The configuration; none if the file cannot be used. -/
  config : Option Config

namespace Info

/-- The version of the program. -/
def version : String := "0.1.0"

/-- The rule shown. -/
def rule : Rule := Rule.qualification

/-- What the exit codes mean. -/
def exitCodes : List (Nat × String) :=
  [(0, "No findings"), (1, "Redundant qualifications found"), (2, "Runtime error")]

/-- Whether the rule runs. -/
def ruleEnabled (i : Info) : Bool :=
  match i.config with
  | some config => config.ruleEnabled rule.id rule.enabledByDefault
  | none => rule.enabledByDefault

/-- The configured library types. -/
def libraryTypes (i : Info) : List String :=
  (i.config.map (·.libraryTypes)).getD []

/-! ### Markdown -/

/-- How the program is used and configured. -/
def usageLines : List String :=
  ["# idiom " ++ version, "",
   "Reports type names in C# sources written with a namespace prefix",
   "that the surrounding code does not need.", "",
   "## Workflow", "",
   "    idiom check [PATHS]               Report redundant qualifications (exit 0/1/2)",
   "    idiom check --format json         Same, as a JSON array",
   "    idiom fix [PATHS]                 Remove qualifications where the short name is unambiguous",
   "    idiom info [--json]               This document", "",
   "## Configuration (" ++ configFile ++ ")", "",
   "    include = [\"src/\"]                        # only scan these paths",
   "    exclude = [\"src/Generated/\"]              # skip these paths",
   "    extern_types = [\"System.Console\"]        # library types idiom cannot see", "",
   "    [rules.WI01001]",
   "    enabled = true", ""]

/-- The table of rules. -/
def ruleLines : List String :=
  let default := if rule.enabledByDefault then "on" else "off"
  let cells := [rule.id, rule.title, rule.category, rule.severity.label, default]
  ["## Rules", "",
   "| Id | Title | Category | Severity | Default |",
   "|----|-------|----------|----------|---------|",
   "| " ++ " | ".intercalate cells ++ " |", "",
   rule.description, ""]

/-- What was found in the project. -/
def stateLines (i : Info) : List String :=
  let found :=
    if !i.configFound then "(not found)"
    else if i.config.isSome then "(found)"
    else "(invalid, run `idiom check` for details)"
  let enabled := if i.ruleEnabled then "enabled" else "disabled"
  let types := if i.libraryTypes.isEmpty then "(none)" else ", ".intercalate i.libraryTypes
  ["## Current State", "",
   "Config:       " ++ configFile ++ " " ++ found,
   "Rule:         " ++ rule.id ++ " " ++ enabled,
   "Extern types: " ++ types, ""]

/-- The table of exit codes. -/
def exitCodeLines : List String :=
  ["## Exit Codes", "",
   "| Code | Meaning |",
   "|------|---------|"] ++
    exitCodes.map fun (code, meaning) => s!"| {code}    | {meaning} |"

/-- The reference as markdown. -/
def markdown (i : Info) : String :=
  Error.unlines (usageLines ++ ruleLines ++ i.stateLines ++ exitCodeLines)

/-! ### JSON -/

/-- A rule as JSON. -/
def ruleJson (r : Rule) : Json :=
  .obj [("category", .str r.category), ("description", .str r.description),
    ("enabled_by_default", .bool r.enabledByDefault), ("id", .str r.id),
    ("message_format", .str r.messageFormat), ("severity", .str r.severity.label),
    ("title", .str r.title)]

/-- The reference as JSON. -/
def toJson (i : Info) : Json :=
  let state : Json :=
    .obj [("config_found", .bool i.configFound), ("config_valid", .bool i.config.isSome),
      ("extern_types", .arr (i.libraryTypes.map .str)), ("rule_enabled", .bool i.ruleEnabled)]
  let codes := exitCodes.map fun (code, meaning) =>
    Json.obj [("code", .num code), ("meaning", .str meaning)]
  .obj [("current_state", state), ("exit_codes", .arr codes),
    ("extensions", .arr (supportedExtensions.map fun ext => .str ("." ++ ext))),
    ("rules", .arr [ruleJson rule]), ("version", .str version)]

end Info

end Unqualify
