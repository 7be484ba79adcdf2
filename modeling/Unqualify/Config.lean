import Unqualify.Error
import Unqualify.Text.Search
import Unqualify.Toml.Document

/-!
# Configuration

What a project can configure: which paths are scanned, which library types exist, and whether
a rule runs.  Unknown keys are ignored; a known key with a value of the wrong type and a rule
that does not exist are errors.
-/

namespace Unqualify

/-- The configuration of a project. -/
structure Config where
  /-- Beginnings of the paths to scan; none means everything. -/
  included : List String := []
  /-- Beginnings of the paths to skip. -/
  excluded : List String := []
  /-- Types of referenced libraries. -/
  libraryTypes : List String := []
  /-- The switch of every configured rule, if it is set. -/
  rules : List (String × Option Bool) := []
  deriving DecidableEq, Repr

namespace Config

/-- Read an array of strings. -/
def strings? : Toml.Value → Option (List String)
  | .array items => items.mapM fun
    | .string text => some text
    | _ => none
  | _ => none

/-- Read an array of strings under a key; a missing one is empty. -/
def stringsAt (key : String) (entries : Toml.Entries) : Except Error (List String) :=
  match entries.get? key with
  | none => .ok []
  | some v =>
    match strings? v with
    | some texts => .ok texts
    | none => .error (.badConfig (.wrongType key))

/-- Read the switch of a rule from the entries of its table. -/
def switchIn? (entries : Toml.Entries) : Option (Option Bool) :=
  match entries.get? "enabled" with
  | none => some none
  | some (.boolean b) => some (some b)
  | some _ => none

/-- Read the settings of a rule.  A list gives the settings in order, so its first item is the
switch; a date has no setting that is known. -/
def settings? : Toml.Value → Option (Option Bool)
  | .table _ entries => switchIn? entries
  | .inline entries => switchIn? entries
  | .array (.boolean b :: _) => some (some b)
  | .datetime => some none
  | _ => none

/-- Read the settings of all rules. -/
def rules? : Toml.Value → Option (List (String × Option Bool))
  | .table _ entries => entries.mapM fun (id, v) => (settings? v).map (id, ·)
  | .inline entries => entries.mapM fun (id, v) => (settings? v).map (id, ·)
  | _ => none

/-- Read the settings of all rules under their key. -/
def rulesIn (entries : Toml.Entries) : Except Error (List (String × Option Bool)) :=
  match entries.get? "rules" with
  | none => .ok []
  | some v =>
    match rules? v with
    | some rules => .ok rules
    | none => .error (.badConfig (.wrongType "rules"))

/-- Read a configuration. -/
def parse (text : String) : Except Error Config :=
  match Toml.parse? text with
  | none => .error (.badConfig .malformed)
  | some entries => do
    let excluded ← stringsAt "exclude" entries
    let libraryTypes ← stringsAt "extern_types" entries
    let included ← stringsAt "include" entries
    let rules ← rulesIn entries
    match rules.find? fun (id, _) => id != Rule.qualification.id with
    | some (id, _) => .error (.unknownRule id)
    | none => .ok { included, excluded, libraryTypes, rules }

/-- Whether a rule runs, given its default. -/
def ruleEnabled (c : Config) (id : String) (byDefault : Bool) : Bool :=
  ((c.rules.lookup id).bind fun switch => switch).getD byDefault

/-- Whether a path is scanned: it starts with an included beginning, if there are any, and
with no excluded one. -/
def shouldScan (c : Config) (path : String) : Bool :=
  (c.included.isEmpty || c.included.any (Text.startsWith path)) &&
    !c.excluded.any (Text.startsWith path)

end Config

end Unqualify
