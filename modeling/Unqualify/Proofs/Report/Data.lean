import Unqualify.Proofs.Json.Reading
import Unqualify.Report.Data
import Mathlib.Data.List.Nodup

/-!
# Reports read back from JSON

A finding is found again in its JSON object by the names of the fields: the state of the fix by the
word under `status`, a rejection by the word under `reason`, everything else under its own name
(`Finding.ofJson?_fields`).  With the grammar and the reader of JSON, the text of a list of reports
is read back to the findings of all files, each with the path of its file in slashes
(`Report.json_read_back`).
-/

namespace Unqualify

/-! ### Decoding -/

/-- The span that an object describes. -/
def Span.ofJson? (j : Json) : Option Span := do
  let start ← (← j.get? "start").nat?
  let len ← (← j.get? "len").nat?
  let line ← (← j.get? "line").nat?
  let column ← (← j.get? "column").nat?
  some { start, len, line, column }

/-- The fix that an object describes. -/
def Fix.ofJson? (j : Json) : Option Fix := do
  let span ← Span.ofJson? (← j.get? "span")
  let replacement ← (← j.get? "replacement").str?
  some { span, replacement }

/-- The rejection that an object describes, told by its `reason`. -/
def Rejection.ofJson? (j : Json) : Option Rejection := do
  match ← (← j.get? "reason").str? with
  | "ambiguous" => return .ambiguous (← (← (← j.get? "candidates").items?).mapM Json.str?)
  | "not_in_scope" => return .notInScope
  | "resolves_elsewhere" => return .resolvesElsewhere (← (← j.get? "target").str?)
  | _ => none

/-- The state of a fix that an object describes, told by its `status`. -/
def FixStatus.ofJson? (j : Json) : Option FixStatus := do
  match ← (← j.get? "status").str? with
  | "not_requested" => return .notRequested
  | "offered" => return .offered (← Fix.ofJson? (← j.get? "fix"))
  | "withheld" => return .withheld (← Rejection.ofJson? (← j.get? "rejection"))
  | _ => none

/-- The severity that a word names. -/
def Severity.ofLabel? (label : String) : Option Severity :=
  if label = "warning" then some .warning else none

/-- The finding that an object describes. -/
def Finding.ofJson? (j : Json) : Option Finding := do
  let argument ← (← j.get? "argument").str?
  let fix ← FixStatus.ofJson? (← j.get? "fix")
  let message ← (← j.get? "message").str?
  let ruleId ← (← j.get? "rule_id").str?
  let severity ← Severity.ofLabel? (← (← j.get? "severity").str?)
  let span ← Span.ofJson? (← j.get? "span")
  some { argument, fix, message, ruleId, severity, span }

/-! ### What is written is decoded -/

theorem Span.ofJson?_toJson (s : Span) : Span.ofJson? s.toJson = some s := by
  simp [Span.ofJson?, Span.toJson, Json.get?, Json.nat?, List.lookup_cons]

theorem Fix.ofJson?_toJson (f : Fix) : Fix.ofJson? f.toJson = some f := by
  simp [Fix.ofJson?, Fix.toJson, Json.get?, Json.str?, List.lookup_cons, Span.ofJson?_toJson]

theorem Json.mapM_str? (texts : List String) : texts.mapM (Json.str? ∘ Json.str) = some texts := by
  induction texts with
  | nil => rfl
  | cons text texts ih => simp [ih, Json.str?]

theorem Rejection.ofJson?_toJson (r : Rejection) : Rejection.ofJson? r.toJson = some r := by
  cases r <;> simp [Rejection.ofJson?, Rejection.toJson, Json.get?, Json.str?, Json.items?,
    List.lookup_cons, Json.mapM_str?]

theorem FixStatus.ofJson?_toJson (s : FixStatus) : FixStatus.ofJson? s.toJson = some s := by
  cases s <;> simp [FixStatus.ofJson?, FixStatus.toJson, Json.get?, Json.str?, List.lookup_cons,
    Fix.ofJson?_toJson, Rejection.ofJson?_toJson]

theorem Severity.ofLabel?_label (s : Severity) : Severity.ofLabel? s.label = some s := by
  cases s
  rfl

/-- Fields after those of a finding do not disturb it. -/
theorem Finding.ofJson?_fields (f : Finding) (more : List (String × Json)) :
    Finding.ofJson? (.obj (f.fields ++ more)) = some f := by
  simp [Finding.ofJson?, Finding.fields, Json.get?, Json.str?, List.lookup_cons,
    FixStatus.ofJson?_toJson, Severity.ofLabel?_label, Span.ofJson?_toJson]

namespace Report

/-- The path of the file in slashes. -/
def file (r : Report) : String := Text.replaceChar '\\' '/' r.path

/-- The findings of a file, each with the path of the file. -/
def located (r : Report) : List (String × Finding) := r.findings.map (Prod.mk r.file)

/-- The finding that an object describes, with the path of its file. -/
def locatedFinding? (j : Json) : Option (String × Finding) := do
  let file ← (← j.get? "file").str?
  let finding ← Finding.ofJson? j
  some (file, finding)

/-- A located finding as JSON. -/
def locatedJson (entry : String × Finding) : Json :=
  .obj (entry.2.fields ++ [("file", .str entry.1)])

theorem locatedFinding?_locatedJson (entry : String × Finding) :
    locatedFinding? (locatedJson entry) = some entry := by
  have hfile : (locatedJson entry).get? "file" = some (.str entry.1) := by
    simp [locatedJson, Finding.fields, Json.get?, List.lookup_cons]
  rw [locatedFinding?, hfile, locatedJson, Finding.ofJson?_fields]
  rfl

/-- An object has no field twice. -/
theorem nodup_keys_locatedJson (entry : String × Finding) :
    ∃ fields, locatedJson entry = .obj fields ∧ (fields.map (·.1)).Nodup :=
  ⟨_, rfl, by simp [Finding.fields]⟩

theorem flatMap_toJsonItems (reports : List Report) :
    reports.flatMap toJsonItems = (reports.flatMap located).map locatedJson := by
  simp only [List.map_flatMap, located, List.map_map]
  rfl

/-- The text is that of the located findings, and tells them. -/
theorem renderJson_eq_iff {reports others : List Report} :
    renderJson others = renderJson reports ↔
      others.flatMap located = reports.flatMap located := by
  rw [renderJson, renderJson, flatMap_toJsonItems, flatMap_toJsonItems]
  constructor
  · intro h
    have hparse := congrArg Json.parse? h
    rw [Json.parse?_pretty, Json.parse?_pretty] at hparse
    have hitems := congrArg (List.map locatedFinding?) (Json.arr.inj (Option.some.inj hparse))
    simp only [List.map_map, Function.comp_def, locatedFinding?_locatedJson] at hitems
    exact List.map_injective_iff.2 (fun _ _ => Option.some.inj) hitems
  · intro h
    rw [h]

/-- What is located in a file. -/
def findingsIn (file : String) (entries : List (String × Finding)) : List Finding :=
  (entries.filter (·.1 = file)).map (·.2)

theorem findingsIn_located (r : Report) : findingsIn r.file r.located = r.findings := by
  have hall : r.located.filter (·.1 = r.file) = r.located :=
    List.filter_eq_self.2 (by simp [located])
  rw [findingsIn, hall, located, List.map_map]
  exact List.map_id _

theorem findingsIn_eq_nil {reports : List Report} {file : String}
    (h : file ∉ reports.map Report.file) : findingsIn file (reports.flatMap located) = [] := by
  rw [findingsIn, List.map_eq_nil_iff, List.filter_eq_nil_iff]
  rintro entry hentry hfile
  obtain ⟨r, hr, hentry⟩ := List.mem_flatMap.1 hentry
  obtain ⟨f, -, rfl⟩ := List.mem_map.1 hentry
  exact h (List.mem_map.2 ⟨r, hr, of_decide_eq_true hfile⟩)

theorem findingsIn_append (file : String) (entries entries' : List (String × Finding)) :
    findingsIn file (entries ++ entries') =
      findingsIn file entries ++ findingsIn file entries' := by
  simp [findingsIn]

/-- If no two reports are on files of one path, the findings of each report are those located in its
file. -/
theorem map_findings_eq {reports : List Report} (h : (reports.map Report.file).Nodup) :
    reports.map (·.findings) =
      (reports.map Report.file).map (findingsIn · (reports.flatMap located)) := by
  rw [List.map_map]
  refine List.map_congr_left fun r hr => ?_
  obtain ⟨before, after, rfl⟩ := List.append_of_mem hr
  rw [List.map_append, List.map_cons, List.nodup_middle, List.nodup_cons, List.mem_append,
    not_or] at h
  obtain ⟨⟨hbefore, hafter⟩, -⟩ := h
  show r.findings = findingsIn r.file _
  rw [List.flatMap_append, List.flatMap_cons, findingsIn_append, findingsIn_append,
    findingsIn_eq_nil hbefore, findingsIn_eq_nil hafter, findingsIn_located, List.nil_append,
    List.append_nil]

theorem map_snd_located (reports : List Report) :
    (reports.flatMap located).map (·.2) = reports.flatMap (·.findings) := by
  simp [List.map_flatMap, located, Function.comp_def]

/-- **Findings are read back from JSON without loss.**  The text is well-formed JSON: a list with an
object for every finding, file by file.  An object has no field twice, and its fields give the
finding and the path of its file in slashes.  So the text tells all findings, each with its file,
and the findings of every report if their paths are known and differ. -/
theorem json_read_back (reports others : List Report) :
    (∃ items, Json.Denotes (renderJson reports) (.arr items) ∧
      Json.parse? (renderJson reports) = some (.arr items) ∧
      (∀ item ∈ items, ∃ fields, item = .obj fields ∧ (fields.map (·.1)).Nodup) ∧
      items.map locatedFinding? = (reports.flatMap located).map some) ∧
    (renderJson others = renderJson reports →
      others.flatMap located = reports.flatMap located ∧
      others.flatMap (·.findings) = reports.flatMap (·.findings) ∧
      (others.map file = reports.map file → (reports.map file).Nodup →
        others.map (·.findings) = reports.map (·.findings))) := by
  refine ⟨⟨(reports.flatMap located).map locatedJson, ?_, ?_, ?_, ?_⟩, fun htext => ?_⟩
  · rw [← flatMap_toJsonItems]
    exact Json.denotes_pretty _
  · rw [← flatMap_toJsonItems]
    exact Json.parse?_pretty _
  · exact List.forall_mem_map.2 fun entry _ => nodup_keys_locatedJson entry
  · rw [List.map_map]
    exact List.map_congr_left fun entry _ => locatedFinding?_locatedJson entry
  · have hlocated := renderJson_eq_iff.1 htext
    refine ⟨hlocated, ?_, fun hfiles hnodup => ?_⟩
    · rw [← map_snd_located, ← map_snd_located, hlocated]
    · rw [map_findings_eq hnodup, map_findings_eq (hfiles ▸ hnodup), hfiles, hlocated]

/-- A finding whose texts have quotes, backslashes, control characters and characters outside ASCII,
at the greatest offset. -/
def escapedFinding : Finding where
  argument := "A.\"B\\\n\x01é😀"
  fix := .withheld (.ambiguous ["A\t.B", "\\u0041", "\""])
  message := "Type name 'A.\"B\\\n\x01é😀' is unnecessarily qualified"
  ruleId := "WI01001"
  severity := .warning
  span := { start := maxOffset, len := maxOffset, line := maxLine, column := maxLine }

/-- Two spellings of a path give one text. -/
theorem escaped_finding_read_back :
    let reports : List Report := [⟨"src\\A.cs", "", [escapedFinding]⟩]
    let others : List Report := [⟨"src/A.cs", "A.B", [escapedFinding]⟩]
    renderJson others = renderJson reports ∧ others.map file = reports.map file ∧
      (reports.map file).Nodup ∧ others.map (·.findings) = reports.map (·.findings) := by
  intro reports others
  have hfiles : others.map file = reports.map file := by decide
  have htext : renderJson others = renderJson reports := renderJson_eq_iff.2 (by decide)
  have hnodup : (reports.map file).Nodup := by simp [reports]
  exact ⟨htext, hfiles, hnodup, ((json_read_back reports others).2 htext).2.2 hfiles hnodup⟩

end Report

end Unqualify
