import Unqualify.Analysis
import Unqualify.Proofs.Scan.Preorder
import Unqualify.Proofs.SymbolTable.Entity

/-!
# What is reported

A scan reports the accesses that denote a type directly inside a namespace
(`Scanner.report_eq_some_iff`), and offers to shorten one when its simple name means the same
type where the access stands (`Scanner.lookup_of_offers`).

In a file with a well-formed table the left operand of a reported access denotes a namespace, and
so does every access further left.  So nothing below a reported access is reported
(`Scanner.findingsOf_left`): a chain of accesses is reported once.
-/

namespace Unqualify

/-- Who answers the rule's questions about the names of a file. -/
abbrev Model.oracle (m : Model) : Oracle := Analysis.oracleOf m.table m.outline

namespace Scanner

variable {s : Scanner} {oracle : Oracle}

/-- What a scan says about fixing an access that denotes `symbol`. -/
def fixStatus (s : Scanner) (oracle : Oracle) (form : Access) (symbol : Symbol) : FixStatus :=
  if s.offerFixes then
    match Rule.suggestFix oracle form symbol with
    | .ok fix => .offered fix
    | .error rejection => .withheld rejection
  else
    .notRequested

theorem report_eq_some_iff {form : Access} {symbol : Symbol} {f : Finding} :
    s.report oracle form symbol = some f ↔
      symbol.isNamespacedType = true ∧ form.text ≠ form.name.text ∧
        f = { argument := form.text, fix := s.fixStatus oracle form symbol,
              message := s.rule.message form.text, ruleId := s.rule.id,
              severity := s.rule.severity, span := form.span } := by
  simp only [report, Rule.evaluate, fixStatus]
  by_cases hc : symbol.isNamespacedType = true ∧ form.text ≠ form.name.text
  · rw [if_pos hc, Option.map_some, Option.some.injEq]
    cases s.offerFixes
    · simp [hc.1, hc.2, eq_comm]
    · cases Rule.suggestFix oracle form symbol <;> simp [hc.1, hc.2, eq_comm]
  · rw [if_neg hc]
    simp only [Option.map_none, reduceCtorEq, false_iff]
    rintro ⟨hsymbol, hqualified, -⟩
    exact hc ⟨hsymbol, hqualified⟩

/-- Only accesses are reported, and only those that denote a type directly in a namespace. -/
theorem exists_access_of_scan {e : Expression} {f : Finding} (h : s.scan oracle e = some f) :
    ∃ left form, e = .access left form ∧ f.span = form.span ∧
      (oracle.resolve e).isNamespacedType = true := by
  cases e with
  | access left form =>
    obtain ⟨hsymbol, -, rfl⟩ := report_eq_some_iff.1 h
    exact ⟨left, form, rfl, rfl, hsymbol⟩
  | identifier name => cases h
  | aliased aliasName name span => cases h
  | other children span => cases h

theorem suggestFix_eq_ok_iff {form : Access} {symbol : Symbol} {fix : Fix} :
    Rule.suggestFix oracle form symbol = .ok fix ↔
      oracle.lookup form.span.start form.name.identifier = .unique symbol ∧
        fix = { span := Rule.qualifierSpan form, replacement := "" } := by
  rw [Rule.suggestFix]
  cases oracle.lookup form.span.start form.name.identifier with
  | ambiguous candidates => simp [Rule.fixFor]
  | notFound => simp [Rule.fixFor]
  | unique bound =>
    by_cases hb : bound = symbol
    · simp [Rule.fixFor, hb, eq_comm]
    · simp [Rule.fixFor, hb]

/-- A scan offers to shorten a node. -/
def offers (s : Scanner) (oracle : Oracle) (e : Expression) : Bool :=
  ((s.scan oracle e).bind Finding.offeredFix?).isSome

theorem exists_scan_of_offers {e : Expression} (h : s.offers oracle e = true) :
    ∃ f, s.scan oracle e = some f := by
  obtain ⟨fix, hfix⟩ := Option.isSome_iff_exists.1 h
  obtain ⟨f, hf, -⟩ := Option.bind_eq_some_iff.1 hfix
  exact ⟨f, hf⟩

theorem offeredFix?_eq_some_iff {form : Access} {symbol : Symbol} {f : Finding} {fix : Fix}
    (h : s.report oracle form symbol = some f) :
    f.offeredFix? = some fix ↔
      s.offerFixes = true ∧ Rule.suggestFix oracle form symbol = .ok fix := by
  obtain ⟨-, -, rfl⟩ := report_eq_some_iff.1 h
  simp only [Finding.offeredFix?, fixStatus]
  cases s.offerFixes
  · simp
  · cases Rule.suggestFix oracle form symbol <;> simp

/-- **A shortening is offered only where the simple name means the type that the access
denotes.** -/
theorem lookup_of_offers {left : Expression} {form : Access}
    (h : s.offers oracle (.access left form) = true) :
    (oracle.resolve (.access left form)).isNamespacedType = true ∧
      oracle.lookup form.span.start form.name.identifier =
        .unique (oracle.resolve (.access left form)) := by
  obtain ⟨fix, hfix⟩ := Option.isSome_iff_exists.1 h
  obtain ⟨f, hscan, hoffered⟩ := Option.bind_eq_some_iff.1 hfix
  have hreport : s.report oracle form (oracle.resolve (.access left form)) = some f := hscan
  exact ⟨(report_eq_some_iff.1 hreport).1,
    (suggestFix_eq_ok_iff.1 ((offeredFix?_eq_some_iff hreport).1 hoffered).2).1⟩

/-! ### Chains of accesses -/

variable {m : Model}

theorem resolve_eq_describe {e : Expression} (h : (m.resolve e).isNamespacedType = true) :
    ∃ entity, m.entityOf? e = some entity ∧ m.resolve e = m.table.describe entity := by
  cases he : m.entityOf? e with
  | none => simp [Model.resolve, he, Symbol.isNamespacedType, Symbol.unknown] at h
  | some entity => exact ⟨entity, rfl, by rw [Model.resolve, he]⟩

theorem isTopLevel_of_resolve (hwf : m.table.WellFormed) {e : Expression}
    (h : (m.resolve e).isNamespacedType = true) :
    ∃ entity, m.entityOf? e = some entity ∧ m.table.IsTopLevel entity := by
  obtain ⟨entity, he, hdescribe⟩ := resolve_eq_describe h
  rw [hdescribe, SymbolTable.isNamespacedType_describe_iff hwf] at h
  exact ⟨entity, he, h⟩

/-- What denotes a namespace or a top-level type by an access has a namespace left of its dot. -/
theorem entityOf?_left (hwf : m.table.WellFormed) {left : Expression} {form : Access}
    {entity : Entity} (h : m.entityOf? (.access left form) = some entity)
    (hentity : (∃ space, entity = .nameSpace space) ∨ m.table.IsTopLevel entity) :
    ∃ space, m.entityOf? left = some (.nameSpace space) := by
  rw [Model.entityOf?, Option.bind_eq_some_iff] at h
  obtain ⟨owner, howner, hmember⟩ := h
  obtain ⟨space, rfl⟩ := SymbolTable.exists_nameSpace_of_memberOf? hwf hmember hentity
  exact ⟨space, howner⟩

/-- Nothing is reported in an expression that denotes a namespace. -/
theorem findingsOf_eq_nil_of_nameSpace (hwf : m.table.WellFormed) {e : Expression} {space : String}
    (h : m.entityOf? e = some (.nameSpace space)) : s.findingsOf m.oracle e = [] := by
  induction e using Expression.inductionOn generalizing space with
  | identifier name => rfl
  | aliased aliasName name span => rfl
  | other children span ih => simp [Model.entityOf?] at h
  | access left form ih =>
    obtain ⟨inner, hleft⟩ := entityOf?_left hwf h (Or.inl ⟨space, rfl⟩)
    -- the access itself denotes a namespace, and only types are reported
    have hscan : s.scan m.oracle (.access left form) = none := by
      by_contra hne
      obtain ⟨f, hf⟩ := Option.ne_none_iff_exists'.1 hne
      obtain ⟨-, -, -, -, hsymbol⟩ := exists_access_of_scan hf
      change (m.resolve (.access left form)).isNamespacedType = true at hsymbol
      simp [Model.resolve, h, SymbolTable.describe, Symbol.isNamespacedType] at hsymbol
    rw [findingsOf_access, hscan, ih hleft]
    rfl

/-- **A chain is reported once:** nothing is reported left of a reported access. -/
theorem findingsOf_left (hwf : m.table.WellFormed) {left : Expression} {form : Access}
    {f : Finding} (h : s.scan m.oracle (.access left form) = some f) :
    s.findingsOf m.oracle left = [] := by
  obtain ⟨-, -, -, -, hsymbol⟩ := exists_access_of_scan h
  obtain ⟨entity, hentity, htop⟩ := isTopLevel_of_resolve hwf hsymbol
  obtain ⟨space, hleft⟩ := entityOf?_left hwf hentity (Or.inr htop)
  exact findingsOf_eq_nil_of_nameSpace hwf hleft

end Scanner

end Unqualify
