import Unqualify.Proofs.Scan.Report
import Unqualify.Proofs.SymbolTable.Build

/-!
# Shortening a tree

What the offered fixes of a scan do to an expression tree: every access that the scan offers to
shorten becomes its simple name, standing where the access began (`Expression.shorten`).

* `Scanner.entityOf?_shorten`: every node of the tree keeps its meaning.  An offered access is
  replaced by a name whose description is that of the access, and a description determines a
  top-level type; all other nodes follow by congruence.
* `Scanner.findingsOf_shorten`: a second scan reports exactly what the first one withheld a fix
  for.  The operands that disappear with an offered access had nothing to report.

`Scanner.shorten_keeps_meaning` puts both together for every table that can be built.
-/

namespace Unqualify

/-- The name that is left of an access when its qualification goes: it stands where the access
began. -/
def Access.shortName (form : Access) : SimpleName :=
  { form.name with span := { form.name.span with start := form.span.start } }

namespace Expression

mutual

/-- An expression with the accesses that pass a test replaced by their simple names. -/
def shorten (test : Expression → Bool) : Expression → Expression
  | identifier name => identifier name
  | access left form =>
    if test (access left form) then identifier form.shortName else access (shorten test left) form
  | aliased aliasName name span => aliased aliasName name span
  | other children span => other (shortenAll test children) span

/-- Several expressions, each with its accesses shortened. -/
def shortenAll (test : Expression → Bool) : List Expression → List Expression
  | [] => []
  | e :: es => shorten test e :: shortenAll test es

end

variable {test : Expression → Bool}

theorem shortenAll_eq_map (es : List Expression) : shortenAll test es = es.map (shorten test) := by
  induction es with
  | nil => rfl
  | cons e es ih => rw [shortenAll, ih, List.map_cons]

theorem shorten_access_of_test {left : Expression} {form : Access}
    (h : test (access left form) = true) :
    (access left form).shorten test = identifier form.shortName := by
  rw [shorten, if_pos h]

theorem shorten_access_of_not_test {left : Expression} {form : Access}
    (h : test (access left form) = false) :
    (access left form).shorten test = access (left.shorten test) form := by
  rw [shorten, if_neg (by simp [h])]

theorem shorten_other (children : List Expression) (span : Span) :
    (other children span).shorten test = other (children.map (shorten test)) span := by
  rw [shorten, shortenAll_eq_map]

/-- Every node of a shortened tree is what a node of the tree has become. -/
theorem exists_of_mem_preorder_shorten {e e' : Expression} (h : e' ∈ (e.shorten test).preorder) :
    ∃ n ∈ e.preorder, e' = n.shorten test := by
  induction e using Expression.inductionOn with
  | identifier name => exact ⟨_, List.mem_cons_self, List.mem_singleton.1 h⟩
  | aliased aliasName name span => exact ⟨_, List.mem_cons_self, List.mem_singleton.1 h⟩
  | access left form ih =>
    cases ht : test (access left form) with
    | true =>
      rw [shorten_access_of_test ht] at h
      refine ⟨access left form, by simp, ?_⟩
      rw [shorten_access_of_test ht, List.mem_singleton.1 h]
    | false =>
      rw [shorten_access_of_not_test ht, preorder_access, List.mem_cons] at h
      rcases h with rfl | h
      · exact ⟨access left form, by simp, (shorten_access_of_not_test ht).symm⟩
      · obtain ⟨n, hn, rfl⟩ := ih h
        exact ⟨n, by simp [hn], rfl⟩
  | other children span ih =>
    rw [shorten_other, preorder_other, List.mem_cons] at h
    rcases h with rfl | h
    · exact ⟨other children span, by simp, (shorten_other children span).symm⟩
    · obtain ⟨child', hchild', h⟩ := List.mem_flatMap.1 h
      obtain ⟨child, hchild, rfl⟩ := List.mem_map.1 hchild'
      obtain ⟨n, hn, rfl⟩ := ih child hchild h
      refine ⟨n, ?_, rfl⟩
      rw [preorder_other]
      exact List.mem_cons_of_mem _ (List.mem_flatMap.2 ⟨child, hchild, hn⟩)

end Expression

namespace Scanner

variable {s : Scanner} {m : Model}

theorem exists_found_of_lookup {offset : Nat} {name : String} {symbol : Symbol}
    (h : m.lookup offset name = .unique symbol) :
    ∃ entity, m.bind offset name = .found entity ∧ m.table.describe entity = symbol := by
  rw [Model.lookup] at h
  split at h
  · cases h
  · next entity hbind => exact ⟨entity, hbind, Lookup.unique.inj h⟩
  · cases h

/-- The simple name of an offered access denotes what the access denotes. -/
theorem entityOf?_shortName (hwf : m.table.WellFormed) {left : Expression} {form : Access}
    (h : s.offers m.oracle (.access left form) = true) :
    m.entityOf? (.identifier form.shortName) = m.entityOf? (.access left form) := by
  obtain ⟨hsymbol, hlookup⟩ := lookup_of_offers h
  obtain ⟨bound, hbind, hdescribe⟩ := exists_found_of_lookup hlookup
  obtain ⟨entity, hentity, hresolve⟩ := resolve_eq_describe hsymbol
  have htop : m.table.IsTopLevel entity := by
    rw [← SymbolTable.isNamespacedType_describe_iff hwf, ← hresolve]
    exact hsymbol
  -- name and access have one description, and it is that of a top-level type
  have heq : bound = entity :=
    SymbolTable.eq_of_describe_eq hwf htop (hdescribe.trans hresolve)
  calc m.entityOf? (.identifier form.shortName)
      = some bound := by
        rw [Model.entityOf?, show m.bind form.shortName.span.start form.shortName.identifier =
          .found bound from hbind]
    _ = m.entityOf? (.access left form) := by rw [heq, hentity]

/-- **Shortening keeps the meaning of every expression.** -/
theorem entityOf?_shorten (hwf : m.table.WellFormed) (e : Expression) :
    m.entityOf? (e.shorten (s.offers m.oracle)) = m.entityOf? e := by
  induction e using Expression.inductionOn with
  | identifier name => rfl
  | aliased aliasName name span => rfl
  | other children span _ => rw [Expression.shorten_other, Model.entityOf?, Model.entityOf?]
  | access left form ih =>
    cases ht : s.offers m.oracle (.access left form) with
    | true => rw [Expression.shorten_access_of_test ht, entityOf?_shortName hwf ht]
    | false =>
      rw [Expression.shorten_access_of_not_test ht, Model.entityOf?, Model.entityOf?, ih]

theorem resolve_shorten (hwf : m.table.WellFormed) (e : Expression) :
    m.resolve (e.shorten (s.offers m.oracle)) = m.resolve e := by
  rw [Model.resolve, Model.resolve, entityOf?_shorten hwf]

/-- An access that stays is reported as before. -/
theorem scan_access_shorten (hwf : m.table.WellFormed) {left : Expression} {form : Access}
    (h : s.offers m.oracle (.access left form) = false) :
    s.scan m.oracle (.access (left.shorten (s.offers m.oracle)) form) =
      s.scan m.oracle (.access left form) := by
  have hresolve : m.resolve ((Expression.access left form).shorten (s.offers m.oracle)) =
      m.resolve (.access left form) := resolve_shorten hwf _
  rw [Expression.shorten_access_of_not_test h] at hresolve
  exact congrArg (s.report m.oracle form) hresolve

/-- A finding whose fix is withheld. -/
def isWithheld (f : Finding) : Bool := f.rejection?.isSome

/-- When fixes are asked for, a finding offers one or withholds one. -/
theorem isWithheld_eq_not_offers (hfix : s.offerFixes = true) {e : Expression} {f : Finding}
    (h : s.scan m.oracle e = some f) : isWithheld f = !s.offers m.oracle e := by
  obtain ⟨left, form, rfl, -, -⟩ := exists_access_of_scan h
  obtain ⟨-, -, hf⟩ := report_eq_some_iff.1 h
  rw [offers, h, hf]
  simp only [isWithheld, Finding.rejection?, Finding.offeredFix?, fixStatus, hfix, Option.bind_some]
  cases Rule.suggestFix m.oracle form (m.oracle.resolve (.access left form)) <;> rfl

/-- **A second scan reports what the first one withheld a fix for**, and nothing else. -/
theorem findingsOf_shorten (hwf : m.table.WellFormed) (hfix : s.offerFixes = true)
    (e : Expression) :
    s.findingsOf m.oracle (e.shorten (s.offers m.oracle)) =
      (s.findingsOf m.oracle e).filter isWithheld := by
  induction e using Expression.inductionOn with
  | identifier name => rfl
  | aliased aliasName name span => rfl
  | other children span ih =>
    rw [Expression.shorten_other, findingsOf_other, findingsOf_other, List.filter_flatMap,
      List.flatMap_map]
    exact List.flatMap_congr fun child hchild => ih child hchild
  | access left form ih =>
    cases ht : s.offers m.oracle (.access left form) with
    | true =>
      -- the operand goes with the access, and nothing in it was reported
      obtain ⟨f, hscan⟩ := exists_scan_of_offers ht
      rw [Expression.shorten_access_of_test ht, findingsOf_identifier, findingsOf_access, hscan,
        findingsOf_left hwf hscan]
      simp [isWithheld_eq_not_offers hfix hscan, ht]
    | false =>
      rw [Expression.shorten_access_of_not_test ht, findingsOf_access, findingsOf_access,
        scan_access_shorten hwf ht, ih, List.filter_append]
      cases hscan : s.scan m.oracle (.access left form) with
      | none => rfl
      | some f => simp [isWithheld_eq_not_offers hfix hscan, ht]

/-- **Offered fixes preserve meaning and converge.**  For every table that can be built, every
file and every expression tree: replace each access that the scan offers to shorten by its simple
name at the same place.  Then every node denotes the entity it denoted before, and so resolves to
the same symbol; every node of the new tree is what a node of the old one has become; and scanning
the new tree gives exactly the findings whose fix was withheld, in the same order and with the
same rejections. -/
theorem shorten_keeps_meaning (updates : List SymbolTable.Update) (outline : Outline) (rule : Rule)
    (root : Expression) :
    let m : Model := { table := SymbolTable.build updates, outline }
    let s : Scanner := { rule, offerFixes := true }
    let short := root.shorten (s.offers m.oracle)
    (∀ e ∈ root.preorder,
      m.entityOf? (e.shorten (s.offers m.oracle)) = m.entityOf? e ∧
        m.resolve (e.shorten (s.offers m.oracle)) = m.resolve e) ∧
    (∀ e' ∈ short.preorder, ∃ e ∈ root.preorder, e' = e.shorten (s.offers m.oracle)) ∧
    (s.scanTree m.oracle .never short).findings =
      (s.scanTree m.oracle .never root).findings.filter isWithheld := by
  intro m s short
  have hwf : m.table.WellFormed := (SymbolTable.reachable_build updates).wellFormed
  refine ⟨fun e _ => ⟨entityOf?_shorten hwf e, resolve_shorten hwf e⟩,
    fun e' he' => Expression.exists_of_mem_preorder_shorten he', ?_⟩
  rw [findings_scanTree_never, findings_scanTree_never]
  exact findingsOf_shorten hwf rfl root

end Scanner

end Unqualify
