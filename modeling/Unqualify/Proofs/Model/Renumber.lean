import Unqualify.Analysis
import Unqualify.Proofs.Scan.Preorder
import Mathlib.Data.List.Basic
import Mathlib.Logic.Function.Basic
import Mathlib.Tactic.SplitIfs

/-!
# Tables with other numbers

The number of a type depends on the order in which types were added, and nothing else should.  A
table is a renumbering of another one (`SymbolTable.Renumbers`) when it has the same namespaces and
the same types under other numbers, with containers, nested types and the index renumbered
accordingly.

Every question to the table and to a file then has the renumbered answer, function by function, and
what the rule sees, descriptions and looked-up names, does not change at all
(`SymbolTable.Renumbers.resolve_eq`, `SymbolTable.Renumbers.lookup_eq`).
-/

namespace Unqualify

variable {f : TypeId → TypeId}

/-- A type with its container and its nested types renumbered. -/
def TypeSymbol.renumber (f : TypeId → TypeId) (s : TypeSymbol) : TypeSymbol :=
  { s with container := s.container.map f, nested := s.nested.map fun _ id => f id }

theorem TypeSymbol.nested_renumber (s : TypeSymbol) (name : String) :
    (s.renumber f).nested[name]? = s.nested[name]?.map f :=
  Std.ExtTreeMap.getElem?_map

/-- An entity with its type renumbered. -/
def Entity.renumber (f : TypeId → TypeId) : Entity → Entity
  | localName name => localName name
  | member owner name => member (f owner) name
  | nameSpace name => nameSpace name
  | type id => type (f id)

theorem Entity.renumber_injective (hf : Function.Injective f) :
    Function.Injective (Entity.renumber f) := by
  intro a b h
  cases a <;> cases b <;> simp_all [renumber, hf.eq_iff]

/-- A binding with its entities renumbered. -/
def Binding.renumber (f : TypeId → TypeId) : Binding → Binding
  | ambiguous candidates => ambiguous (candidates.map (Entity.renumber f))
  | found entity => found (entity.renumber f)
  | notFound => notFound

/-- Renumbering apart, an entity that stands twice in a list counts once. -/
theorem Entity.eraseDups_map_renumber (hf : Function.Injective f) (es : List Entity) :
    (es.map (Entity.renumber f)).eraseDups = es.eraseDups.map (Entity.renumber f) := by
  cases es with
  | nil => rfl
  | cons e es =>
    have hfilter : (es.map (Entity.renumber f)).filter (fun x => !x == e.renumber f) =
        (es.filter fun x => !x == e).map (Entity.renumber f) := by
      rw [List.filter_map]
      congr 1
      refine List.filter_congr fun x _ => ?_
      simp [(Entity.renumber_injective hf).eq_iff]
    rw [List.map_cons, List.eraseDups_cons, List.eraseDups_cons, List.map_cons, hfilter,
      eraseDups_map_renumber hf]
termination_by es.length
decreasing_by
  have := List.length_filter_le (fun x => !x == e) es
  simp only [List.length_cons]
  omega

/-- The meaning of names in a file when the program has another table. -/
def Model.withTable (m : Model) (t : SymbolTable) : Model := { m with table := t }

namespace SymbolTable

/-- The table `t'` is the table `t` with the types renumbered by `f`. -/
structure Renumbers (f : TypeId → TypeId) (t t' : SymbolTable) : Prop where
  /-- Different types get different numbers. -/
  injective : Function.Injective f
  /-- The types are the same. -/
  types_eq : ∀ id, t'.types[f id]? = t.types[id]?.map (TypeSymbol.renumber f)
  /-- They are found under the same full names. -/
  byFullName_eq : ∀ fullName : String, t'.byFullName[fullName]? = t.byFullName[fullName]?.map f
  /-- The namespaces are the same. -/
  namespaces_eq : t'.namespaces = t.namespaces

namespace Renumbers

variable {t t' : SymbolTable} (h : Renumbers f t t')

include h

/-! ### Questions to a table -/

theorem topLevelType?_eq (space name : String) :
    t'.topLevelType? space name = (t.topLevelType? space name).map f := by
  simp only [topLevelType?, h.byFullName_eq, Option.bind_eq_bind]
  cases t.byFullName[Name.join space name]? with
  | none => rfl
  | some id =>
    simp only [Option.map_some, Option.bind_some, h.types_eq]
    cases t.types[id]? with
    | none => rfl
    | some s => cases hc : s.container <;> simp [TypeSymbol.renumber, hc]

theorem childNamespace?_eq (space name : String) :
    t'.childNamespace? space name = t.childNamespace? space name := by
  simp only [childNamespace?, h.namespaces_eq]

theorem memberOf?_eq (e : Entity) (name : String) :
    t'.memberOf? (e.renumber f) name = (t.memberOf? e name).map (Entity.renumber f) := by
  cases e with
  | localName x => rfl
  | member owner x => rfl
  | nameSpace space =>
    simp only [Entity.renumber, memberOf?, h.topLevelType?_eq, h.childNamespace?_eq]
    cases t.topLevelType? space name with
    | some id => rfl
    | none => cases t.childNamespace? space name <;> rfl
  | type id =>
    simp only [Entity.renumber, memberOf?, h.types_eq, Option.bind_eq_bind]
    cases t.types[id]? with
    | none => rfl
    | some s =>
      simp only [Option.map_some, Option.bind_some, s.nested_renumber]
      cases s.nested[name]? with
      | some inner => rfl
      | none =>
        cases hm : s.members.contains name <;> simp [TypeSymbol.renumber, hm, Entity.renumber]

theorem follow?_eq (e : Entity) (names : List String) :
    t'.follow? (e.renumber f) names = (t.follow? e names).map (Entity.renumber f) := by
  induction names generalizing e with
  | nil => rfl
  | cons name names ih =>
    rw [follow?, follow?, h.memberOf?_eq]
    cases t.memberOf? e name with
    | none => rfl
    | some e' => exact ih e'

theorem resolvePath?_eq (path : String) :
    t'.resolvePath? path = (t.resolvePath? path).map (Entity.renumber f) :=
  h.follow?_eq (.nameSpace "") (Name.segments path)

theorem fullName?_eq (id : TypeId) : t'.fullName? (f id) = t.fullName? id := by
  rw [fullName?, fullName?, h.types_eq, Option.map_map]
  rfl

/-- **A renumbered entity has the same description.** -/
theorem describe_eq (e : Entity) : t'.describe (e.renumber f) = t.describe e := by
  cases e with
  | localName name => rfl
  | nameSpace name => rfl
  | member owner name =>
    simp only [Entity.renumber, describe, h.types_eq]
    cases t.types[owner]? <;> rfl
  | type id =>
    simp only [Entity.renumber, describe, h.types_eq]
    cases t.types[id]? with
    | none => rfl
    | some s => cases hc : s.container <;> simp [TypeSymbol.renumber, hc, h.fullName?_eq]

end Renumbers

namespace Renumbers

/-! ### Questions to a file -/

variable {m : Model} {t' : SymbolTable} (h : Renumbers f m.table t')

include h

omit h in
theorem bindLocal?_eq (offset : Nat) (name : String) :
    (m.withTable t').bindLocal? offset name =
      (m.bindLocal? offset name).map (Entity.renumber f) := by
  cases hlocal : m.outline.locals.any fun l => l.name == name && l.extent.contains offset <;>
    simp [Model.bindLocal?, Model.withTable, hlocal, Entity.renumber]

theorem bindInTypes?_eq (offset : Nat) (name : String) :
    (m.withTable t').bindInTypes? offset name =
      (m.bindInTypes? offset name).map (Entity.renumber f) := by
  rw [Model.bindInTypes?, Model.bindInTypes?, List.map_findSome?]
  congr 1
  funext d
  simp only [Model.withTable, Function.comp_apply, h.byFullName_eq, Option.bind_eq_bind]
  cases m.table.byFullName[d.fullName]? with
  | none => rfl
  | some id => exact h.memberOf?_eq (.type id) name

theorem bindAlias?_eq (usings : List Using) (name : String) :
    (m.withTable t').bindAlias? usings name =
      (m.bindAlias? usings name).map (Entity.renumber f) := by
  rw [Model.bindAlias?, Model.bindAlias?, List.map_findSome?]
  congr 1
  funext u
  simp only [Model.withTable, Function.comp_apply]
  cases u.aliasTarget? name with
  | none => rfl
  | some target => exact h.resolvePath?_eq target

theorem imported?_eq (name : String) (u : Using) :
    (m.withTable t').imported? name u = (m.imported? name u).map (Entity.renumber f) := by
  cases u with
  | aliasOf n target => rfl
  | types path =>
    simp only [Model.imported?, Model.withTable, h.topLevelType?_eq, Option.map_map]
    rfl
  | members path =>
    simp only [Model.imported?, Model.withTable, h.resolvePath?_eq]
    cases m.table.resolvePath? path with
    | none => rfl
    | some e =>
      cases e with
      | type id => exact h.memberOf?_eq (.type id) name
      | localName _ => rfl
      | member _ _ => rfl
      | nameSpace _ => rfl

theorem bindUsings_eq (usings : List Using) (name : String) :
    (m.withTable t').bindUsings usings name = (m.bindUsings usings name).renumber f := by
  have himported : usings.filterMap ((m.withTable t').imported? name) =
      (usings.filterMap (m.imported? name)).map (Entity.renumber f) := by
    rw [List.map_filterMap]
    exact List.filterMap_congr fun u _ => h.imported?_eq name u
  rw [Model.bindUsings, Model.bindUsings, h.bindAlias?_eq, himported,
    Entity.eraseDups_map_renumber h.injective]
  cases m.bindAlias? usings name with
  | some entity => rfl
  | none =>
    match (usings.filterMap (m.imported? name)).eraseDups with
    | [] => rfl
    | [_] => rfl
    | _ :: _ :: _ => rfl

theorem bindLevel_eq (name : String) (level : Level) :
    (m.withTable t').bindLevel name level = (m.bindLevel name level).renumber f := by
  simp only [Model.bindLevel, h.bindUsings_eq]
  simp only [Model.withTable, h.topLevelType?_eq, h.childNamespace?_eq]
  cases m.table.topLevelType? level.name name with
  | some id => rfl
  | none => cases m.table.childNamespace? level.name name <;> rfl

theorem bindLevels_eq (name : String) (levels : List Level) :
    (m.withTable t').bindLevels name levels = (m.bindLevels name levels).renumber f := by
  induction levels with
  | nil => rfl
  | cons level levels ih =>
    rw [Model.bindLevels, Model.bindLevels, h.bindLevel_eq, ih]
    cases m.bindLevel name level <;> rfl

theorem bind_eq (offset : Nat) (name : String) :
    (m.withTable t').bind offset name = (m.bind offset name).renumber f := by
  rw [Model.bind, Model.bind, bindLocal?_eq, h.bindInTypes?_eq, ← Option.map_or]
  cases (m.bindLocal? offset name).or (m.bindInTypes? offset name) with
  | some entity => rfl
  | none => exact h.bindLevels_eq name _

theorem bindAliased?_eq (offset : Nat) (aliasName name : String) :
    (m.withTable t').bindAliased? offset aliasName name =
      (m.bindAliased? offset aliasName name).map (Entity.renumber f) := by
  simp only [Model.bindAliased?, Option.bind_eq_bind]
  split_ifs with hglobal
  · exact h.memberOf?_eq (.nameSpace "") name
  · -- the levels of lookup do not depend on the table
    change ((((m.levels offset).flatMap (·.usings)).findSome? (·.aliasTarget? aliasName)).bind
      t'.resolvePath?).bind (t'.memberOf? · name) = _
    cases ((m.levels offset).flatMap (·.usings)).findSome? (·.aliasTarget? aliasName) with
    | none => rfl
    | some target =>
      simp only [Option.bind_some, h.resolvePath?_eq]
      cases m.table.resolvePath? target with
      | none => rfl
      | some root => exact h.memberOf?_eq root name

theorem entityOf?_eq (e : Expression) :
    (m.withTable t').entityOf? e = (m.entityOf? e).map (Entity.renumber f) := by
  induction e using Expression.inductionOn with
  | identifier name =>
    rw [Model.entityOf?, Model.entityOf?, h.bind_eq]
    cases m.bind name.span.start name.identifier <;> rfl
  | aliased aliasName name span => exact h.bindAliased?_eq _ _ _
  | other children span _ => rw [Model.entityOf?, Model.entityOf?]; rfl
  | access left form ih =>
    rw [Model.entityOf?, Model.entityOf?, ih]
    cases m.entityOf? left with
    | none => rfl
    | some owner => exact h.memberOf?_eq owner form.name.identifier

/-! ### What the rule sees -/

/-- **An expression is described alike.** -/
theorem resolve_eq (e : Expression) : (m.withTable t').resolve e = m.resolve e := by
  rw [Model.resolve, Model.resolve, h.entityOf?_eq]
  cases m.entityOf? e with
  | none => rfl
  | some entity => exact h.describe_eq entity

/-- **A name is looked up alike**, with the same candidates in the same order. -/
theorem lookup_eq (offset : Nat) (name : String) :
    (m.withTable t').lookup offset name = m.lookup offset name := by
  rw [Model.lookup, Model.lookup, h.bind_eq]
  cases m.bind offset name with
  | notFound => rfl
  | found entity => exact congrArg Lookup.unique (h.describe_eq entity)
  | ambiguous candidates =>
    have hnames : (candidates.map (Entity.renumber f)).map (fun c => (t'.describe c).fullName) =
        candidates.map fun c => (m.table.describe c).fullName := by
      rw [List.map_map]
      exact List.map_congr_left fun c _ => congrArg Symbol.fullName (h.describe_eq c)
    exact congrArg (fun names => Lookup.ambiguous (names.mergeSort (· ≤ ·))) hnames

end Renumbers

/-- **The rule gets the same answers in every file.** -/
theorem Renumbers.oracleOf_eq {t t' : SymbolTable} (h : Renumbers f t t') (o : Outline) :
    Analysis.oracleOf t' o = Analysis.oracleOf t o := by
  have hm : Renumbers f (Model.table { table := t, outline := o }) t' := h
  have hresolve := funext hm.resolve_eq
  have hlookup := funext fun offset => funext (hm.lookup_eq offset)
  exact congrArg₂ Oracle.mk hresolve hlookup

end SymbolTable

end Unqualify
