import Unqualify.Model
import Unqualify.Proofs.Model.Visible
import Unqualify.Proofs.Scan.Preorder
import Unqualify.Proofs.SymbolTable.Build
import Mathlib.Data.List.Forall2
import Mathlib.Data.List.Perm.Basic
import Mathlib.Data.List.Sort
import Mathlib.Data.String.Basic

/-!
# The order of directives

The directives of a level are gone through twice: the first alias of a name that means something
counts, and without one all entities that are imported under the name are collected, each once.
Whatever the order of the directives in one list and however often each of them stands there, names
mean the same (`Model.directives_act_as_set`), provided that no name is an alias for two different
paths.

Lists of directives are `Alike` when they hold the same directives and the first alias to count is
the same for every name.  Put together with others, they stay alike, so whole levels do, and the
levels of a file.  What comes of binding a name is then the same up to the order of ambiguous
candidates (`Binding.Alike`), which sorting takes away.
-/

namespace Unqualify

/-! ### Lists of directives -/

theorem nodup_eraseDups {α : Type} [BEq α] [LawfulBEq α] (as : List α) : as.eraseDups.Nodup := by
  cases as with
  | nil => simp
  | cons a as =>
    rw [List.eraseDups_cons]
    refine List.nodup_cons.2 ⟨fun hmem => ?_, nodup_eraseDups (as.filter fun b => !b == a)⟩
    simpa using (List.mem_filter.1 (List.mem_eraseDups.1 hmem)).2
termination_by as.length
decreasing_by
  have := List.length_filter_le (fun b => !b == a) as
  simp only [List.length_cons]
  omega

/-- Without its repetitions, a list is determined by its members up to their order. -/
theorem perm_eraseDups {α : Type} [BEq α] [LawfulBEq α] {as bs : List α}
    (h : ∀ a, a ∈ as ↔ a ∈ bs) : as.eraseDups.Perm bs.eraseDups := by
  refine (List.perm_ext_iff_of_nodup (nodup_eraseDups as) (nodup_eraseDups bs)).2 fun a => ?_
  rw [List.mem_eraseDups, List.mem_eraseDups, h a]

/-- When all members of a list that give something give the same, what the first of them gives does
not depend on the order. -/
theorem findSome?_eq_of_mem_iff {α β : Type} {f : α → Option β} {as bs : List α}
    (hmem : ∀ a, a ∈ as ↔ a ∈ bs)
    (hagree : ∀ a ∈ as, ∀ b ∈ as, ∀ x y, f a = some x → f b = some y → x = y) :
    as.findSome? f = bs.findSome? f := by
  cases has : as.findSome? f with
  | none =>
    rw [List.findSome?_eq_none_iff] at has
    exact (List.findSome?_eq_none_iff.2 fun b hb => has b ((hmem b).2 hb)).symm
  | some x =>
    obtain ⟨a, ha, hax⟩ := List.exists_of_findSome?_eq_some has
    have hsome : (bs.findSome? f).isSome :=
      List.findSome?_isSome_iff.2 ⟨a, (hmem a).1 ha, by rw [hax]; rfl⟩
    obtain ⟨y, hy⟩ := Option.isSome_iff_exists.1 hsome
    obtain ⟨b, hb, hby⟩ := List.exists_of_findSome?_eq_some hy
    rw [hy, hagree a ha b ((hmem b).2 hb) x y hax hby]

namespace Using

/-- Two lists hold the same directives, in any order and each of them any number of times. -/
def SameSet (us us' : List Using) : Prop := ∀ u, u ∈ us ↔ u ∈ us'

/-- No name is an alias for two different paths. -/
def AliasesAgree (us : List Using) : Prop :=
  ∀ name target target', aliasOf name target ∈ us → aliasOf name target' ∈ us → target = target'

/-- What the first alias of a name gives whose path is good for something. -/
def firstTarget? {β : Type} (us : List Using) (name : String) (f : String → Option β) : Option β :=
  us.findSome? fun u => (u.aliasTarget? name).bind f

/-- Two lists of directives give the same aliases and import the same. -/
structure Alike (us us' : List Using) : Prop where
  /-- They hold the same directives. -/
  same : SameSet us us'
  /-- Of every name, the alias that counts is the same. -/
  firstTarget?_eq : ∀ (name : String) {β : Type} (f : String → Option β),
    firstTarget? us name f = firstTarget? us' name f

theorem aliasTarget?_eq_some_iff {u : Using} {name target : String} :
    u.aliasTarget? name = some target ↔ u = aliasOf name target := by
  cases u with
  | types path => simp [aliasTarget?]
  | members path => simp [aliasTarget?]
  | aliasOf n path =>
    simp only [aliasTarget?, aliasOf.injEq]
    split_ifs with hn <;> simp [hn]

/-- **The same directives are alike**, as long as their aliases agree. -/
theorem SameSet.alike {us us' : List Using} (h : SameSet us us') (hagree : AliasesAgree us) :
    Alike us us' where
  same := h
  firstTarget?_eq := by
    intro name β f
    refine findSome?_eq_of_mem_iff h fun u hu v hv x y hx hy => ?_
    obtain ⟨target, htarget, hx⟩ := Option.bind_eq_some_iff.1 hx
    obtain ⟨target', htarget', hy⟩ := Option.bind_eq_some_iff.1 hy
    -- both directives are the alias
    obtain rfl := aliasTarget?_eq_some_iff.1 htarget
    obtain rfl := aliasTarget?_eq_some_iff.1 htarget'
    rw [hagree name target target' hu hv] at hx
    exact Option.some.inj (hx.symm.trans hy)

theorem Alike.refl (us : List Using) : Alike us us :=
  ⟨fun _ => Iff.rfl, fun _ _ _ => rfl⟩

theorem Alike.append {us us' vs vs' : List Using} (hu : Alike us us') (hv : Alike vs vs') :
    Alike (us ++ vs) (us' ++ vs') where
  same := by
    intro u
    rw [List.mem_append, List.mem_append, hu.same u, hv.same u]
  firstTarget?_eq := by
    intro name β f
    have hus : us.findSome? _ = us'.findSome? _ := hu.firstTarget?_eq name f
    have hvs : vs.findSome? _ = vs'.findSome? _ := hv.firstTarget?_eq name f
    rw [firstTarget?, firstTarget?, List.findSome?_append, List.findSome?_append, hus, hvs]

theorem Alike.flatMap {α : Type} {f : α → List Using} {as bs : List α}
    (h : List.Forall₂ (fun a b => Alike (f a) (f b)) as bs) :
    Alike (as.flatMap f) (bs.flatMap f) := by
  induction h with
  | nil => exact .refl []
  | cons hfirst _ ih =>
    rw [List.flatMap_cons, List.flatMap_cons]
    exact hfirst.append ih

end Using

/-! ### Files with the same scopes -/

/-- The blocks differ at most in how their directives are listed. -/
structure NamespaceBlock.Alike (b b' : NamespaceBlock) : Prop where
  name_eq : b.name = b'.name
  extent_eq : b.extent = b'.extent
  usings : Using.Alike b.usings b'.usings

theorem NamespaceBlock.Alike.refl (b : NamespaceBlock) : b.Alike b := ⟨rfl, rfl, .refl _⟩

/-- The levels differ at most in how their directives are listed. -/
structure Level.Alike (l l' : Level) : Prop where
  name_eq : l.name = l'.name
  usings : Using.Alike l.usings l'.usings

namespace Outline

/-- The directives of one list are listed in another order, repeated, or no longer repeated. -/
inductive Rearranged (o : Outline) : Outline → Prop
  /-- Those of the file. -/
  | inFile {us : List Using} (same : Using.SameSet o.usings us)
    (agree : Using.AliasesAgree o.usings) : Rearranged o { o with usings := us }
  /-- Those of one namespace block. -/
  | inBlock {before after : List NamespaceBlock} {b : NamespaceBlock} {us : List Using}
    (split : o.blocks = before ++ b :: after) (same : Using.SameSet b.usings us)
    (agree : Using.AliasesAgree b.usings) :
    Rearranged o { o with blocks := before ++ { b with usings := us } :: after }

/-- The files have the same scopes, with directives that are alike. -/
structure Alike (o o' : Outline) : Prop where
  types_eq : o.types = o'.types
  locals_eq : o.locals = o'.locals
  usings : Using.Alike o.usings o'.usings
  blocks : List.Forall₂ NamespaceBlock.Alike o.blocks o'.blocks

theorem Rearranged.alike {o o' : Outline} (h : o.Rearranged o') : o.Alike o' := by
  have hrefl (bs : List NamespaceBlock) : List.Forall₂ NamespaceBlock.Alike bs bs :=
    List.forall₂_same.2 fun b _ => .refl b
  cases h with
  | inFile same agree => exact ⟨rfl, rfl, same.alike agree, hrefl _⟩
  | @inBlock before after b us split same agree =>
    refine ⟨rfl, rfl, .refl _, ?_⟩
    rw [split]
    exact List.rel_append (hrefl before) (.cons ⟨rfl, rfl, same.alike agree⟩ (hrefl after))

end Outline

/-- The same comes of binding, up to the order of ambiguous candidates. -/
inductive Binding.Alike : Binding → Binding → Prop
  | ambiguous {candidates candidates' : List Entity} (perm : candidates.Perm candidates') :
    Alike (.ambiguous candidates) (.ambiguous candidates')
  | found (entity : Entity) : Alike (.found entity) (.found entity)
  | notFound : Alike .notFound .notFound

theorem Binding.Alike.refl (b : Binding) : b.Alike b := by
  cases b with
  | ambiguous candidates => exact .ambiguous (.refl _)
  | found entity => exact .found entity
  | notFound => exact .notFound

namespace Model

variable {table : SymbolTable} {o o' : Outline}

/-! ### Levels of lookup -/

/-- Blocks that are alike have alike innermost blocks. -/
theorem innermost?_alike {bs bs' : List NamespaceBlock}
    (h : List.Forall₂ NamespaceBlock.Alike bs bs') :
    (innermost? bs).map (fun b => (b.name, b.extent)) =
      (innermost? bs').map (fun b => (b.name, b.extent)) := by
  induction h with
  | nil => rfl
  | @cons b b' bs bs' hb _ ih =>
    have hpair : (b.name, b.extent) = (b'.name, b'.extent) := by rw [hb.name_eq, hb.extent_eq]
    rw [innermost?, innermost?]
    cases hc : innermost? bs with
    | none =>
      cases hc' : innermost? bs' with
      | none => exact congrArg some hpair
      | some c' => simp [hc, hc'] at ih
    | some c =>
      cases hc' : innermost? bs' with
      | none => simp [hc, hc'] at ih
      | some c' =>
        have hcpair : (c.name, c.extent) = (c'.name, c'.extent) := by simpa [hc, hc'] using ih
        have hcextent : c.extent = c'.extent := congrArg Prod.snd hcpair
        simp only [hb.extent_eq, hcextent]
        split_ifs
        · exact congrArg some hcpair
        · exact congrArg some hpair

theorem levels_alike (table : SymbolTable) (h : o.Alike o') (offset : Nat) :
    List.Forall₂ Level.Alike ((Model.mk table o).levels offset)
      ((Model.mk table o').levels offset) := by
  have haround : List.Forall₂ NamespaceBlock.Alike
      (o.blocks.filter (·.extent.contains offset)) (o'.blocks.filter (·.extent.contains offset)) :=
    List.rel_filter (fun b b' hb => by simp only [hb.extent_eq]) h.blocks
  have hname : (innermost? (o.blocks.filter (·.extent.contains offset))).map (·.name) =
      (innermost? (o'.blocks.filter (·.extent.contains offset))).map (·.name) := by
    have := congrArg (Option.map Prod.fst) (innermost?_alike haround)
    simpa [Function.comp_def] using this
  simp only [levels, hname]
  refine List.rel_append ?_ (.cons ⟨rfl, h.usings⟩ .nil)
  rw [List.forall₂_map_left_iff, List.forall₂_map_right_iff]
  refine List.forall₂_same.2 fun level _ => ⟨rfl, Using.Alike.flatMap ?_⟩
  -- at every level the same blocks contribute
  have hlevel := List.rel_filter (p := (·.name == level)) (q := (·.name == level))
    (fun b b' hb => by simp only [hb.name_eq]) haround
  exact hlevel.imp fun b b' hb => hb.usings

/-! ### Binding -/

theorem bindAlias?_eq_firstTarget? (m : Model) (us : List Using) (name : String) :
    m.bindAlias? us name = Using.firstTarget? us name m.table.resolvePath? := rfl

theorem bindUsings_alike (m : Model) {us us' : List Using} (h : Using.Alike us us')
    (name : String) : (m.bindUsings us name).Alike (m.bindUsings us' name) := by
  rw [bindUsings, bindUsings, bindAlias?_eq_firstTarget?, bindAlias?_eq_firstTarget?,
    h.firstTarget?_eq]
  cases Using.firstTarget? us' name m.table.resolvePath? with
  | some entity => exact .found entity
  | none =>
    have hperm : (us.filterMap (m.imported? name)).eraseDups.Perm
        (us'.filterMap (m.imported? name)).eraseDups := by
      refine perm_eraseDups fun e => ?_
      rw [List.mem_filterMap, List.mem_filterMap]
      exact exists_congr fun u => and_congr_left fun _ => h.same u
    -- how many candidates there are decides, and that does not depend on their order
    match hl : (us.filterMap (m.imported? name)).eraseDups,
      hl' : (us'.filterMap (m.imported? name)).eraseDups with
    | [], l' =>
      rw [hl, hl'] at hperm
      obtain rfl := hperm.nil_eq
      exact .notFound
    | [entity], l' =>
      rw [hl, hl'] at hperm
      obtain rfl := hperm.singleton_eq
      exact .found entity
    | a :: b :: l, [] =>
      rw [hl, hl'] at hperm
      cases hperm.eq_nil
    | a :: b :: l, [entity] =>
      rw [hl, hl'] at hperm
      cases hperm.eq_singleton
    | a :: b :: l, c :: d :: l' =>
      rw [hl, hl'] at hperm
      exact .ambiguous hperm

theorem bindLevel_alike (m : Model) {l l' : Level} (h : l.Alike l') (name : String) :
    (m.bindLevel name l).Alike (m.bindLevel name l') := by
  rw [bindLevel, bindLevel, h.name_eq]
  cases m.table.topLevelType? l'.name name with
  | some id => exact .found _
  | none =>
    cases m.table.childNamespace? l'.name name with
    | some space => exact .found _
    | none => exact bindUsings_alike m h.usings name

theorem bindLevels_alike (m : Model) {ls ls' : List Level} (h : List.Forall₂ Level.Alike ls ls')
    (name : String) : (m.bindLevels name ls).Alike (m.bindLevels name ls') := by
  induction h with
  | nil => exact .notFound
  | @cons l l' ls ls' hl _ ih =>
    rw [bindLevels, bindLevels]
    have hlevel := bindLevel_alike m hl name
    generalize m.bindLevel name l = b, m.bindLevel name l' = b' at hlevel
    cases hlevel with
    | ambiguous perm => exact .ambiguous perm
    | found entity => exact .found entity
    | notFound => exact ih

/-- **In files with the same scopes the same comes of binding a name.** -/
theorem bind_alike (table : SymbolTable) (h : o.Alike o') (offset : Nat) (name : String) :
    ((Model.mk table o).bind offset name).Alike ((Model.mk table o').bind offset name) := by
  have hlocal : (Model.mk table o').bindLocal? offset name =
      (Model.mk table o).bindLocal? offset name := by
    simp only [bindLocal?, h.locals_eq]
  have htypes : (Model.mk table o').bindInTypes? offset name =
      (Model.mk table o).bindInTypes? offset name := by
    simp only [bindInTypes?, typesAround, h.types_eq]
  have hlevels : ∀ ls, (Model.mk table o').bindLevels name ls =
      (Model.mk table o).bindLevels name ls := bindLevels_congr name
  rw [bind, bind, hlocal, htypes, hlevels]
  cases ((Model.mk table o).bindLocal? offset name).or
      ((Model.mk table o).bindInTypes? offset name) with
  | some entity => exact .found entity
  | none => exact bindLevels_alike ⟨table, o⟩ (levels_alike table h offset) name

theorem bindAliased?_eq_of_alike (h : o.Alike o') (offset : Nat) (aliasName name : String) :
    (Model.mk table o').bindAliased? offset aliasName name =
      (Model.mk table o).bindAliased? offset aliasName name := by
  -- the innermost alias counts, found in the directives of all levels together
  have husings := Using.Alike.flatMap (f := Level.usings)
    ((levels_alike table h offset).imp fun _ _ hl => hl.usings)
  have htarget := husings.firstTarget?_eq aliasName some
  simp only [Using.firstTarget?, Option.bind_fun_some] at htarget
  simp only [bindAliased?, htarget]

theorem entityOf?_eq_of_alike (h : o.Alike o') (e : Expression) :
    (Model.mk table o').entityOf? e = (Model.mk table o).entityOf? e := by
  induction e using Expression.inductionOn with
  | identifier name =>
    rw [entityOf?, entityOf?]
    have hbind := bind_alike table h name.span.start name.identifier
    generalize (Model.mk table o).bind name.span.start name.identifier = b,
      (Model.mk table o').bind name.span.start name.identifier = b' at hbind
    cases hbind <;> rfl
  | access left form ih => rw [entityOf?, entityOf?, ih]
  | aliased aliasName name span => exact bindAliased?_eq_of_alike h _ _ _
  | other children span _ => rw [entityOf?, entityOf?]

/-! ### Answers -/

/-- Sorting forgets the order of names. -/
theorem mergeSort_eq_of_perm {names names' : List String} (h : names.Perm names') :
    names.mergeSort (· ≤ ·) = names'.mergeSort (· ≤ ·) := by
  have hsorted (l : List String) : (l.mergeSort (· ≤ ·)).Pairwise (· ≤ ·) :=
    List.pairwise_mergeSort' (· ≤ ·) l
  have hperm : (names.mergeSort (· ≤ ·)).Perm (names'.mergeSort (· ≤ ·)) :=
    ((List.mergeSort_perm names _).trans h).trans (List.mergeSort_perm names' _).symm
  exact hperm.eq_of_pairwise (fun _ _ _ _ => le_antisymm) (hsorted names) (hsorted names')

/-- **Directives of one list act as a set.**  Take any table and any file, and list the directives
of the file itself or of one of its namespace blocks in another order, repeat some of them or take
repetitions away.  If no name is an alias for two different paths in that list, then every name
means the same at every offset, with the same candidates in the same order where it is ambiguous,
and every expression denotes the same. -/
theorem directives_act_as_set (table : SymbolTable) {o o' : Outline} (h : o.Rearranged o') :
    (∀ offset name,
      (Model.mk table o').lookup offset name = (Model.mk table o).lookup offset name) ∧
      ∀ e, (Model.mk table o').resolve e = (Model.mk table o).resolve e := by
  refine ⟨fun offset name => ?_, fun e => ?_⟩
  · have hbind := bind_alike table h.alike offset name
    rw [lookup, lookup]
    generalize (Model.mk table o).bind offset name = b,
      (Model.mk table o').bind offset name = b' at hbind
    cases hbind with
    | ambiguous perm => exact congrArg Lookup.ambiguous (mergeSort_eq_of_perm (perm.map _)).symm
    | found entity => rfl
    | notFound => rfl
  · rw [resolve, resolve, entityOf?_eq_of_alike h.alike]

/-- A file with one block, which lists these directives. -/
def blockWith (us : List Using) : Outline :=
  { blocks := [{ name := "N", extent := ⟨0, 40⟩, usings := us }], usings := [.types "C"] }

/-- Two imports of one namespace count once.  The type is ambiguous with that of the other
namespace; its candidates are found in another order and still listed in the same one. -/
theorem lookup_of_repeated_import :
    let us : List Using := [.types "B", .aliasOf "X" "A.T", .types "A", .types "B"]
    let us' : List Using := [.types "A", .types "B", .aliasOf "X" "A.T"]
    let table := SymbolTable.build [.library "B.T", .library "A.T", .library "C.T"]
    let m : Model := ⟨table, blockWith us⟩
    let m' : Model := ⟨table, blockWith us'⟩
    (blockWith us).Rearranged (blockWith us') ∧
      m.bind 9 "T" = .ambiguous [.type 0, .type 1] ∧
      m'.bind 9 "T" = .ambiguous [.type 1, .type 0] ∧ m'.lookup 9 "T" = m.lookup 9 "T" ∧
      m'.lookup 9 "X" = m.lookup 9 "X" := by
  intro us us' table m m'
  have hsame : Using.SameSet us us' := by
    intro u
    simp only [us, us', List.mem_cons, List.not_mem_nil, or_false]
    tauto
  have hagree : Using.AliasesAgree us := by
    intro name target target' hmem hmem'
    simp [us] at hmem hmem'
    rw [hmem.2, hmem'.2]
  have hblocks : (blockWith us).blocks = [] ++ ⟨"N", ⟨0, 40⟩, us⟩ :: [] := rfl
  have h : (blockWith us).Rearranged (blockWith us') := .inBlock hblocks hsame hagree
  have hlookup := (directives_act_as_set table h).1
  refine ⟨h, ?_, ?_, hlookup 9 "T", hlookup 9 "X"⟩
  · decide +kernel
  · decide +kernel

end Model

end Unqualify
