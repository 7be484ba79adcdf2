import Unqualify.Proofs.Model.Namespaces
import Unqualify.Proofs.SymbolTable.Entity
import Unqualify.Proofs.SymbolTable.Outlines
import Unqualify.Proofs.Using.Directive

/-!
# Names without line breaks

Source text may hold line breaks between the parts of a dotted name.  They are lost where names of
namespaces and paths of directives are read (`Outline.compact_ofFile`), and library types are made
of identifiers.  So every full name of a table is on one line when the simple names of the declared
types are (`SymbolTable.onOneLine_ofOutlines`), and a lookup answers with names on one line when it
is asked for one (`Model.onOneLine_lookup`).
-/

namespace Unqualify

/-! ### Texts on one line -/

namespace Text

/-- The text holds no newline. -/
def OneLine (s : String) : Prop := '\n' ∉ s.toList

instance : DecidablePred OneLine := fun s => inferInstanceAs (Decidable ('\n' ∉ s.toList))

@[simp] theorem oneLine_append {s t : String} : OneLine (s ++ t) ↔ OneLine s ∧ OneLine t := by
  rw [OneLine, String.toList_append, List.mem_append, not_or]
  rfl

theorem oneLine_of_no_blank {s : String} (h : ∀ c ∈ s.toList, isBlank c = false) : OneLine s :=
  fun hmem => absurd (h '\n' hmem) (by decide)

theorem oneLine_intercalate_iff {sep : String} (hsep : OneLine sep) {xs : List String} :
    OneLine (sep.intercalate xs) ↔ ∀ x ∈ xs, OneLine x := by
  induction xs with
  | nil => simp [OneLine]
  | cons x xs ih =>
    cases xs with
    | nil => simp
    | cons y ys =>
      rw [String.intercalate_cons_cons, oneLine_append, oneLine_append, ih, List.forall_mem_cons]
      simp [hsep]

end Text

open Text (OneLine)

namespace Name

theorem oneLine_ofSegments_iff {xs : List String} :
    OneLine (ofSegments xs) ↔ ∀ x ∈ xs, OneLine x :=
  Text.oneLine_intercalate_iff (by decide)

theorem oneLine_segments {name : String} (h : OneLine name) : ∀ x ∈ segments name, OneLine x := by
  rw [← ofSegments_segments name] at h
  exact oneLine_ofSegments_iff.1 h

theorem oneLine_join {space name : String} (hspace : OneLine space) (hname : OneLine name) :
    OneLine (join space name) := by
  rw [join]
  split_ifs
  · exact hname
  · rw [Text.oneLine_append, Text.oneLine_append]
    exact ⟨⟨hspace, by decide⟩, hname⟩

theorem oneLine_of_mem_withParents {name space : String} (h : OneLine name)
    (hspace : space ∈ withParents name) : OneLine space := by
  obtain ⟨k, -, rfl⟩ := mem_withParents.1 hspace
  refine oneLine_ofSegments_iff.2 fun x hx => ?_
  exact oneLine_segments h x (List.mem_of_mem_filter (List.mem_of_mem_take hx))

theorem IsIdentifier.oneLine {s : String} (h : IsIdentifier s) : OneLine s :=
  fun hmem => absurd (h.mem hmem) (by decide +kernel)

end Name

/-! ### Outlines -/

namespace Outline

/-- The names of namespaces and the paths of directives are on one line. -/
structure Compact (o : Outline) : Prop where
  /-- Declared namespaces. -/
  namespaces : ∀ name ∈ o.namespaces, OneLine name
  /-- Directives of the file. -/
  usings : ∀ u ∈ o.usings, OneLine u.path
  /-- Directives in namespaces. -/
  blocks : ∀ b ∈ o.blocks, ∀ u ∈ b.usings, OneLine u.path

theorem compact_of_eq_nil {o : Outline} (hnamespaces : o.namespaces = []) (husings : o.usings = [])
    (hblocks : o.blocks = []) : o.Compact where
  namespaces := by simp [hnamespaces]
  usings := by simp [husings]
  blocks := by simp [hblocks]

theorem Compact.append {a b : Outline} (ha : a.Compact) (hb : b.Compact) : (a ++ b).Compact where
  namespaces := by simpa [or_imp, forall_and] using ⟨ha.namespaces, hb.namespaces⟩
  usings := by simpa [or_imp, forall_and] using ⟨ha.usings, hb.usings⟩
  blocks := List.forall_mem_append.2 ⟨ha.blocks, hb.blocks⟩

variable (src : Source)

theorem oneLine_declaredName? {children : List Tree} {name : String}
    (h : declaredName? src children = some name) : OneLine name := by
  simp only [declaredName?, Option.bind_eq_bind, Option.bind_eq_some_iff] at h
  obtain ⟨t, -, h⟩ := h
  split_ifs at h
  cases h
  exact Text.oneLine_of_no_blank fun c hc => Text.isBlank_of_mem_squeeze (by simpa using hc)

theorem oneLine_path_of_parse? {text : String} {u : Using} (h : Using.parse? text = some u) :
    OneLine u.path :=
  Text.oneLine_of_no_blank (Using.of_parse? h).2.1

theorem oneLine_usingsOf (ts : List Tree) : ∀ u ∈ usingsOf src ts, OneLine u.path := by
  intro u hu
  obtain ⟨t, -, ht⟩ := List.mem_filterMap.1 hu
  split_ifs at ht
  exact oneLine_path_of_parse? ht

/-- A namespace with what stands in it. -/
theorem compact_namespace {full : String} {blocks : List NamespaceBlock} {inside : Outline}
    (hfull : OneLine full) (hblocks : ∀ b ∈ blocks, ∀ u ∈ b.usings, OneLine u.path)
    (hinside : inside.Compact) :
    (({ namespaces := [full], blocks } : Outline) ++ inside).Compact :=
  Compact.append ⟨by simpa using hfull, by simp, hblocks⟩ hinside

mutual

theorem compact_ofMember {space : String} (hspace : OneLine space) (outer : List String) :
    (t : Tree) → (ofMember src space outer t).Compact
  | .node label children => by
    rw [Outline.ofMember]
    split_ifs
    · split
      · exact compact_of_eq_nil rfl rfl rfl
      · next name hname =>
        have hfull : OneLine (Name.join space name) :=
          Name.oneLine_join hspace (oneLine_declaredName? src hname)
        refine compact_namespace hfull ?_ (compact_ofBody hfull [] children)
        intro b hb
        obtain ⟨body, -, rfl⟩ := List.mem_map.1 hb
        exact oneLine_usingsOf src body.children
    · split
      · exact compact_of_eq_nil rfl rfl rfl
      · split_ifs
        · exact compact_of_eq_nil rfl rfl rfl
        · exact (compact_of_eq_nil rfl rfl rfl).append (compact_ofBody hspace _ children)
    · exact compact_of_eq_nil rfl rfl rfl

theorem compact_ofBody {space : String} (hspace : OneLine space) (outer : List String) :
    (ts : List Tree) → (ofBody src space outer ts).Compact
  | [] => by
    rw [Outline.ofBody]
    exact compact_of_eq_nil rfl rfl rfl
  | .node label children :: ts => by
    rw [Outline.ofBody]
    split_ifs
    · exact compact_ofMembers hspace outer children
    · exact compact_ofBody hspace outer ts

theorem compact_ofMembers {space : String} (hspace : OneLine space) (outer : List String) :
    (ts : List Tree) → (ofMembers src space outer ts).Compact
  | [] => by
    rw [Outline.ofMembers]
    exact compact_of_eq_nil rfl rfl rfl
  | t :: ts => by
    rw [Outline.ofMembers]
    refine Compact.append ?_ (compact_ofMembers hspace outer ts)
    split_ifs
    · exact compact_ofMember hspace outer t
    · exact compact_of_eq_nil rfl rfl rfl

end

theorem compact_usings {usings : List Using} (h : ∀ u ∈ usings, OneLine u.path) :
    ({ usings } : Outline).Compact where
  namespaces := by simp
  usings := h
  blocks := by simp

theorem compact_ofTopLevel (fileEnd : Nat) {space : String} (hspace : OneLine space)
    (ts : List Tree) : (ofTopLevel src fileEnd space ts).Compact := by
  induction ts generalizing space with
  | nil =>
    rw [Outline.ofTopLevel]
    exact compact_of_eq_nil rfl rfl rfl
  | cons t ts ih =>
    rw [Outline.ofTopLevel]
    split_ifs
    · exact ih hspace
    · have husings : ∀ u ∈ (Using.parse? (src.covered t.label)).toList, OneLine u.path := by
        intro u hu
        rw [Option.mem_toList] at hu
        exact oneLine_path_of_parse? hu
      exact (compact_usings husings).append (ih hspace)
    · split
      · exact ih hspace
      · next name hname =>
        have hfull : OneLine name := oneLine_declaredName? src hname
        exact compact_namespace hfull (by simp) (ih hfull)
    · exact (compact_ofMember src hspace [] t).append (ih hspace)

/-- **Line breaks between the parts of a name are lost when a file is read.** -/
theorem compact_ofFile (tree : Tree) : (ofFile src tree).Compact :=
  (compact_ofTopLevel src _ (by decide) _).append (compact_of_eq_nil rfl rfl rfl)

end Outline

/-! ### Tables -/

/-- The types around a declared type have names of declared types. -/
theorem TypeDeclaration.oneLine_outer {ds : List TypeDeclaration}
    (henclosed : ∀ d ∈ ds, d.EnclosedIn ds) (hnames : ∀ d ∈ ds, OneLine d.name)
    {d : TypeDeclaration} (hd : d ∈ ds) : ∀ x ∈ d.outer, OneLine x := by
  -- from the declaration outwards, one enclosing type at a time
  induction hlength : d.outer.length generalizing d with
  | zero =>
    rw [List.length_eq_zero_iff.1 hlength]
    simp
  | succ n ih =>
    rcases henclosed d hd with houter | ⟨d', hd', -, houter⟩
    · rw [houter] at hlength
      cases hlength
    · rw [← houter, List.length_append, List.length_singleton] at hlength
      rw [← houter, List.forall_mem_append]
      exact ⟨ih hd' (Nat.add_right_cancel hlength), by simpa using hnames d' hd'⟩

namespace SymbolTable

/-- The full names of the table are on one line. -/
structure OnOneLine (t : SymbolTable) : Prop where
  /-- Namespaces. -/
  namespaces : ∀ space ∈ t.namespaces, OneLine space
  /-- Types. -/
  types : ∀ (id : TypeId) (s : TypeSymbol), t.types[id]? = some s → OneLine s.fullName

/-- **The full names of a table are on one line** when the simple names of types are. -/
theorem onOneLine_ofOutlines {os : List Outline} (hregular : ∀ o ∈ os, o.Regular)
    (hcompact : ∀ o ∈ os, o.Compact) (hnames : ∀ o ∈ os, ∀ d ∈ o.types, OneLine d.name) :
    (ofOutlines os).OnOneLine where
  namespaces := by
    intro space hspace
    obtain ⟨o, ho, name, hname, hmem⟩ := mem_namespaces_ofOutlines.1 hspace
    exact Name.oneLine_of_mem_withParents ((hcompact o ho).namespaces name hname) hmem
  types := by
    intro id s hs
    have henclosed : ∀ d ∈ Outline.declarations os, d.EnclosedIn (Outline.declarations os) :=
      fun d => Outline.enclosedIn_declarations hregular
    have hnames' : ∀ d ∈ Outline.declarations os, OneLine d.name := by
      intro d hd
      obtain ⟨o, ho, hd⟩ := List.mem_flatMap.1 hd
      exact hnames o ho d hd
    obtain ⟨p, hp, hplaced⟩ := (madeFrom_ofOutlines hregular).placed id s hs
    obtain ⟨d, hd, rfl⟩ := TypeDeclaration.exists_path_eq henclosed hp
    have hspace : OneLine d.inNamespace := by
      obtain ⟨o, ho, hd⟩ := List.mem_flatMap.1 hd
      rcases (hregular o ho).declaredIn d hd with hglobal | hmem
      · rw [hglobal]
        decide
      · exact (hcompact o ho).namespaces _ hmem
    rw [hplaced.fullName_eq, TypeDeclaration.fullName_path, TypeDeclaration.fullName]
    refine Name.oneLine_join hspace (Name.oneLine_ofSegments_iff.2 ?_)
    rw [List.forall_mem_append]
    exact ⟨TypeDeclaration.oneLine_outer henclosed hnames' hd, by simpa using hnames' d hd⟩

end SymbolTable

/-! ### Library types -/

namespace LibraryType

theorem oneLine_parts {entry : String} {l : LibraryType} (h : parse? entry = some l) :
    ∀ x ∈ l.parts, OneLine x := by
  rw [parse?] at h
  split_ifs at h with hparts
  obtain rfl := Option.some.inj h
  exact fun x hx => (Name.isIdentifier_iff.1 (List.all_eq_true.1 hparts x hx)).oneLine

theorem compact_outline {entry : String} {l : LibraryType} (h : parse? entry = some l) :
    l.outline.Compact where
  namespaces := by
    intro name hname
    obtain rfl := List.mem_singleton.1 hname
    by_cases hempty : l.inNamespace = ""
    · rw [hempty]
      decide
    · rw [← Name.ofSegments_segments l.inNamespace]
      refine Name.oneLine_ofSegments_iff.2 fun x hx => oneLine_parts h x ?_
      rw [parts, if_neg hempty]
      exact List.mem_append_left _ hx
  usings := by simp [outline]
  blocks := by simp [outline]

theorem oneLine_name_outline {entry : String} {l : LibraryType} (h : parse? entry = some l) :
    ∀ d ∈ l.outline.types, OneLine d.name := by
  intro d hd
  exact oneLine_parts h _ (List.mem_append_right _ (name_of_mem_declarations hd))

end LibraryType

namespace SymbolTable

theorem Update.compact_outline (u : Update) : u.outline.Compact := by
  cases u with
  | file src tree => exact Outline.compact_ofFile src tree
  | library entry =>
    rw [outline]
    cases hl : LibraryType.parse? entry with
    | some l => exact LibraryType.compact_outline hl
    | none => exact Outline.compact_of_eq_nil rfl rfl rfl

theorem onOneLine_build {updates : List Update}
    (hnames : ∀ src tree, .file src tree ∈ updates →
      ∀ d ∈ (Outline.ofFile src tree).types, OneLine d.name) : (build updates).OnOneLine := by
  rw [build_eq_ofOutlines]
  refine onOneLine_ofOutlines (fun _ => regular_outlines) ?_ ?_ <;> rw [List.forall_mem_map]
  · exact fun u _ => u.compact_outline
  · intro u hu
    cases u with
    | file src tree => exact hnames src tree hu
    | library entry =>
      rw [Update.outline]
      cases hl : LibraryType.parse? entry with
      | some l => exact LibraryType.oneLine_name_outline hl
      | none => simp

end SymbolTable

/-! ### Lookups -/

/-- The name that an entity has of its own is on one line. -/
def Entity.OnOneLine : Entity → Prop
  | .localName name => OneLine name
  | .member _ name => OneLine name
  | .nameSpace name => OneLine name
  | .type _ => True

namespace SymbolTable

variable {t : SymbolTable} (ht : t.OnOneLine)

include ht

theorem OnOneLine.describe {e : Entity} (he : e.OnOneLine) : OneLine (t.describe e).fullName := by
  cases e with
  | localName name => exact he
  | nameSpace name => exact he
  | type id =>
    rw [SymbolTable.describe]
    split
    · decide
    · next s hs => exact ht.types id s hs
  | member owner name =>
    rw [SymbolTable.describe]
    split
    · decide
    · next s hs => exact Name.oneLine_join (ht.types owner s hs) he

theorem OnOneLine.memberOf? {e e' : Entity} {name : String} (hname : OneLine name)
    (h : t.memberOf? e name = some e') : e'.OnOneLine := by
  cases e with
  | nameSpace space =>
    rw [SymbolTable.memberOf?] at h
    split at h
    · cases h
      trivial
    · obtain ⟨child, hchild, rfl⟩ := Option.map_eq_some_iff.1 h
      exact ht.namespaces child (childNamespace?_eq_some_iff.1 hchild).2
  | type id =>
    obtain ⟨s, -, ⟨inner, -, rfl⟩ | rfl⟩ := memberOf?_type_eq_some h
    · trivial
    · exact hname
  | localName x => cases h
  | member owner x => cases h

theorem OnOneLine.follow? {e e' : Entity} {names : List String} (he : e.OnOneLine)
    (hnames : ∀ name ∈ names, OneLine name) (h : t.follow? e names = some e') : e'.OnOneLine := by
  induction names generalizing e with
  | nil =>
    cases h
    exact he
  | cons name names ih =>
    rw [SymbolTable.follow?, Option.bind_eq_some_iff] at h
    obtain ⟨e₁, he₁, h⟩ := h
    rw [List.forall_mem_cons] at hnames
    exact ih (ht.memberOf? hnames.1 he₁) hnames.2 h

theorem OnOneLine.resolvePath? {path : String} {e : Entity} (hpath : OneLine path)
    (h : t.resolvePath? path = some e) : e.OnOneLine :=
  have hglobal : (Entity.nameSpace "").OnOneLine := show OneLine "" by decide
  ht.follow? hglobal (Name.oneLine_segments hpath) h

end SymbolTable

/-- The entities that a name is bound to have names on one line. -/
inductive Binding.OnOneLine : Binding → Prop
  /-- So do all candidates. -/
  | ambiguous {candidates : List Entity} (all : ∀ e ∈ candidates, e.OnOneLine) :
    OnOneLine (.ambiguous candidates)
  /-- So does the one entity. -/
  | found {e : Entity} (one : e.OnOneLine) : OnOneLine (.found e)
  /-- There are none. -/
  | notFound : OnOneLine .notFound

/-- The names that a lookup answers with are on one line. -/
inductive Lookup.OnOneLine : Lookup → Prop
  /-- So are the names of all candidates. -/
  | ambiguous {candidates : List String} (all : ∀ name ∈ candidates, OneLine name) :
    OnOneLine (.ambiguous candidates)
  /-- So is the full name of the one symbol. -/
  | unique {symbol : Symbol} (one : OneLine symbol.fullName) : OnOneLine (.unique symbol)
  /-- There are none. -/
  | notFound : OnOneLine .notFound

namespace Model

variable {m : Model} (ht : m.table.OnOneLine) {name : String} (hname : OneLine name)

include ht

theorem onOneLine_bindAlias? {usings : List Using} (husings : ∀ u ∈ usings, OneLine u.path)
    {e : Entity} (h : m.bindAlias? usings name = some e) : e.OnOneLine := by
  obtain ⟨u, hu, hsome⟩ := List.exists_of_findSome?_eq_some h
  obtain ⟨path, hpath, hresolve⟩ := Option.bind_eq_some_iff.1 hsome
  refine ht.resolvePath? ?_ hresolve
  cases u with
  | aliasOf n target =>
    rw [Using.aliasTarget?] at hpath
    split_ifs at hpath
    cases hpath
    exact husings _ hu
  | types path => cases hpath
  | members path => cases hpath

include hname

theorem onOneLine_imported? {u : Using} {e : Entity} (h : m.imported? name u = some e) :
    e.OnOneLine := by
  cases u with
  | aliasOf n target => cases h
  | types path =>
    obtain ⟨id, -, rfl⟩ := Option.map_eq_some_iff.1 h
    trivial
  | members path =>
    rw [imported?] at h
    split at h
    · exact ht.memberOf? hname h
    · cases h

theorem onOneLine_bindUsings {usings : List Using} (husings : ∀ u ∈ usings, OneLine u.path) :
    (m.bindUsings usings name).OnOneLine := by
  rw [bindUsings]
  split
  · next halias => exact .found (onOneLine_bindAlias? ht husings halias)
  · have hmem : ∀ e ∈ (usings.filterMap (m.imported? name)).eraseDups, e.OnOneLine := by
      intro e he
      obtain ⟨u, -, hu⟩ := List.mem_filterMap.1 (List.mem_eraseDups.1 he)
      exact onOneLine_imported? ht hname hu
    split
    · exact .notFound
    · next e hsingle => exact .found (hmem e (hsingle ▸ List.mem_singleton_self e))
    · exact .ambiguous hmem

theorem onOneLine_bindLevel {level : Level} (husings : ∀ u ∈ level.usings, OneLine u.path) :
    (m.bindLevel name level).OnOneLine := by
  rw [bindLevel]
  split
  · exact .found trivial
  · split
    · next space hspace =>
      exact .found (ht.namespaces space (SymbolTable.childNamespace?_eq_some_iff.1 hspace).2)
    · exact onOneLine_bindUsings ht hname husings

theorem onOneLine_bindLevels {levels : List Level}
    (husings : ∀ level ∈ levels, ∀ u ∈ level.usings, OneLine u.path) :
    (m.bindLevels name levels).OnOneLine := by
  induction levels with
  | nil => exact .notFound
  | cons level levels ih =>
    rw [List.forall_mem_cons] at husings
    rw [bindLevels]
    split
    · exact ih husings.2
    · exact onOneLine_bindLevel ht hname husings.1

omit ht hname in
/-- The directives in force at an offset are directives of the file. -/
theorem oneLine_path_of_mem_levels (ho : m.outline.Compact) (offset : Nat) :
    ∀ level ∈ m.levels offset, ∀ u ∈ level.usings, OneLine u.path := by
  intro level hlevel u hu
  rcases List.mem_append.1 hlevel with hnamed | hglobal
  · obtain ⟨space, -, rfl⟩ := List.mem_map.1 hnamed
    obtain ⟨b, hb, hu⟩ := List.mem_flatMap.1 hu
    exact ho.blocks b (List.mem_of_mem_filter (List.mem_of_mem_filter hb)) u hu
  · rw [List.mem_singleton] at hglobal
    rw [hglobal] at hu
    exact ho.usings u hu

theorem onOneLine_bind (ho : m.outline.Compact) (offset : Nat) :
    (m.bind offset name).OnOneLine := by
  rw [bind]
  split
  · next e he =>
    refine .found ?_
    rcases Option.or_eq_some_iff.1 he with hlocal | ⟨-, htypes⟩
    · rw [bindLocal?] at hlocal
      split_ifs at hlocal
      cases hlocal
      exact hname
    · obtain ⟨d, -, hd⟩ := List.exists_of_findSome?_eq_some htypes
      rw [Option.bind_eq_bind, Option.bind_eq_some_iff] at hd
      obtain ⟨id, -, hmember⟩ := hd
      exact ht.memberOf? hname hmember
  · exact onOneLine_bindLevels ht hname (oneLine_path_of_mem_levels ho offset)

/-- **A name on one line is looked up as names on one line.** -/
theorem onOneLine_lookup (ho : m.outline.Compact) (offset : Nat) :
    (m.lookup offset name).OnOneLine := by
  have hbind := onOneLine_bind ht hname ho offset
  rw [lookup]
  generalize m.bind offset name = binding at hbind ⊢
  cases hbind with
  | ambiguous all =>
    refine .ambiguous fun full hfull => ?_
    rw [List.mem_mergeSort] at hfull
    obtain ⟨e, he, rfl⟩ := List.mem_map.1 hfull
    exact ht.describe (all e he)
  | found one => exact .unique (ht.describe one)
  | notFound => exact .notFound

end Model

end Unqualify
