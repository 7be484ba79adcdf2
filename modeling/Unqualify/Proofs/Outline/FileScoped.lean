import Unqualify.Proofs.Expression.Placed
import Unqualify.Proofs.Model.Visible
import Unqualify.Proofs.SymbolTable.Build

/-!
# Two ways to write a namespace

A namespace that holds the rest of a file is declared with a semicolon, `namespace N;`, or with a
body, `namespace N {…}`.  Written in place of each other (`NamespaceFile`) the two declare the same
namespaces and types, and a simple name inside means the same, except through the directives written
inside: with the semicolon they count as directives of the file, with a body as directives of the
namespace, which are asked earlier (`NamespaceFile.lookup_scoped_eq_hoisted`).
-/

namespace Unqualify

namespace Outline

/-! ### Around bodies -/

mutual

theorem blocks_ofMember {outer : List String} (h : outer ≠ []) (src : Source) (space : String) :
    (t : Tree) → (ofMember src space outer t).blocks = []
  | .node label children => by
    rw [ofMember, if_neg fun hboth => h hboth.2]
    split_ifs
    · split
      · rfl
      · split_ifs
        · rfl
        · exact blocks_ofBody (by simp) src space children
    · rfl

/-- No namespace is declared inside a type. -/
theorem blocks_ofBody {outer : List String} (h : outer ≠ []) (src : Source) (space : String) :
    (ts : List Tree) → (ofBody src space outer ts).blocks = []
  | [] => by rw [ofBody]
  | .node label children :: ts => by
    rw [ofBody]
    split_ifs
    · exact blocks_ofMembers h src space children
    · exact blocks_ofBody h src space ts

theorem blocks_ofMembers {outer : List String} (h : outer ≠ []) (src : Source) (space : String) :
    (ts : List Tree) → (ofMembers src space outer ts).blocks = []
  | [] => by rw [ofMembers]
  | t :: ts => by
    rw [ofMembers, blocks_append, blocks_ofMembers h src space ts, List.append_nil]
    split_ifs
    · exact blocks_ofMember h src space t
    · rfl

end

/-- A tree that is no namespace declaration declares no namespace. -/
theorem blocks_ofMember_of_ne {t : Tree} (h : t.label.kind ≠ "namespace_declaration")
    (src : Source) (space : String) : (ofMember src space [] t).blocks = [] := by
  obtain ⟨label, children⟩ := t
  rw [ofMember, if_neg fun hboth => h hboth.1]
  split_ifs
  · split
    · rfl
    · split_ifs
      · rfl
      · exact blocks_ofBody (by simp) src space children
  · rfl

theorem blocks_ofTopLevel {ts : List Tree} (hnone : NoFileScoped ts)
    (hplain : ∀ t ∈ ts, t.label.kind ≠ "namespace_declaration") (src : Source) (fileEnd : Nat)
    (space : String) : (ofTopLevel src fileEnd space ts).blocks = [] := by
  induction ts with
  | nil => rfl
  | cons t ts ih =>
    obtain ⟨hkind, hkinds⟩ := List.forall_mem_cons.1 hnone
    obtain ⟨ht, hts⟩ := List.forall_mem_cons.1 hplain
    rw [ofTopLevel, if_neg hkind]
    split_ifs
    · exact ih hkinds hts
    · rw [blocks_append, ih hkinds hts]
      rfl
    · rw [blocks_append, ih hkinds hts, blocks_ofMember_of_ne ht]
      rfl

/-- The body of a declaration is the part under the field for it. -/
theorem ofBody_append {own : List Tree} (h : ∀ t ∈ own, t.label.field ≠ "body") {body : Tree}
    (hbody : body.label.field = "body") (src : Source) (space : String) (outer : List String) :
    ofBody src space outer (own ++ [body]) = ofMembers src space outer body.children := by
  induction own with
  | nil =>
    obtain ⟨label, children⟩ := body
    have hfield : label.field = "body" := hbody
    rw [List.nil_append, ofBody, if_pos hfield]
    rfl
  | cons t own ih =>
    obtain ⟨ht, hown⟩ := List.forall_mem_cons.1 h
    obtain ⟨label, children⟩ := t
    have hfield : ¬ label.field = "body" := ht
    rw [List.cons_append, ofBody, if_neg hfield, ih hown]

theorem localsOfAll_append (src : Source) (around : List Label) (xs ys : List Tree) :
    localsOfAll src around (xs ++ ys) =
      localsOfAll src around xs ++ localsOfAll src around ys := by
  induction xs with
  | nil => rw [List.nil_append, localsOfAll, List.nil_append]
  | cons t ts ih => rw [List.cons_append, localsOfAll, localsOfAll, ih, List.append_assoc]

/-- The outline in which the directives of the first namespace count as directives of the file. -/
def hoistFirst (o : Outline) : Outline :=
  match o.blocks with
  | [] => o
  | b :: bs => { o with blocks := { b with usings := [] } :: bs, usings := o.usings ++ b.usings }

end Outline

/-! ### The two forms of a file -/

/-- A file in which a namespace holds all that follows its declaration, whichever way it is
declared. -/
structure NamespaceFile where
  /-- The text up to the mark that ends the declaration or opens the body. -/
  head : String
  /-- The text after the mark. -/
  tail : String
  /-- Where the tree of the file starts. -/
  rootStart : Nat
  /-- Where the tree of the file ends if there is no body to close. -/
  rootStop : Nat
  /-- Where the declaration of the namespace starts. -/
  start : Nat
  /-- What comes before the declaration. -/
  before : List Tree
  /-- The parts of the declaration before its end or its body: the name. -/
  own : List Tree
  /-- What follows the declaration or stands in its body. -/
  members : List Tree

namespace NamespaceFile

variable (f : NamespaceFile)

/-- The text with a namespace for the rest of the file. -/
def scopedText : String := f.head ++ ";" ++ f.tail

/-- The text with a namespace that has a body. -/
def blockText : String := f.head ++ "\x7b" ++ (f.tail ++ "\x7d")

/-- Prepared for reading. -/
def scopedSource : Source := .ofText f.scopedText

/-- Prepared for reading. -/
def blockSource : Source := .ofText f.blockText

/-- The label of the whole file, by where it ends. -/
def rootLabel (stop : Nat) : Label :=
  { kind := "compilation_unit", field := "", named := true, start := f.rootStart, stop }

/-- The label of the declaration of a namespace for the rest of the file. -/
def scopedLabel : Label :=
  { kind := "file_scoped_namespace_declaration", field := "", named := true, start := f.start
    stop := f.head.utf8ByteSize + 1 }

/-- The label of the declaration of a namespace that has a body. -/
def blockLabel : Label :=
  { kind := "namespace_declaration", field := "", named := true, start := f.start
    stop := f.blockText.utf8ByteSize }

/-- The label of the body. -/
def bodyLabel : Label :=
  { kind := "declaration_list", field := "body", named := true, start := f.head.utf8ByteSize
    stop := f.blockText.utf8ByteSize }

/-- The tree with a namespace for the rest of the file. -/
def scopedTree : Tree :=
  .node (f.rootLabel f.rootStop) (f.before ++ .node f.scopedLabel f.own :: f.members)

/-- The tree with a namespace that has a body. -/
def blockTree : Tree :=
  .node (f.rootLabel f.blockText.utf8ByteSize)
    (f.before ++ [.node f.blockLabel (f.own ++ [.node f.bodyLabel f.members])])

/-- What the file declares with a namespace for the rest of it. -/
def scopedOutline : Outline := .ofFile f.scopedSource f.scopedTree

/-- What the file declares with a namespace that has a body. -/
def blockOutline : Outline := .ofFile f.blockSource f.blockTree

/-- The full name of the namespace. -/
def name : String := (Outline.declaredName? f.scopedSource f.own).getD ""

/-- What a parser gives: every node has its place in the text, and what stands where is what the
grammar puts there.  The namespace has a name; it is the only one for the rest of the file, and no
namespace is declared before it. -/
structure Regular : Prop where
  /-- The nodes are placed on the text. -/
  placed : f.scopedTree.Placed f.scopedText
  /-- The parts of the declaration come before the mark. -/
  own_stop : ∀ t ∈ f.own, t.label.stop ≤ f.head.utf8ByteSize
  /-- One of them is the name. -/
  declared : (Outline.declaredName? f.scopedSource f.own).isSome = true
  /-- None of them is a body. -/
  own_field : ∀ t ∈ f.own, t.label.field ≠ "body"
  /-- They declare no local names. -/
  own_locals : ∀ src around, Outline.localsOfAll src around f.own = []
  /-- No namespace is declared before. -/
  before_kind : ∀ t ∈ f.before, t.label.kind ≠ "namespace_declaration"
  /-- Nor is one declared for the rest of the file. -/
  before_fileScoped : Outline.NoFileScoped f.before
  /-- No second namespace is declared for the rest of the file. -/
  members_fileScoped : Outline.NoFileScoped f.members
  /-- Parameters stand in parameter lists. -/
  members_kind : ∀ t ∈ f.members, t.label.kind ≠ "parameter"

/-- An offset lies behind the mark, inside the namespace in either form. -/
def Inside (offset : Nat) : Prop :=
  f.head.utf8ByteSize < offset ∧ offset < f.rootStop

/-! ### Both forms read alike -/

variable {f}

theorem utf8ByteSize_scopedText :
    f.scopedText.utf8ByteSize = f.head.utf8ByteSize + 1 + f.tail.utf8ByteSize := by
  simp only [scopedText, String.utf8ByteSize_append]
  rfl

theorem utf8ByteSize_blockText :
    f.blockText.utf8ByteSize = f.head.utf8ByteSize + 1 + (f.tail.utf8ByteSize + 1) := by
  simp only [blockText, String.utf8ByteSize_append]
  rfl

/-- What ends before the mark reads the same in both forms. -/
theorem readsAlike_of_stop_le {t : Tree} (h : t.Placed f.scopedText)
    (hstop : t.label.stop ≤ f.head.utf8ByteSize) : t.ReadsAlike f.scopedSource f.blockSource := by
  induction h with
  | @node label children range inside inOrder below ih =>
    have hlabel : label.stop ≤ f.head.utf8ByteSize := hstop
    refine .node ?_ fun u hu => ih u hu (Nat.le_trans (inside u hu).2 hlabel)
    simp only [Source.covered, scopedSource, blockSource, Source.ofText, scopedText, blockText,
      String.append_assoc]
    rw [Text.slice_append_left hlabel, Text.slice_append_left hlabel]

/-- What starts after the mark reads the same in both forms. -/
theorem readsAlike_of_le_start {t : Tree} (h : t.Placed f.scopedText)
    (hstart : f.head.utf8ByteSize + 1 ≤ t.label.start) :
    t.ReadsAlike f.scopedSource f.blockSource := by
  induction h with
  | @node label children range inside inOrder below ih =>
    have hlabel : f.head.utf8ByteSize + 1 ≤ label.start := hstart
    refine .node ?_ fun u hu => ih u hu (Nat.le_trans hlabel (inside u hu).1)
    have hstop := range.stop_le
    have hordered := range.ordered
    rw [utf8ByteSize_scopedText] at hstop
    obtain ⟨i, hi⟩ := Nat.exists_eq_add_of_le hlabel
    obtain ⟨j, hj⟩ := Nat.exists_eq_add_of_le (Nat.le_trans hlabel hordered)
    have htail (mark rest : String) (hmark : mark.utf8ByteSize = 1) :
        Text.slice (f.head ++ mark ++ (f.tail ++ rest)) label.start label.stop =
          Text.slice f.tail i j := by
      have hsize : (f.head ++ mark).utf8ByteSize = f.head.utf8ByteSize + 1 := by
        rw [String.utf8ByteSize_append, hmark]
      rw [hi, hj, ← hsize, Text.slice_append_right, Text.slice_append_left (by omega)]
    have hscoped := htail ";" "" rfl
    rw [String.append_empty] at hscoped
    exact hscoped.trans (htail "\x7b" "\x7d" rfl).symm

namespace Regular

variable (h : f.Regular)

include h

theorem placed_children :
    ∀ t ∈ f.before ++ .node f.scopedLabel f.own :: f.members, t.Placed f.scopedText :=
  (Tree.placed_node_iff.1 h.placed).2.2.2

theorem placed_own :
    ∀ t ∈ f.own, f.start ≤ t.label.start ∧ t.Placed f.scopedText := by
  obtain ⟨-, hinside, -, hbelow⟩ :=
    Tree.placed_node_iff.1 (h.placed_children (.node f.scopedLabel f.own) (by simp))
  exact fun t ht => ⟨(hinside t ht).1, hbelow t ht⟩

theorem declaredName?_own : Outline.declaredName? f.scopedSource f.own = some f.name := by
  obtain ⟨name, hname⟩ := Option.isSome_iff_exists.1 h.declared
  rw [NamespaceFile.name, hname, Option.getD_some]

/-- The declaration starts before the mark, because its name does. -/
theorem start_le : f.start ≤ f.head.utf8ByteSize := by
  have hdeclared := h.declaredName?_own
  rw [Outline.declaredName?, Option.bind_eq_bind, Option.bind_eq_some_iff] at hdeclared
  obtain ⟨t, ht, -⟩ := hdeclared
  have hmem := Tree.mem_of_field? ht
  obtain ⟨hstart, hplaced⟩ := h.placed_own t hmem
  have hordered := hplaced.range.ordered
  have hstop := h.own_stop t hmem
  omega

theorem rootStart_le : f.rootStart ≤ f.start :=
  ((Tree.placed_node_iff.1 h.placed).2.1 (.node f.scopedLabel f.own) (by simp)).1

theorem rootStop_lt : f.rootStop < f.blockText.utf8ByteSize := by
  have hstop := h.placed.range.stop_le
  rw [utf8ByteSize_scopedText] at hstop
  rw [utf8ByteSize_blockText]
  exact Nat.lt_succ_of_le hstop

theorem alike_before : ∀ t ∈ f.before, t.ReadsAlike f.scopedSource f.blockSource := by
  obtain ⟨-, -, horder, -⟩ := Tree.placed_node_iff.1 h.placed
  intro t ht
  have hstop : t.label.stop ≤ f.start :=
    (List.pairwise_append.1 horder).2.2 t ht (.node f.scopedLabel f.own) List.mem_cons_self
  exact readsAlike_of_stop_le (h.placed_children t (by simp [ht])) (Nat.le_trans hstop h.start_le)

theorem alike_own : ∀ t ∈ f.own, t.ReadsAlike f.scopedSource f.blockSource :=
  fun t ht => readsAlike_of_stop_le (h.placed_own t ht).2 (h.own_stop t ht)

theorem alike_members : ∀ t ∈ f.members, t.ReadsAlike f.scopedSource f.blockSource := by
  obtain ⟨-, -, horder, -⟩ := Tree.placed_node_iff.1 h.placed
  intro t ht
  have hstart := (List.pairwise_cons.1 (List.pairwise_append.1 horder).2.1).1 t ht
  exact readsAlike_of_le_start (h.placed_children t (by simp [ht])) hstart

/-! ### Their outlines -/

theorem blocks_before (src : Source) (fileEnd : Nat) :
    (Outline.ofTopLevel src fileEnd "" f.before).blocks = [] :=
  Outline.blocks_ofTopLevel h.before_fileScoped h.before_kind src fileEnd ""

omit h in
/-- A namespace between what comes before it and what it holds. -/
theorem outline_eq {before inside : Outline} (hblocks : before.blocks = [])
    (hbefore : before.locals = []) (hinside : inside.locals = []) (block : NamespaceBlock)
    (usings : List Using) (locals : List Local) :
    before ++ ({ namespaces := [block.name], blocks := [block] } ++ { inside with usings }) ++
        { locals } =
      { namespaces := before.namespaces ++ block.name :: inside.namespaces
        blocks := block :: inside.blocks
        types := before.types ++ inside.types
        usings := before.usings ++ usings
        locals } := by
  change Outline.append (Outline.append before (Outline.append _ _)) _ = _
  simp [Outline.append, hblocks, hbefore, hinside]

/-- The outline of the first form: the directives go to the file. -/
theorem scopedOutline_eq :
    let before := Outline.ofTopLevel f.scopedSource f.rootStop "" f.before
    let inside := Outline.ofMembers f.scopedSource f.name [] f.members
    f.scopedOutline =
      { namespaces := before.namespaces ++ f.name :: inside.namespaces
        blocks := { name := f.name, extent := ⟨f.start, f.rootStop⟩, usings := [] } :: inside.blocks
        types := before.types ++ inside.types
        usings := before.usings ++ Outline.usingsOf f.scopedSource f.members
        locals := Outline.localsOf f.scopedSource [] f.scopedTree } := by
  intro before inside
  have hdeclaration : Outline.ofTopLevel f.scopedSource f.rootStop ""
      (.node f.scopedLabel f.own :: f.members) =
        { namespaces := [f.name]
          blocks := [{ name := f.name, extent := ⟨f.start, f.rootStop⟩, usings := [] }] } ++
        { inside with usings := Outline.usingsOf f.scopedSource f.members } := by
    rw [Outline.ofTopLevel, if_neg (by simp [Tree.label, scopedLabel]),
      if_neg (by simp [Tree.label, scopedLabel]), if_pos (by rfl), Tree.children,
      h.declaredName?_own, ← Outline.ofTopLevel_eq h.members_fileScoped f.rootStop]
    rfl
  have hfile : f.scopedOutline =
      Outline.ofTopLevel f.scopedSource f.rootStop ""
          (f.before ++ .node f.scopedLabel f.own :: f.members) ++
        { locals := Outline.localsOf f.scopedSource [] f.scopedTree } := rfl
  have hblocks : before.blocks = [] := h.blocks_before f.scopedSource f.rootStop
  have hlocals : before.locals = [] := Outline.locals_ofTopLevel h.before_fileScoped _ ""
  have hinside : inside.locals = [] := (Outline.onlyDeclares_ofMembers f.name [] f.members).2
  rw [hfile, Outline.ofTopLevel_append h.before_fileScoped, hdeclaration]
  exact outline_eq hblocks hlocals hinside
    { name := f.name, extent := ⟨f.start, f.rootStop⟩, usings := [] } _ _

/-- The outline of the second form: the directives stay with the namespace. -/
theorem blockOutline_eq :
    let before := Outline.ofTopLevel f.scopedSource f.rootStop "" f.before
    let inside := Outline.ofMembers f.scopedSource f.name [] f.members
    let usings := Outline.usingsOf f.scopedSource f.members
    f.blockOutline =
      { namespaces := before.namespaces ++ f.name :: inside.namespaces
        blocks := { name := f.name, extent := f.blockLabel.extent, usings } :: inside.blocks
        types := before.types ++ inside.types
        usings := before.usings
        locals := Outline.localsOf f.blockSource [] f.blockTree } := by
  intro before inside usings
  have hname : Outline.declaredName? f.blockSource (f.own ++ [.node f.bodyLabel f.members]) =
      some f.name := by
    have hown := h.declaredName?_own
    rw [Outline.declaredName?_congr h.alike_own, Outline.declaredName?, Option.bind_eq_bind,
      Option.bind_eq_some_iff] at hown
    obtain ⟨t, ht, hname⟩ := hown
    rw [Outline.declaredName?, Tree.field?, List.find?_append, ← Tree.field?, ht]
    exact hname
  have hbody : Tree.field? "body" (f.own ++ [.node f.bodyLabel f.members]) =
      some (.node f.bodyLabel f.members) := by
    rw [Tree.field?, List.find?_append, List.find?_eq_none.2 (by simpa using h.own_field)]
    rfl
  have hdeclaration : Outline.ofMember f.blockSource "" []
      (.node f.blockLabel (f.own ++ [.node f.bodyLabel f.members])) =
        { namespaces := [f.name]
          blocks := [{ name := f.name, extent := f.blockLabel.extent, usings }] } ++
        { inside with usings := [] } := by
    have hinside : { inside with usings := [] } = inside := by
      have husings : inside.usings = [] := (Outline.onlyDeclares_ofMembers f.name [] f.members).1
      rw [← husings]
    rw [Outline.ofMember, if_pos ⟨rfl, rfl⟩, hname]
    simp only [Name.join_empty, hbody, Option.toList_some, List.map_cons, List.map_nil]
    rw [Outline.ofBody_append h.own_field rfl, hinside, Tree.children,
      ← Outline.ofMembers_congr f.name [] f.members h.alike_members,
      ← Outline.usingsOf_congr h.alike_members]
  have hfile : f.blockOutline =
      Outline.ofTopLevel f.blockSource f.blockText.utf8ByteSize ""
          (f.before ++ [.node f.blockLabel (f.own ++ [.node f.bodyLabel f.members])]) ++
        { locals := Outline.localsOf f.blockSource [] f.blockTree } := rfl
  have htop : Outline.ofTopLevel f.blockSource f.blockText.utf8ByteSize ""
      [.node f.blockLabel (f.own ++ [.node f.bodyLabel f.members])] =
        Outline.ofMember f.blockSource "" []
          (.node f.blockLabel (f.own ++ [.node f.bodyLabel f.members])) := by
    rw [Outline.ofTopLevel, if_neg (by simp [Tree.label, blockLabel]),
      if_neg (by simp [Tree.label, blockLabel]), if_neg (by simp [Tree.label, blockLabel]),
      Outline.ofTopLevel, Outline.append_empty]
  have hblocks : before.blocks = [] := h.blocks_before f.scopedSource f.rootStop
  have hlocals : before.locals = [] := Outline.locals_ofTopLevel h.before_fileScoped _ ""
  have hinside : inside.locals = [] := (Outline.onlyDeclares_ofMembers f.name [] f.members).2
  rw [hfile, Outline.ofTopLevel_append h.before_fileScoped, htop, hdeclaration,
    ← Outline.ofTopLevel_congr h.alike_before h.before_fileScoped f.rootStop]
  have houtline := outline_eq hblocks hlocals hinside
    { name := f.name, extent := f.blockLabel.extent, usings } []
    (Outline.localsOf f.blockSource [] f.blockTree)
  rw [List.append_nil] at houtline
  exact houtline

/-! ### Local names in them -/

omit h in
theorem localsOf_node (src : Source) (around : List Label) {label : Label}
    (hlabel : label.kind ∈ ["compilation_unit", "file_scoped_namespace_declaration",
      "namespace_declaration", "declaration_list"]) (children : List Tree) :
    Outline.localsOf src around (.node label children) =
      Outline.localsOfAll src (label :: around) children := by
  rw [Outline.localsOf]
  have hnone : Outline.localsAt src around (.node label children) = [] := by
    rw [Outline.localsAt]
    simp only [List.mem_cons, List.not_mem_nil, or_false] at hlabel
    rcases hlabel with hkind | hkind | hkind | hkind <;> rw [hkind] <;> rfl
  rw [hnone, List.nil_append]

theorem localsOf_scopedTree :
    Outline.localsOf f.scopedSource [] f.scopedTree =
      Outline.localsOfAll f.scopedSource [f.rootLabel f.rootStop] f.before ++
        Outline.localsOfAll f.scopedSource [f.rootLabel f.rootStop] f.members := by
  rw [scopedTree, localsOf_node _ _ (by simp [rootLabel]), Outline.localsOfAll_append,
    Outline.localsOfAll, if_pos (by rfl), localsOf_node _ _ (by simp [scopedLabel]), h.own_locals,
    List.nil_append]

theorem localsOf_blockTree :
    let root := f.rootLabel f.blockText.utf8ByteSize
    Outline.localsOf f.blockSource [] f.blockTree =
      Outline.localsOfAll f.blockSource [root] f.before ++
        Outline.localsOfAll f.blockSource [f.bodyLabel, f.blockLabel, root] f.members := by
  intro root
  rw [blockTree, localsOf_node _ _ (by simp [rootLabel]), Outline.localsOfAll_append,
    Outline.localsOfAll, if_pos (by rfl), localsOf_node _ _ (by simp [blockLabel]),
    Outline.localsOfAll_append, h.own_locals, Outline.localsOfAll, Outline.localsOfAll,
    if_pos (by rfl), localsOf_node _ _ (by simp [bodyLabel])]
  simp only [Outline.localsOfAll, List.nil_append, List.append_nil, root]

/-- The same local names are visible inside the namespace in both forms. -/
theorem visible_locals {offset : Nat} (hoffset : f.Inside offset) :
    Outline.visible offset (Outline.localsOf f.scopedSource [] f.scopedTree) =
      Outline.visible offset (Outline.localsOf f.blockSource [] f.blockTree) := by
  have hstart := h.rootStart_le
  have hmark := h.start_le
  have hstop := h.rootStop_lt
  obtain ⟨hbehind, hbefore⟩ := hoffset
  -- the file, and the body in its place, are seen from behind the mark
  have hroot (stop : Nat) (hlt : offset < stop) :
      Outline.sees offset (some (f.rootLabel stop)) = true :=
    Extent.contains_iff.2 ⟨(by omega : f.rootStart ≤ offset), hlt⟩
  have hbody : Outline.sees offset (some f.bodyLabel) = true :=
    Extent.contains_iff.2 ⟨Nat.le_of_lt hbehind, Nat.lt_trans hbefore hstop⟩
  have hfile := hroot f.rootStop hbefore
  have hfile' := hroot f.blockText.utf8ByteSize (Nat.lt_trans hbefore hstop)
  have haround : Outline.SeenAlike offset [f.rootLabel f.rootStop]
      [f.rootLabel f.blockText.utf8ByteSize] :=
    ⟨hfile.trans hfile'.symm, hfile.trans hfile'.symm⟩
  have hinside : Outline.SeenAlike offset [f.rootLabel f.rootStop]
      [f.bodyLabel, f.blockLabel, f.rootLabel f.blockText.utf8ByteSize] :=
    ⟨hfile.trans hbody.symm, hfile.trans hfile'.symm⟩
  rw [h.localsOf_scopedTree, h.localsOf_blockTree, Outline.visible_append, Outline.visible_append,
    Outline.visible_localsOfAll haround f.before h.alike_before fun _ _ _ => rfl,
    Outline.visible_localsOfAll hinside f.members h.alike_members
      fun t ht hparameter => absurd hparameter (h.members_kind t ht)]

end Regular

/-! ### What names mean in them -/

/-- **A namespace for the rest of a file declares what one with a body declares, and names in it mean
the same once the directives in the body count as directives of the file.**  So where there are no
directives in it, the two forms mean the same. -/
theorem lookup_scoped_eq_hoisted (h : f.Regular) :
    f.scopedOutline.namespaces = f.blockOutline.namespaces ∧
      f.scopedOutline.types = f.blockOutline.types ∧
      ∀ (table : SymbolTable) (offset : Nat) (name : String), f.Inside offset →
        (Model.mk table f.scopedOutline).lookup offset name =
            (Model.mk table f.blockOutline.hoistFirst).lookup offset name ∧
          (Outline.usingsOf f.scopedSource f.members = [] →
            (Model.mk table f.scopedOutline).lookup offset name =
              (Model.mk table f.blockOutline).lookup offset name) := by
  have hscoped := h.scopedOutline_eq
  have hblock := h.blockOutline_eq
  refine ⟨?_, ?_, fun table offset name hoffset => ?_⟩
  · rw [hscoped, hblock]
  · rw [hscoped, hblock]
  · have hstart : f.start ≤ offset := Nat.le_trans h.start_le (Nat.le_of_lt hoffset.1)
    have hlocals : Outline.visible offset f.scopedOutline.locals =
        Outline.visible offset f.blockOutline.hoistFirst.locals := by
      rw [hscoped, hblock]
      exact h.visible_locals hoffset
    have hhoisted : (Model.mk table f.scopedOutline).lookup offset name =
        (Model.mk table f.blockOutline.hoistFirst).lookup offset name := by
      refine Model.lookup_congr hlocals ?_ ?_ ?_ name
      · rw [hscoped, hblock]
        rfl
      · -- the offset lies in the namespace in either form, and only the ends differ
        have hcontains : Extent.contains ⟨f.start, f.rootStop⟩ offset = true :=
          Extent.contains_iff.2 ⟨hstart, hoffset.2⟩
        have hcontains' : f.blockLabel.extent.contains offset = true :=
          Extent.contains_iff.2 ⟨hstart, Nat.lt_trans hoffset.2 h.rootStop_lt⟩
        rw [hscoped, hblock]
        simp only [Outline.hoistFirst, List.filter_cons, hcontains, hcontains', if_true,
          List.map_cons, NamespaceBlock.key]
        rfl
      · rw [hscoped, hblock]
        rfl
    refine ⟨hhoisted, fun hnone => ?_⟩
    have hsame : f.blockOutline.hoistFirst = f.blockOutline := by
      simp only [hblock, Outline.hoistFirst, hnone, List.append_nil]
    rw [hhoisted, hsame]

/-! ### A file with a directive -/

/-- The node of `using A;` at an offset. -/
def directiveAt (n : Nat) : Tree :=
  .node { kind := "using_directive", field := "", named := true, start := n, stop := n + 8 }
    [.node { kind := "identifier", field := "", named := true, start := n + 6, stop := n + 7 } []]

/-- The node of `class P\x7bint x=T.V;\x7d` at an offset. -/
def classAt (n : Nat) : Tree :=
  let node (kind field : String) (start stop : Nat) (children : List Tree) : Tree :=
    .node { kind, field, named := true, start := n + start, stop := n + stop } children
  node "class_declaration" "" 0 19
    [node "identifier" "name" 6 7 [],
     node "declaration_list" "body" 7 19
      [node "field_declaration" "" 8 18
        [node "variable_declaration" "" 8 17
          [node "predefined_type" "type" 8 11 [],
           node "variable_declarator" "" 12 17
            [node "identifier" "name" 12 13 [],
             node "member_access_expression" "" 14 17
              [node "identifier" "expression" 14 15 [], node "identifier" "name" 16 17 []]]]]]]

/-- The node of the name `N` at an offset. -/
def nameAt (n : Nat) : Tree :=
  .node { kind := "identifier", field := "name", named := true, start := n, stop := n + 1 } []

/-- A directive inside the namespace `N`, then a class. -/
def directiveInside : NamespaceFile where
  head := "namespace N"
  tail := "using A;class P\x7bint x=T.V;\x7d"
  rootStart := 0
  rootStop := 39
  start := 0
  before := []
  own := [nameAt 10]
  members := [directiveAt 12, classAt 20]

/-- A directive before the namespace `N`, and a class inside. -/
def directiveBefore : NamespaceFile where
  head := "using A;namespace N"
  tail := "class P\x7bint x=T.V;\x7d"
  rootStart := 0
  rootStop := 39
  start := 8
  before := [directiveAt 0]
  own := [nameAt 18]
  members := [classAt 20]

theorem regular_directiveInside : directiveInside.Regular where
  placed := by decide +kernel
  own_stop := by decide +kernel
  declared := by decide +kernel
  own_field := by decide +kernel
  own_locals := fun _ _ => rfl
  before_kind := by decide +kernel
  before_fileScoped := by simp [Outline.NoFileScoped, directiveInside]
  members_fileScoped := by
    simp [Outline.NoFileScoped, directiveInside, directiveAt, classAt, Tree.label]
  members_kind := by decide +kernel

theorem regular_directiveBefore : directiveBefore.Regular where
  placed := by decide +kernel
  own_stop := by decide +kernel
  declared := by decide +kernel
  own_field := by decide +kernel
  own_locals := fun _ _ => rfl
  before_kind := by decide +kernel
  before_fileScoped := by simp [Outline.NoFileScoped, directiveBefore, directiveAt, Tree.label]
  members_fileScoped := by simp [Outline.NoFileScoped, directiveBefore, classAt, Tree.label]
  members_kind := by decide +kernel

/-- A program with two types `T`, one of them in the namespace `A`. -/
def twoTypes : SymbolTable := .build [.library "A.T", .library "T"]

/-- The description of a type directly in a namespace. -/
def typeIn (space fullName : String) : Symbol :=
  { kind := .namedType, fullName, containingType := none, containingNamespace := space }

/-- With the directive inside, the two forms agree once it is hoisted; with the directive before the
namespace they agree as they are. -/
theorem directive_hoisted :
    directiveInside.Regular ∧ directiveInside.Inside 34 ∧
      (Model.mk twoTypes directiveInside.scopedOutline).lookup 34 "T" =
        (Model.mk twoTypes directiveInside.blockOutline.hoistFirst).lookup 34 "T" ∧
      (Model.mk twoTypes directiveInside.scopedOutline).lookup 34 "T" = .unique (typeIn "" "T") ∧
      directiveBefore.Regular ∧ directiveBefore.Inside 34 ∧
      Outline.usingsOf directiveBefore.scopedSource directiveBefore.members = [] ∧
      (Model.mk twoTypes directiveBefore.scopedOutline).lookup 34 "T" =
        (Model.mk twoTypes directiveBefore.blockOutline).lookup 34 "T" := by
  have hinside : directiveInside.Inside 34 := ⟨by decide +kernel, by decide +kernel⟩
  have hinside' : directiveBefore.Inside 34 := ⟨by decide +kernel, by decide +kernel⟩
  have hnone : Outline.usingsOf directiveBefore.scopedSource directiveBefore.members = [] := by
    decide +kernel
  obtain ⟨-, -, hlookup⟩ := lookup_scoped_eq_hoisted regular_directiveInside
  obtain ⟨-, -, hlookup'⟩ := lookup_scoped_eq_hoisted regular_directiveBefore
  exact ⟨regular_directiveInside, hinside, (hlookup twoTypes 34 "T" hinside).1, by decide +kernel,
    regular_directiveBefore, hinside', hnone, (hlookup' twoTypes 34 "T" hinside').2 hnone⟩

/-- The directive inside decides what `T` means in the form with a body only. -/
theorem directive_inside_read_differently :
    directiveInside.Regular ∧ directiveInside.Inside 34 ∧
      (Model.mk twoTypes directiveInside.scopedOutline).lookup 34 "T" = .unique (typeIn "" "T") ∧
      (Model.mk twoTypes directiveInside.blockOutline).lookup 34 "T" =
        .unique (typeIn "A" "A.T") :=
  ⟨regular_directiveInside, ⟨by decide +kernel, by decide +kernel⟩, by decide +kernel,
    by decide +kernel⟩

end NamespaceFile

end Unqualify
