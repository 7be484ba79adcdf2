import Unqualify.Analysis
import Unqualify.Proofs.Model.Members

/-!
# Parameters hide types

A local name goes before everything else, so where a parameter is visible its name never means a
type, and a qualification in front of that name stays (`Model.lookup_parameter`).  This holds of
every parameter that has a node of its own, in whatever construct: it is visible in the whole node
that owns the parameter list.

The last parameter of a method can be an array that takes any number of arguments.  It has no node
of its own; its type and its name stand directly in the list (`Tree.HasParameterArray`).  Nothing
declares its name as a local, and the qualification in front of a type of that name is taken away
(`Model.suggestFix_parameterArray`).
-/

namespace Unqualify

namespace Tree

/-- A walk over the nodes that the grammar names comes from the root to a node, past the nodes
`around`, nearest first. -/
inductive Reached (root : Tree) : List Label → Tree → Prop
  /-- It begins at the root. -/
  | root : Reached root [] root
  /-- It goes on to a child. -/
  | child {label : Label} {children : List Tree} {around : List Label} {t : Tree}
    (above : Reached root around (.node label children)) (mem : t ∈ children)
    (named : t.label.named = true) : Reached root (label :: around) t

/-- A parameter with a node of its own: `name` is the node of its name, and `owner` owns the list
that it stands in. -/
inductive HasParameter (root : Tree) : Tree → Label → Prop
  /-- A node of that kind, inside the list. -/
  | parameter {list owner label : Label} {around : List Label} {children : List Tree} {name : Tree}
    (reached : root.Reached (list :: owner :: around) (.node label children))
    (kind : label.kind = "parameter") (field : field? "name" children = some name) :
    HasParameter root name owner

/-- A parameter array: its type and its name stand directly in the list, which `owner` owns. -/
inductive HasParameterArray (root : Tree) : Tree → Label → Prop
  /-- A list with these two fields. -/
  | list {owner label : Label} {around : List Label} {children : List Tree} {type name : Tree}
    (reached : root.Reached (owner :: around) (.node label children))
    (kind : label.kind = "parameter_list") (typeField : field? "type" children = some type)
    (nameField : field? "name" children = some name) : HasParameterArray root name owner

end Tree

namespace Outline

variable (src : Source)

/-! ### Locals of a whole tree -/

theorem localsOf_subset_localsOfAll {around : List Label} {t : Tree} {ts : List Tree}
    (hmem : t ∈ ts) (hnamed : t.label.named = true) :
    localsOf src around t ⊆ localsOfAll src around ts := by
  induction ts with
  | nil => cases hmem
  | cons u ts ih =>
    rw [localsOfAll]
    rcases List.mem_cons.1 hmem with rfl | hmem
    · rw [if_pos hnamed]
      exact List.subset_append_left _ _
    · exact List.subset_append_of_subset_right _ (ih hmem)

theorem localsOf_subset_of_reached {root t : Tree} {around : List Label}
    (h : root.Reached around t) : localsOf src around t ⊆ localsOf src [] root := by
  induction h with
  | root => exact List.Subset.refl _
  | child above mem named ih =>
    refine List.Subset.trans ?_ ih
    rw [localsOf]
    exact List.subset_append_of_subset_right _ (localsOf_subset_localsOfAll src mem named)

/-- What a node declares by itself is among the locals of the whole tree. -/
theorem localsAt_subset_of_reached {root t : Tree} {around : List Label}
    (h : root.Reached around t) : localsAt src around t ⊆ localsOf src [] root := by
  refine List.Subset.trans ?_ (localsOf_subset_of_reached src h)
  cases t with
  | node label children =>
    rw [localsOf]
    exact List.subset_append_left _ _

/-- **A parameter is a local of its file**, visible in the node that owns the parameter list. -/
theorem mem_locals_of_hasParameter {root name : Tree} {owner : Label}
    (h : root.HasParameter name owner) (hkind : name.label.kind = "identifier")
    (hne : src.covered name.label ≠ "") :
    ⟨src.covered name.label, owner.extent⟩ ∈ (ofFile src root).locals := by
  obtain ⟨reached, kind, field⟩ := h
  have hlocals : (ofFile src root).locals =
      (ofTopLevel src root.label.stop "" root.children).locals ++ localsOf src [] root := rfl
  rw [hlocals]
  refine List.mem_append_right _ (localsAt_subset_of_reached src reached ?_)
  simp [localsAt, kind, field, declare, hkind, hne]

end Outline

/-! ### What the name of a local means -/

namespace SymbolTable

variable {t : SymbolTable}

theorem memberOf?_ne_localName {e : Entity} {name x : String} :
    t.memberOf? e name ≠ some (.localName x) := by
  cases e with
  | nameSpace space =>
    rw [memberOf?]
    split
    · simp
    · simp
  | type id =>
    intro h
    obtain ⟨s, -, ⟨inner, -, h⟩ | h⟩ := memberOf?_type_eq_some h
    · cases h
    · cases h
  | localName y => simp [memberOf?]
  | member owner y => simp [memberOf?]

theorem kind_describe_eq_localName_iff {e : Entity} :
    (t.describe e).kind = .localName ↔ ∃ x, e = .localName x := by
  cases e with
  | localName x => simp [describe]
  | nameSpace x => simp [describe]
  | type id => cases h : t.types[id]? <;> simp [describe, h, Symbol.unknown]
  | member owner x => cases h : t.types[owner]? <;> simp [describe, h, Symbol.unknown]

end SymbolTable

namespace Model

variable {m : Model} {offset : Nat} {name : String}

/-- What an access denotes is never described as a local. -/
theorem kind_resolve_access_ne (m : Model) (left : Expression) (form : Access) :
    (m.resolve (.access left form)).kind ≠ .localName := by
  rw [resolve]
  cases h : m.entityOf? (.access left form) with
  | none => simp [Symbol.unknown]
  | some e =>
    intro hkind
    obtain ⟨x, rfl⟩ := SymbolTable.kind_describe_eq_localName_iff.1 hkind
    obtain ⟨owner, -, hmember⟩ := Option.bind_eq_some_iff.1 h
    exact SymbolTable.memberOf?_ne_localName hmember

theorem bindLocal?_of_mem_locals {l : Local} (hl : l ∈ m.outline.locals)
    (hoffset : l.extent.contains offset = true) :
    m.bindLocal? offset l.name = some (.localName l.name) := by
  have hany : (m.outline.locals.any fun l' => l'.name == l.name && l'.extent.contains offset) =
      true := List.any_eq_true.2 ⟨l, hl, by simp [hoffset]⟩
  rw [bindLocal?, if_pos hany]

/-- **A parameter hides every type of its name.**  Anywhere in the node that owns the parameter
list, the name of a parameter with a node of its own means that parameter, whatever the program
declares, and no access that ends in the name loses its qualification. -/
theorem lookup_parameter (src : Source) {root name : Tree} {owner : Label}
    (h : root.HasParameter name owner) (hkind : name.label.kind = "identifier")
    (hne : src.covered name.label ≠ "") {offset : Nat}
    (hoffset : owner.extent.contains offset = true) (table : SymbolTable) :
    let short := src.covered name.label
    let o := Outline.ofFile src root
    let m : Model := { table, outline := o }
    m.lookup offset short = .unique ⟨.localName, short, none, ""⟩ ∧
      ∀ left form, form.span.start = offset → form.name.identifier = short →
        Rule.suggestFix (Analysis.oracleOf table o) form (m.resolve (.access left form)) =
          .error (.resolvesElsewhere short) := by
  intro short o m
  have hlocal : m.bindLocal? offset short = some (.localName short) :=
    bindLocal?_of_mem_locals (l := ⟨short, owner.extent⟩)
      (Outline.mem_locals_of_hasParameter src h hkind hne) hoffset
  have hlookup : m.lookup offset short = .unique ⟨.localName, short, none, ""⟩ :=
    lookup_of_bindLocal? hlocal
  refine ⟨hlookup, fun left form hstart hname => ?_⟩
  -- the access denotes no local, so its description differs
  have hdiffers : (⟨.localName, short, none, ""⟩ : Symbol) ≠ m.resolve (.access left form) := by
    intro heq
    exact kind_resolve_access_ne m left form (heq ▸ rfl)
  rw [Rule.suggestFix, hstart, hname]
  change Rule.fixFor form _ (m.lookup offset short) = _
  rw [hlookup, Rule.fixFor, if_neg hdiffers]

/-! ### A method with an array parameter -/

/-- A file with one method, whose body passes on `Foo.Bar.Baz.V`; `parameters` stand in the list. -/
def methodFile (parameters : List Tree) : Tree :=
  .ofNamed "compilation_unit" "" 0 73
    [.ofNamed "using_directive" "" 0 14
      [.ofNamed "qualified_name" "" 6 13
        [.ofNamed "identifier" "qualifier" 6 9 [], .ofNamed "identifier" "name" 10 13 []]],
     .ofNamed "class_declaration" "" 15 73
      [.ofNamed "identifier" "name" 21 22 [],
       .ofNamed "declaration_list" "body" 23 73
        [.ofNamed "method_declaration" "" 25 71
          [.ofNamed "predefined_type" "returns" 25 29 [],
           .ofNamed "identifier" "name" 30 31 [],
           .ofNamed "parameter_list" "parameters" 31 49 parameters,
           .ofNamed "block" "body" 50 71
            [.ofNamed "expression_statement" "" 52 69
              [.ofNamed "invocation_expression" "" 52 68
                [.ofNamed "identifier" "function" 52 53 [],
                 .ofNamed "argument_list" "arguments" 53 68
                  [.ofNamed "argument" "" 54 67
                    [.ofNamed "member_access_expression" "" 54 67
                      [.ofNamed "member_access_expression" "expression" 54 65
                        [.ofNamed "member_access_expression" "expression" 54 61
                          [.ofNamed "identifier" "expression" 54 57 [],
                           .ofNamed "identifier" "name" 58 61 []],
                         .ofNamed "identifier" "name" 62 65 []],
                       .ofNamed "identifier" "name" 66 67 []]]]]]]]]]]

/-- The type and the name of the parameter. -/
def arrayNamedBaz : List Tree :=
  [.ofNamed "array_type" "type" 39 44
    [.ofNamed "predefined_type" "type" 39 42 [], .ofNamed "array_rank_specifier" "rank" 42 44 []],
   .ofNamed "identifier" "name" 45 48 []]

/-- The text of such a file, with seven characters before the type of the parameter. -/
def methodText (before : String) : Source :=
  .ofText ("using Foo.Bar;\nclass P \x7b void M(" ++ before ++
    "int[] Baz) \x7b F(Foo.Bar.Baz.V); \x7d \x7d")

/-- The method of the file. -/
def methodLabel : Label :=
  { kind := "method_declaration", field := "", named := true, start := 25, stop := 71 }

/-- The access `Foo.Bar` in the body. -/
def accessBar : Expression :=
  .access (.identifier ⟨"Foo", ⟨54, 3, 2, 40⟩, "Foo"⟩)
    ⟨⟨"Bar", ⟨58, 3, 2, 44⟩, "Bar"⟩, ⟨54, 7, 2, 40⟩, "Foo.Bar"⟩

/-- The access `Foo.Bar.Baz` in the body. -/
def formBaz : Access := ⟨⟨"Baz", ⟨62, 3, 2, 48⟩, "Baz"⟩, ⟨54, 11, 2, 40⟩, "Foo.Bar.Baz"⟩

theorem reached_methodFile (parameters : List Tree) :
    ∃ around, (methodFile parameters).Reached (methodLabel :: around)
      (.ofNamed "parameter_list" "parameters" 31 49 parameters) :=
  ⟨_, .child (.child (.child (.child .root (.tail _ (.head _)) rfl) (.tail _ (.head _)) rfl)
    (.head _) rfl) (.tail _ (.tail _ (.head _))) rfl⟩

/-- With a node of its own the parameter hides the type that the directive imports: the access in
the body stays as it is. -/
theorem lookup_parameter_baz :
    let src := methodText "       "
    let root := methodFile [.ofNamed "parameter" "" 39 48 arrayNamedBaz]
    let o := Outline.ofFile src root
    let m : Model := ⟨.build [.library "Foo.Bar.Baz"], o⟩
    root.HasParameter (.ofNamed "identifier" "name" 45 48 []) methodLabel ∧
      methodLabel.extent.contains 54 = true ∧
      m.lookup 54 "Baz" = .unique ⟨.localName, "Baz", none, ""⟩ ∧
      Rule.suggestFix (Analysis.oracleOf m.table o) formBaz
          (m.resolve (.access accessBar formBaz)) =
        .error (.resolvesElsewhere "Baz") := by
  intro src root o m
  obtain ⟨around, hlist⟩ := reached_methodFile [.ofNamed "parameter" "" 39 48 arrayNamedBaz]
  have hparameter : root.HasParameter (.ofNamed "identifier" "name" 45 48 []) methodLabel :=
    .parameter (hlist.child (.head _) rfl) rfl rfl
  have hname : src.covered (Tree.ofNamed "identifier" "name" 45 48 []).label = "Baz" := by
    decide +kernel
  have hlookup := lookup_parameter src hparameter rfl (by rw [hname]; decide)
    (show methodLabel.extent.contains 54 = true from rfl) m.table
  rw [hname] at hlookup
  exact ⟨hparameter, rfl, hlookup.1, hlookup.2 accessBar formBaz rfl rfl⟩

/-- Without one it does not: the name means the imported type, and the access loses its
qualification, although the parameter hides the type there. -/
theorem suggestFix_parameterArray :
    let src := methodText "params "
    let root := methodFile arrayNamedBaz
    let o := Outline.ofFile src root
    let m : Model := ⟨.build [.library "Foo.Bar.Baz", .file src root], o⟩
    root.HasParameterArray (.ofNamed "identifier" "name" 45 48 []) methodLabel ∧
      src.covered (Tree.ofNamed "identifier" "name" 45 48 []).label = "Baz" ∧
      methodLabel.extent.contains 54 = true ∧
      m.lookup 54 "Baz" = .unique ⟨.namedType, "Foo.Bar.Baz", none, "Foo.Bar"⟩ ∧
      Rule.suggestFix (Analysis.oracleOf m.table o) formBaz
          (m.resolve (.access accessBar formBaz)) =
        .ok ⟨⟨54, 8, 2, 40⟩, ""⟩ := by
  intro src root o m
  obtain ⟨around, hlist⟩ := reached_methodFile arrayNamedBaz
  refine ⟨.list hlist rfl rfl rfl, ?_, rfl, ?_, ?_⟩
  · decide +kernel
  · decide +kernel
  · decide +kernel

end Model

end Unqualify
