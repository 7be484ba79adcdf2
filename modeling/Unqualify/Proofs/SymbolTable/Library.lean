import Unqualify.Analysis
import Unqualify.Proofs.Name

/-!
# Which texts are library types

A library type is written as a dotted path of identifiers, followed by the identifiers of nested
types with a plus sign before each.  Reading one cuts the text at its plus signs and the first piece
at its dots, and asks of the pieces that they are identifiers.  The grammar is stated apart from
that, rule by rule (`LibraryType.Dotted`, `LibraryType.Nesting`), and the two are compared in
`LibraryType.isSome_parse?_iff`.

They differ in one place.  The namespace before the last dot is not looked at when it is empty, and
it is empty for a text that begins with its only dot as well as for one without dots: a single
identifier behind a dot (`LibraryType.DotFirst`) is read as if the dot were not there.
-/

namespace Unqualify

namespace LibraryType

open Name (IsIdentifier segments ofSegments)

/-- A dotted path: an identifier, and further ones with a dot before each. -/
inductive Dotted : String → Prop
  /-- One identifier. -/
  | identifier {name : String} (hname : IsIdentifier name) : Dotted name
  /-- One more identifier behind a path. -/
  | qualified {path name : String} (hpath : Dotted path) (hname : IsIdentifier name) :
      Dotted (path ++ "." ++ name)

/-- A single identifier behind a dot. -/
def DotFirst (path : String) : Prop := ∃ name, path = "." ++ name ∧ IsIdentifier name

/-- An outermost type, and the identifiers of nested types with a plus sign before each. -/
inductive Nesting (Outermost : String → Prop) : String → Prop
  /-- The outermost type alone. -/
  | outermost {path : String} (hpath : Outermost path) : Nesting Outermost path
  /-- One more type inside. -/
  | nested {outer name : String} (houter : Nesting Outermost outer) (hname : IsIdentifier name) :
      Nesting Outermost (outer ++ "+" ++ name)

/-! ### The outermost type by its segments -/

theorem segments_of_isIdentifier {name : String} (h : IsIdentifier name) : segments name = [name] :=
  Text.split_of_not_mem h.dot_not_mem

theorem dotted_ofSegments {xs : List String} (hne : xs ≠ []) (h : ∀ x ∈ xs, IsIdentifier x) :
    Dotted (ofSegments xs) := by
  induction xs using List.reverseRecOn with
  | nil => exact absurd rfl hne
  | append_singleton xs x ih =>
    have hx := h x (by simp)
    by_cases hxs : xs = []
    · simpa [hxs, ofSegments] using Dotted.identifier hx
    · rw [Name.ofSegments_concat hxs]
      exact .qualified (ih hxs fun y hy => h y (List.mem_append_left _ hy)) hx

/-- A path is dotted exactly when its segments are identifiers. -/
theorem dotted_iff {path : String} : Dotted path ↔ ∀ x ∈ segments path, IsIdentifier x := by
  constructor
  · intro h
    induction h with
    | identifier hname => simpa [segments_of_isIdentifier hname] using hname
    | qualified _ hname ih =>
      rw [Name.segments_append, segments_of_isIdentifier hname]
      simpa [or_imp, forall_and] using And.intro ih hname
  · intro h
    rw [← Name.ofSegments_segments path]
    exact dotted_ofSegments (Name.segments_ne_nil path) h

/-- A path is an identifier behind a dot exactly when its segments are an empty one and the
identifier. -/
theorem dotFirst_iff {path : String} :
    DotFirst path ↔ ∃ name, segments path = ["", name] ∧ IsIdentifier name := by
  refine exists_congr fun name => and_congr_left fun hname => ?_
  have hsegments : segments ("." ++ name) = ["", name] := by
    rw [← String.empty_append (s := "."), Name.segments_append, segments_of_isIdentifier hname]
    rfl
  constructor
  · rintro rfl
    exact hsegments
  · intro h
    rw [← Name.ofSegments_segments path, h, ← hsegments, Name.ofSegments_segments]

/-! ### Nested types by the pieces between plus signs -/

theorem toList_plus : "+".toList = ['+'] := rfl

theorem plus_not_mem_of_isIdentifier {name : String} (h : IsIdentifier name) :
    '+' ∉ name.toList :=
  fun hplus => absurd (h.mem hplus) (by decide +kernel)

theorem Dotted.plus_not_mem {path : String} (h : Dotted path) : '+' ∉ path.toList := by
  induction h with
  | identifier hname => exact plus_not_mem_of_isIdentifier hname
  | qualified _ hname ih => simp [ih, plus_not_mem_of_isIdentifier hname]

theorem DotFirst.plus_not_mem {path : String} (h : DotFirst path) : '+' ∉ path.toList := by
  obtain ⟨name, rfl, hname⟩ := h
  simp [plus_not_mem_of_isIdentifier hname]

variable {Outermost : String → Prop}

theorem Nesting.exists_split {entry : String} (h : Nesting Outermost entry)
    (hplus : ∀ path, Outermost path → '+' ∉ path.toList) :
    ∃ head nested, Text.split '+' entry = head :: nested ∧ Outermost head ∧
      ∀ x ∈ nested, IsIdentifier x := by
  induction h with
  | @outermost path hpath =>
    exact ⟨path, [], Text.split_of_not_mem (hplus path hpath), hpath, by simp⟩
  | @nested outer name _ hname ih =>
    obtain ⟨head, nested, hsplit, hhead, hnested⟩ := ih
    refine ⟨head, nested ++ [name], ?_, hhead, ?_⟩
    · rw [Text.split_append toList_plus, hsplit,
        Text.split_of_not_mem (plus_not_mem_of_isIdentifier hname), List.cons_append]
    · simpa [or_imp, forall_and] using And.intro hnested hname

theorem nesting_intercalate {head : String} {nested : List String} (hhead : Outermost head)
    (hnested : ∀ x ∈ nested, IsIdentifier x) :
    Nesting Outermost ("+".intercalate (head :: nested)) := by
  induction nested using List.reverseRecOn with
  | nil => simpa using Nesting.outermost hhead
  | append_singleton nested x ih =>
    rw [← List.cons_append, String.intercalate_append_of_ne_nil (by simp) (by simp),
      String.intercalate_singleton]
    exact .nested (ih fun y hy => hnested y (List.mem_append_left _ hy)) (hnested x (by simp))

/-- Cut at its plus signs, a type with nested types is the outermost type and identifiers. -/
theorem nesting_iff (hplus : ∀ path, Outermost path → '+' ∉ path.toList) {entry head : String}
    {nested : List String} (hsplit : Text.split '+' entry = head :: nested) :
    Nesting Outermost entry ↔ Outermost head ∧ ∀ x ∈ nested, IsIdentifier x := by
  constructor
  · intro h
    obtain ⟨head', nested', hsplit', hparts⟩ := h.exists_split hplus
    obtain ⟨rfl, rfl⟩ := List.cons.inj (hsplit.symm.trans hsplit')
    exact hparts
  · rintro ⟨hhead, hnested⟩
    rw [← Text.intercalate_split toList_plus entry, hsplit]
    exact nesting_intercalate hhead hnested

/-! ### What is read -/

/-- The segments before the last dot are checked, unless there is a single empty one. -/
theorem parts_split {entry head name : String} {nested spaces : List String}
    (hsplit : Text.split '+' entry = head :: nested) (hhead : segments head = spaces ++ [name]) :
    (split entry).parts = (if spaces = [""] then [] else spaces) ++ name :: nested := by
  have hdots : ∀ x ∈ spaces, '.' ∉ x.toList := fun x hx =>
    Name.dot_not_mem_of_mem_segments (hhead ▸ List.mem_append_left _ hx)
  have hparts : (split entry).parts =
      (if ofSegments spaces = "" then [] else segments (ofSegments spaces)) ++ name :: nested := by
    simp [split, hsplit, hhead, parts]
  rw [hparts]
  by_cases hne : spaces = []
  · simp [hne, ofSegments]
  · have hsegments := Name.segments_ofSegments hne hdots
    by_cases hempty : ofSegments spaces = ""
    · have hone : spaces = [""] := by rw [← hsegments, hempty]; rfl
      simp [hone, ofSegments]
    · have hone : spaces ≠ [""] := by rintro rfl; exact hempty rfl
      rw [if_neg hempty, if_neg hone, hsegments]

theorem isSome_parse?_iff_parts {entry : String} :
    (parse? entry).isSome = true ↔ ∀ x ∈ (split entry).parts, IsIdentifier x := by
  rw [parse?]
  simp [Name.isIdentifier_iff]

/-- **Which texts are read as library types**: those that begin with a dotted path, or with a single
identifier behind a dot, and go on with the identifiers of nested types. -/
theorem isSome_parse?_iff {entry : String} :
    (parse? entry).isSome = true ↔ Nesting Dotted entry ∨ Nesting DotFirst entry := by
  obtain ⟨head, nested, hsplit⟩ := List.exists_cons_of_ne_nil (Text.split_ne_nil '+' entry)
  obtain ⟨spaces, name, hhead⟩ : ∃ spaces name, segments head = spaces ++ [name] :=
    (List.eq_nil_or_concat' (segments head)).resolve_left (Name.segments_ne_nil head)
  have hempty : ¬IsIdentifier "" := fun h => h.ne_empty rfl
  rw [isSome_parse?_iff_parts, nesting_iff (fun _ h => h.plus_not_mem) hsplit,
    nesting_iff (fun _ h => h.plus_not_mem) hsplit, parts_split hsplit hhead, dotted_iff,
    dotFirst_iff, hhead, ← or_and_right]
  by_cases hspaces : spaces = [""]
  · -- the empty segment before the dot is not checked
    subst hspaces
    simp [hempty]
  · have hdotFirst : ¬∃ x, spaces ++ [name] = ["", x] ∧ IsIdentifier x := by
      rintro ⟨x, heq, -⟩
      exact hspaces (List.append_inj_left' (heq : _ = [""] ++ [x]) rfl)
    rw [if_neg hspaces, or_iff_left hdotFirst]
    simp [or_imp, forall_and, and_assoc]

end LibraryType

namespace Analysis

open LibraryType (Dotted DotFirst Nesting)

/-- **A library type is accepted by its written form alone.**  Into whatever table, a text is taken
exactly when it is a dotted path of identifiers followed by identifiers with a plus sign before
each, or the same with a single identifier behind a dot in place of the path.  Every other text is
refused as an invalid library type. -/
theorem addLibraryEntry_ok_iff (t : SymbolTable) (entry : String) :
    ((∃ t', addLibraryEntry t entry = .ok t') ↔ Nesting Dotted entry ∨ Nesting DotFirst entry) ∧
    (addLibraryEntry t entry =
        .error (.invalidLibraryType entry "segments must be identifiers") ↔
      ¬(Nesting Dotted entry ∨ Nesting DotFirst entry)) := by
  rw [← LibraryType.isSome_parse?_iff, addLibraryEntry]
  cases LibraryType.parse? entry with
  | some l => simp
  | none => simp

/-- A dot before a type without a namespace is accepted, although no path begins with one. -/
theorem dot_before_type_accepted :
    (∃ t', addLibraryEntry SymbolTable.empty ".A" = .ok t') ∧ ¬Nesting Dotted ".A" := by
  constructor
  · exact ⟨_, rfl⟩
  · intro h
    have hsplit : Text.split '+' ".A" = [".A"] := by decide
    have hpath := ((LibraryType.nesting_iff (fun _ h => h.plus_not_mem) hsplit).1 h).1
    exact (LibraryType.dotted_iff.1 hpath "" (by decide)).ne_empty rfl

end Analysis

end Unqualify
