import Unqualify.Outline.OfTree
import Unqualify.Proofs.Edit.Removal
import Mathlib.Tactic.SplitIfs

/-!
# Outlines of texts that read alike

An outline takes from a text what the nodes of its syntax tree cover, and nothing else.  So a tree
declares the same in two texts in which all its nodes cover the same (`Tree.ReadsAlike`): the same
namespaces and types (`Outline.ofMembers_congr`, `Outline.ofTopLevel_congr`) and, where its
surroundings bound locals alike as seen from an offset, the same local names visible there
(`Outline.visible_localsOfAll`).
-/

namespace Unqualify

/-! ### Reading a part of a text -/

namespace Text

/-- The beginning of a text reads the same whatever follows. -/
theorem slice_append_left {u : String} {start stop : Nat} (h : stop ≤ u.utf8ByteSize)
    (v : String) : slice (u ++ v) start stop = slice u start stop := by
  have hsame : slice? (u ++ v) start stop = slice? u start stop := by
    ext t
    rw [slice?_eq_some_iff, slice?_eq_some_iff]
    constructor
    · rintro ⟨x, y, hs, rfl, rfl⟩
      obtain ⟨z, hz, -⟩ := exists_append_of_le hs.symm h
      exact ⟨x, z, hz, rfl, rfl⟩
    · rintro ⟨x, y, rfl, hx, ht⟩
      exact ⟨x, y ++ v, String.append_assoc, hx, ht⟩
  rw [slice, hsame, slice]

/-- The end of a text reads the same whatever comes before, counted from where it starts. -/
theorem slice_append_right (u v : String) (start stop : Nat) :
    slice (u ++ v) (u.utf8ByteSize + start) (u.utf8ByteSize + stop) = slice v start stop := by
  have hsame : slice? (u ++ v) (u.utf8ByteSize + start) (u.utf8ByteSize + stop) =
      slice? v start stop := by
    ext t
    rw [slice?_eq_some_iff, slice?_eq_some_iff]
    constructor
    · rintro ⟨x, y, hs, hx, ht⟩
      rw [String.append_assoc] at hs
      obtain ⟨z, rfl, rfl⟩ := exists_append_of_le hs (by omega)
      simp only [String.utf8ByteSize_append] at hx ht
      refine ⟨z, y, by rw [String.append_assoc], by omega, ?_⟩
      rw [String.utf8ByteSize_append]
      omega
    · rintro ⟨x, y, rfl, rfl, rfl⟩
      refine ⟨u ++ x, y, by simp only [String.append_assoc], ?_, ?_⟩
      · rw [String.utf8ByteSize_append]
      · simp only [String.utf8ByteSize_append]
        omega
  rw [slice, hsame, slice]

end Text

/-- Every node of a tree covers the same in two texts. -/
inductive Tree.ReadsAlike (src src' : Source) : Tree → Prop
  /-- A node that covers the same, with such nodes below it. -/
  | node {label : Label} {children : List Tree} (here : src.covered label = src'.covered label)
    (below : ∀ t ∈ children, t.ReadsAlike src src') : Tree.ReadsAlike src src' (.node label children)

variable {src src' : Source}

namespace Tree

theorem ReadsAlike.covered_eq {t : Tree} (h : t.ReadsAlike src src') :
    src.covered t.label = src'.covered t.label := by
  cases h with
  | node here _ => exact here

theorem ReadsAlike.children {t : Tree} (h : t.ReadsAlike src src') :
    ∀ u ∈ t.children, u.ReadsAlike src src' := by
  cases h with
  | node _ below => exact below

theorem mem_of_field? {field : String} {ts : List Tree} {t : Tree} (h : field? field ts = some t) :
    t ∈ ts := List.mem_of_find?_eq_some h

end Tree

namespace Outline

variable {ts : List Tree} (h : ∀ t ∈ ts, t.ReadsAlike src src')

include h

/-! ### Namespaces and types -/

theorem map_covered_field?_congr (field : String) :
    ((Tree.field? field ts).map fun t => src.covered t.label) =
      (Tree.field? field ts).map fun t => src'.covered t.label := by
  cases hfield : Tree.field? field ts with
  | none => rfl
  | some t => rw [Option.map_some, Option.map_some, (h t (Tree.mem_of_field? hfield)).covered_eq]

theorem declaredName?_congr : declaredName? src ts = declaredName? src' ts := by
  simp only [declaredName?, Option.bind_eq_bind]
  cases hname : Tree.field? "name" ts with
  | none => rw [Option.bind_none, Option.bind_none]
  | some name =>
    rw [Option.bind_some, Option.bind_some, (h name (Tree.mem_of_field? hname)).covered_eq]

theorem usingsOf_congr : usingsOf src ts = usingsOf src' ts := by
  refine List.filterMap_congr fun t ht => ?_
  rw [(h t (List.mem_filter.1 ht).1).covered_eq]

theorem variableNames_congr : variableNames src ts = variableNames src' ts := by
  refine List.flatMap_congr fun declaration hdeclaration => ?_
  refine List.filterMap_congr fun declarator hdeclarator => ?_
  simp only [Tree.namedOnly, List.mem_filter] at hdeclaration hdeclarator
  have hbelow := (h declaration hdeclaration.1.1).children declarator hdeclarator.1.1
  exact map_covered_field?_congr hbelow.children "name"

omit h in
theorem memberNames_congr {t : Tree} (h : t.ReadsAlike src src') :
    memberNames src t = memberNames src' t := by
  have hown : ((Tree.field? "name" t.children).toList.map fun name => src.covered name.label) =
      (Tree.field? "name" t.children).toList.map fun name => src'.covered name.label := by
    rw [← Option.toList_map, ← Option.toList_map, map_covered_field?_congr h.children]
  simp only [memberNames, hown, variableNames_congr h.children]

omit h in
theorem membersOf_congr {body : Option Tree} (h : ∀ b ∈ body, b.ReadsAlike src src') :
    membersOf src body = membersOf src' body := by
  rw [membersOf, membersOf]
  refine List.flatMap_congr fun t ht => ?_
  cases body with
  | none => cases ht
  | some b =>
    simp only [Tree.namedOnly, Option.map_some, Option.getD_some, List.mem_filter] at ht
    exact memberNames_congr ((h b rfl).children t ht.1.1)

omit h in
theorem blocks_congr {children : List Tree} (h : ∀ t ∈ children, t.ReadsAlike src src')
    (name : String) (extent : Extent) :
    ((Tree.field? "body" children).toList.map fun body =>
        ({ name, extent, usings := usingsOf src body.children } : NamespaceBlock)) =
      (Tree.field? "body" children).toList.map fun body =>
        { name, extent, usings := usingsOf src' body.children } := by
  refine List.map_congr_left fun body hbody => ?_
  have hmem := Tree.mem_of_field? (Option.mem_toList.1 hbody)
  rw [usingsOf_congr (h body hmem).children]

omit h in
mutual

theorem ofMember_congr (space : String) (outer : List String) :
    (t : Tree) → t.ReadsAlike src src' → ofMember src space outer t = ofMember src' space outer t
  | .node label children, h => by
    have hbelow : ∀ t ∈ children, t.ReadsAlike src src' := h.children
    have hname := map_covered_field?_congr hbelow "name"
    have hbody (space : String) (outer : List String) := ofBody_congr space outer children hbelow
    have hmembers : membersOf src (Tree.field? "body" children) =
        membersOf src' (Tree.field? "body" children) :=
      membersOf_congr fun b hb => hbelow b (Tree.mem_of_field? hb)
    simp only [ofMember, declaredName?_congr hbelow, blocks_congr hbelow, hname, hbody, hmembers]

theorem ofBody_congr (space : String) (outer : List String) :
    (ts : List Tree) → (∀ t ∈ ts, t.ReadsAlike src src') →
      ofBody src space outer ts = ofBody src' space outer ts
  | [], _ => by rw [ofBody, ofBody]
  | .node label children :: ts, h => by
    obtain ⟨ht, hts⟩ := List.forall_mem_cons.1 h
    rw [ofBody, ofBody, ofMembers_congr space outer children ht.children,
      ofBody_congr space outer ts hts]

theorem ofMembers_congr (space : String) (outer : List String) :
    (ts : List Tree) → (∀ t ∈ ts, t.ReadsAlike src src') →
      ofMembers src space outer ts = ofMembers src' space outer ts
  | [], _ => by rw [ofMembers, ofMembers]
  | t :: ts, h => by
    obtain ⟨ht, hts⟩ := List.forall_mem_cons.1 h
    rw [ofMembers, ofMembers, ofMember_congr space outer t ht, ofMembers_congr space outer ts hts]

end

/-! ### Top level -/

omit h in
theorem append_assoc (a b c : Outline) : a ++ b ++ c = a ++ (b ++ c) := by
  change append (append a b) c = append a (append b c)
  simp [append]

omit h in
theorem empty_append (a : Outline) : {} ++ a = a := rfl

omit h in
theorem append_empty (a : Outline) : a ++ {} = a := by
  change append a {} = a
  simp [append]

/-- No tree of a list declares a namespace for the rest of the file. -/
def NoFileScoped (ts : List Tree) : Prop :=
  ∀ t ∈ ts, t.label.kind ≠ "file_scoped_namespace_declaration"

theorem ofTopLevel_congr (hnone : NoFileScoped ts) (fileEnd fileEnd' : Nat) (space : String) :
    ofTopLevel src fileEnd space ts = ofTopLevel src' fileEnd' space ts := by
  induction ts with
  | nil => rfl
  | cons t ts ih =>
    obtain ⟨ht, hts⟩ := List.forall_mem_cons.1 h
    obtain ⟨hkind, hkinds⟩ := List.forall_mem_cons.1 hnone
    rw [ofTopLevel, ofTopLevel, if_neg hkind, if_neg hkind, ih hts hkinds, ht.covered_eq,
      ofMember_congr space [] t ht]

omit h in
/-- Parts of a file that declare no namespace for the rest of it stand for themselves. -/
theorem ofTopLevel_append {xs : List Tree} (hnone : NoFileScoped xs) (fileEnd : Nat)
    (space : String) (ys : List Tree) :
    ofTopLevel src fileEnd space (xs ++ ys) =
      ofTopLevel src fileEnd space xs ++ ofTopLevel src fileEnd space ys := by
  induction xs with
  | nil => rfl
  | cons t ts ih =>
    obtain ⟨hkind, hkinds⟩ := List.forall_mem_cons.1 hnone
    rw [List.cons_append, ofTopLevel, ofTopLevel, if_neg hkind, if_neg hkind, ih hkinds]
    split_ifs
    · rfl
    · rw [append_assoc]
    · rw [append_assoc]

/-- An outline of declarations alone. -/
def OnlyDeclares (o : Outline) : Prop := o.usings = [] ∧ o.locals = []

omit h in
theorem OnlyDeclares.append {a b : Outline} (ha : a.OnlyDeclares) (hb : b.OnlyDeclares) :
    (a ++ b).OnlyDeclares := by
  obtain ⟨hau, hal⟩ := ha
  obtain ⟨hbu, hbl⟩ := hb
  exact ⟨by rw [usings_append, hau, hbu]; rfl, by rw [locals_append, hal, hbl]; rfl⟩

omit h in
mutual

theorem onlyDeclares_ofMember (space : String) (outer : List String) :
    (t : Tree) → (ofMember src space outer t).OnlyDeclares
  | .node label children => by
    rw [ofMember]
    split_ifs
    · split
      · exact ⟨rfl, rfl⟩
      · exact .append ⟨rfl, rfl⟩ (onlyDeclares_ofBody _ [] children)
    · split
      · exact ⟨rfl, rfl⟩
      · split_ifs
        · exact ⟨rfl, rfl⟩
        · exact .append ⟨rfl, rfl⟩ (onlyDeclares_ofBody space _ children)
    · exact ⟨rfl, rfl⟩

theorem onlyDeclares_ofBody (space : String) (outer : List String) :
    (ts : List Tree) → (ofBody src space outer ts).OnlyDeclares
  | [] => by
    rw [ofBody]
    exact ⟨rfl, rfl⟩
  | .node label children :: ts => by
    rw [ofBody]
    split_ifs
    · exact onlyDeclares_ofMembers space outer children
    · exact onlyDeclares_ofBody space outer ts

/-- Members declare neither directives nor local names. -/
theorem onlyDeclares_ofMembers (space : String) (outer : List String) :
    (ts : List Tree) → (ofMembers src space outer ts).OnlyDeclares
  | [] => by
    rw [ofMembers]
    exact ⟨rfl, rfl⟩
  | t :: ts => by
    rw [ofMembers]
    refine .append ?_ (onlyDeclares_ofMembers space outer ts)
    split_ifs
    · exact onlyDeclares_ofMember space outer t
    · exact ⟨rfl, rfl⟩

end

omit h in
theorem usingsOf_cons (t : Tree) (ts : List Tree) :
    usingsOf src (t :: ts) =
      (if t.label.named = true ∧ t.label.kind = "using_directive"
        then (Using.parse? (src.covered t.label)).toList else []) ++ usingsOf src ts := by
  rw [usingsOf, usingsOf, Tree.namedOnly, Tree.namedOnly]
  by_cases hnamed : t.label.named = true
  · rw [List.filter_cons, if_pos hnamed, List.filterMap_cons]
    by_cases hkind : t.label.kind = "using_directive"
    · rw [if_pos hkind, if_pos ⟨hnamed, hkind⟩]
      cases Using.parse? (src.covered t.label) <;> rfl
    · rw [if_neg hkind, if_neg fun hboth => hkind hboth.2]
      rfl
  · rw [List.filter_cons, if_neg hnamed, if_neg fun hboth => hnamed hboth.1]
    rfl

omit h in
theorem ofMember_directive {t : Tree} (ht : t.label.kind = "using_directive") (space : String)
    (outer : List String) : ofMember src space outer t = {} := by
  obtain ⟨label, children⟩ := t
  have hkind : label.kind = "using_directive" := ht
  rw [ofMember, hkind, if_neg (by simp), if_neg (by decide)]

omit h in
/-- The top level declares what its trees declare as members, and has their directives besides. -/
theorem ofTopLevel_eq (hnone : NoFileScoped ts) (fileEnd : Nat) (space : String) :
    ofTopLevel src fileEnd space ts =
      { ofMembers src space [] ts with usings := usingsOf src ts } := by
  induction ts with
  | nil => rfl
  | cons t ts ih =>
    obtain ⟨hkind, hkinds⟩ := List.forall_mem_cons.1 hnone
    have hdirectives : (ofMember src space [] t).usings = [] :=
      (onlyDeclares_ofMember space [] t).1
    rw [ofTopLevel, if_neg hkind, ih hkinds, ofMembers, usingsOf_cons]
    generalize ofMembers src space [] ts = rest
    generalize usingsOf src ts = usings
    generalize (Using.parse? (src.covered t.label)).toList = own
    by_cases hnamed : t.label.named = true
    · rw [if_neg (by simp [hnamed]), if_pos hnamed]
      by_cases husing : t.label.kind = "using_directive"
      · rw [if_pos husing, if_pos ⟨hnamed, husing⟩, ofMember_directive husing]
        rfl
      · rw [if_neg husing, if_neg fun hboth => husing hboth.2]
        generalize ofMember src space [] t = member at hdirectives
        change append member { rest with usings } = { append member rest with usings }
        rw [append, append, hdirectives]
        rfl
    · rw [if_pos (by simpa using hnamed), if_neg hnamed, if_neg fun hboth => hnamed hboth.1]
      rfl

omit h in
theorem locals_ofTopLevel (hnone : NoFileScoped ts) (fileEnd : Nat) (space : String) :
    (ofTopLevel src fileEnd space ts).locals = [] := by
  rw [ofTopLevel_eq hnone]
  exact (onlyDeclares_ofMembers space [] ts).2

/-! ### Local names -/

/-- The names of the locals that are visible at an offset. -/
def visible (offset : Nat) (locals : List Local) : List String :=
  (locals.filter (·.extent.contains offset)).map (·.name)

/-- Whether an offset lies in a scope. -/
def sees (offset : Nat) (scope : Option Label) : Bool :=
  scope.any (·.extent.contains offset)

omit h in
theorem visible_append (offset : Nat) (as bs : List Local) :
    visible offset (as ++ bs) = visible offset as ++ visible offset bs := by
  rw [visible, List.filter_append, List.map_append]
  rfl

omit h in
theorem visible_flatMap {α : Type} (offset : Nat) (as : List α) (f : α → List Local) :
    visible offset (as.flatMap f) = as.flatMap fun a => visible offset (f a) := by
  induction as with
  | nil => rfl
  | cons a as ih => rw [List.flatMap_cons, List.flatMap_cons, visible_append, ih]

omit h in
/-- A name is declared where an offset sees its scope. -/
theorem visible_declare (offset : Nat) (name : Tree) (scope : Option Label) :
    visible offset (declare src (some name) scope) =
      if ((name.label.kind = "identifier" ∨ name.label.kind = "implicit_parameter") ∧
        src.covered name.label ≠ "") ∧ sees offset scope = true
      then [src.covered name.label] else [] := by
  cases scope with
  | none =>
    rw [if_neg (by simp [sees])]
    rfl
  | some scope =>
    rw [declare]
    by_cases hname : (name.label.kind = "identifier" ∨ name.label.kind = "implicit_parameter") ∧
        src.covered name.label ≠ ""
    · by_cases hsees : scope.extent.contains offset = true
      · rw [if_pos hname, if_pos ⟨hname, by simpa [sees] using hsees⟩]
        simp [visible, hsees]
      · rw [if_pos hname, if_neg fun hboth => hsees (by simpa [sees] using hboth.2)]
        simp [visible, hsees]
    · rw [if_neg hname, if_neg fun hboth => hname hboth.1]
      rfl

omit h in
theorem visible_declare_congr {offset : Nat} {name : Option Tree}
    (h : ∀ t ∈ name, src.covered t.label = src'.covered t.label) {scope scope' : Option Label}
    (hscope : sees offset scope = sees offset scope') :
    visible offset (declare src name scope) = visible offset (declare src' name scope') := by
  cases name with
  | none => rfl
  | some t => rw [visible_declare, visible_declare, h t rfl, hscope]

/-- An offset sees the same among the nodes around a place in two trees. -/
structure SeenAlike (offset : Nat) (around around' : List Label) : Prop where
  /-- The nearest node. -/
  nearest : sees offset around.head? = sees offset around'.head?
  /-- The node that bounds locals. -/
  scope : sees offset (enclosingScope? around) = sees offset (enclosingScope? around')

omit h in
theorem SeenAlike.cons {offset : Nat} {around around' : List Label}
    (h : SeenAlike offset around around') (l : Label) :
    SeenAlike offset (l :: around) (l :: around') := by
  refine ⟨rfl, ?_⟩
  rw [enclosingScope?, enclosingScope?]
  split_ifs
  · rfl
  · rfl
  · exact h.scope

omit h in
theorem visible_localsAt {offset : Nat} {around around' : List Label}
    (haround : SeenAlike offset around around') {t : Tree} (h : t.ReadsAlike src src')
    (howner : t.label.kind = "parameter" →
      sees offset around.tail.head? = sees offset around'.tail.head?) :
    visible offset (localsAt src around t) = visible offset (localsAt src' around' t) := by
  obtain ⟨label, children⟩ := t
  have hfield (field : String) : ∀ t ∈ Tree.field? field children,
      src.covered t.label = src'.covered t.label :=
    fun t ht => (h.children t (Tree.mem_of_field? ht)).covered_eq
  rw [localsAt, localsAt]
  split
  · next hkind => exact visible_declare_congr (hfield "name") (howner hkind)
  · refine visible_declare_congr (fun t ht => ?_) haround.nearest
    cases ht
    exact h.covered_eq
  · exact visible_declare_congr (hfield "name") haround.nearest
  · refine visible_declare_congr (fun t ht => ?_) rfl
    exact hfield "left" t (Option.mem_filter_iff.1 ht).1
  · exact visible_declare_congr (hfield "name") haround.scope
  · exact visible_declare_congr (hfield "name") haround.scope
  · split_ifs
    · rw [visible_flatMap, visible_flatMap]
      refine List.flatMap_congr fun name hname => ?_
      refine visible_declare_congr (fun t ht => ?_) haround.scope
      cases ht
      exact (h.children name (List.mem_filter.1 hname).1).covered_eq
    · rfl

omit h in
mutual

theorem visible_localsOf {offset : Nat} {around around' : List Label}
    (haround : SeenAlike offset around around') :
    (t : Tree) → t.ReadsAlike src src' →
      (t.label.kind = "parameter" →
        sees offset around.tail.head? = sees offset around'.tail.head?) →
      visible offset (localsOf src around t) = visible offset (localsOf src' around' t)
  | .node label children, h, howner => by
    rw [localsOf, localsOf, visible_append, visible_append, visible_localsAt haround h howner,
      visible_localsOfAll (haround.cons label) children h.children fun _ _ _ => haround.nearest]

/-- **The same local names are visible at an offset in trees that read alike**, if the offset sees
the same around them. -/
theorem visible_localsOfAll {offset : Nat} {around around' : List Label}
    (haround : SeenAlike offset around around') :
    (ts : List Tree) → (∀ t ∈ ts, t.ReadsAlike src src') →
      (∀ t ∈ ts, t.label.kind = "parameter" →
        sees offset around.tail.head? = sees offset around'.tail.head?) →
      visible offset (localsOfAll src around ts) = visible offset (localsOfAll src' around' ts)
  | [], _, _ => by rw [localsOfAll, localsOfAll]
  | t :: ts, h, howner => by
    obtain ⟨ht, hts⟩ := List.forall_mem_cons.1 h
    obtain ⟨hparameter, hparameters⟩ := List.forall_mem_cons.1 howner
    rw [localsOfAll, localsOfAll, visible_append, visible_append,
      visible_localsOfAll haround ts hts hparameters]
    split_ifs
    · rw [visible_localsOf haround t ht hparameter]
    · rfl

end

end Outline

end Unqualify
