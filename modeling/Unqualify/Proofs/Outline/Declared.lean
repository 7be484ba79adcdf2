import Unqualify.Outline.OfTree
import Mathlib.Tactic.SplitIfs

/-!
# Declarations of a file

The walk over a syntax tree goes down into the bodies of namespaces and types and knows at every
place the namespace and the types around it.  What each of these two ways down preserves, and what
holds of nothing and of two parts together, holds of a whole file (`Outline.WalkInvariant.ofFile`).
Three facts come out of it:

* a type is collected with the namespace it stands in, and that namespace is either the one in
  force where the walk began or one that the file declares itself (`Outline.DeclaredIn`);
* the types around a collected type are collected as well (`Outline.Enclosed`);
* no collected type has the empty name (`Outline.name_ne_empty_of_mem_types`).
-/

namespace Unqualify

/-- The declaration is inside no type, or the type directly around it is among the declarations
`ds`. -/
def TypeDeclaration.EnclosedIn (ds : List TypeDeclaration) (d : TypeDeclaration) : Prop :=
  d.outer = [] ∨ ∃ d' ∈ ds, d'.inNamespace = d.inNamespace ∧ d'.outer ++ [d'.name] = d.outer

theorem TypeDeclaration.EnclosedIn.mono {ds ds' : List TypeDeclaration} {d : TypeDeclaration}
    (h : d.EnclosedIn ds) (hsub : ds ⊆ ds') : d.EnclosedIn ds' := by
  rcases h with h | ⟨d', hd', haround⟩
  · exact Or.inl h
  · exact Or.inr ⟨d', hsub hd', haround⟩

namespace Outline

/-- A property of what is declared inside a namespace and inside types, outermost first, that the
walk over a syntax tree builds up. -/
structure WalkInvariant (P : String → List String → Outline → Prop) : Prop where
  /-- It holds where no type is declared. -/
  of_types_eq_nil : ∀ {space outer o}, o.types = [] → P space outer o
  /-- It holds of two parts of a file together. -/
  append : ∀ {space outer a b}, P space outer a → P space outer b → P space outer (a ++ b)
  /-- It holds around a namespace whose body it holds of. -/
  declareNamespace : ∀ {space full a b}, a.types = [] → full ∈ a.namespaces → P full [] b →
    P space [] (a ++ b)
  /-- It holds of a type that has a name and whose body it holds of. -/
  declareType : ∀ (d : TypeDeclaration) {b}, d.name ≠ "" →
    P d.inNamespace (d.outer ++ [d.name]) b → P d.inNamespace d.outer ({ types := [d] } ++ b)

namespace WalkInvariant

variable {P : String → List String → Outline → Prop} (h : WalkInvariant P) (src : Source)

include h

mutual

theorem ofMember (space : String) (outer : List String) :
    (t : Tree) → P space outer (ofMember src space outer t)
  | .node label children => by
    rw [Outline.ofMember]
    split_ifs with hspace
    · obtain ⟨-, rfl⟩ := hspace
      split
      · exact h.of_types_eq_nil rfl
      · exact h.declareNamespace rfl (by simp) (ofBody _ [] children)
    · split
      · exact h.of_types_eq_nil rfl
      · split_ifs with hname
        · exact h.of_types_eq_nil rfl
        · exact h.declareType ⟨space, outer, _, _, _⟩ hname (ofBody space _ children)
    · exact h.of_types_eq_nil rfl

theorem ofBody (space : String) (outer : List String) :
    (ts : List Tree) → P space outer (ofBody src space outer ts)
  | [] => by rw [Outline.ofBody]; exact h.of_types_eq_nil rfl
  | .node label children :: ts => by
    rw [Outline.ofBody]
    split_ifs
    · exact ofMembers space outer children
    · exact ofBody space outer ts

theorem ofMembers (space : String) (outer : List String) :
    (ts : List Tree) → P space outer (ofMembers src space outer ts)
  | [] => by rw [Outline.ofMembers]; exact h.of_types_eq_nil rfl
  | t :: ts => by
    rw [Outline.ofMembers]
    refine h.append ?_ (ofMembers space outer ts)
    split_ifs
    · exact ofMember space outer t
    · exact h.of_types_eq_nil rfl

end

theorem ofTopLevel (fileEnd : Nat) (space : String) (ts : List Tree) :
    P space [] (ofTopLevel src fileEnd space ts) := by
  induction ts generalizing space with
  | nil => rw [Outline.ofTopLevel]; exact h.of_types_eq_nil rfl
  | cons t ts ih =>
    rw [Outline.ofTopLevel]
    split_ifs
    · exact ih space
    · exact h.append (h.of_types_eq_nil rfl) (ih space)
    · split
      · exact ih space
      · exact h.declareNamespace rfl (by simp) (ih _)
    · exact h.append (h.ofMember src space [] t) (ih space)

/-- **What the walk builds up holds of every file.**  It begins in the global namespace and in no
type. -/
theorem ofFile (tree : Tree) : P "" [] (ofFile src tree) :=
  h.append (h.ofTopLevel src _ "" _) (h.of_types_eq_nil rfl)

end WalkInvariant

/-! ### Namespaces of types -/

/-- The types of the outline stand in `space` or in namespaces that the outline declares. -/
def DeclaredIn (space : String) (o : Outline) : Prop :=
  ∀ d ∈ o.types, d.inNamespace = space ∨ d.inNamespace ∈ o.namespaces

theorem walkInvariant_declaredIn : WalkInvariant fun space _ o => o.DeclaredIn space where
  of_types_eq_nil := by
    intro space outer o ho d hd
    rw [ho] at hd
    cases hd
  append := by
    intro space outer a b ha hb d hd
    rw [types_append, List.mem_append] at hd
    rw [namespaces_append, List.mem_append]
    rcases hd with hd | hd
    · exact (ha d hd).imp_right Or.inl
    · exact (hb d hd).imp_right Or.inr
  declareNamespace := by
    intro space full a b ha hfull hb d hd
    rw [types_append, ha, List.nil_append] at hd
    rw [namespaces_append, List.mem_append]
    rcases hb d hd with hd | hd
    · exact Or.inr (Or.inl (hd ▸ hfull))
    · exact Or.inr (Or.inr hd)
  declareType := by
    intro d b _ hb d' hd'
    rcases List.mem_cons.1 hd' with rfl | hd'
    · exact Or.inl rfl
    · exact hb d' hd'

/-- **Every type of a file stands in the global namespace or in one that the file declares.** -/
theorem declaredIn_ofFile (src : Source) (tree : Tree) : (ofFile src tree).DeclaredIn "" :=
  walkInvariant_declaredIn.ofFile src tree

/-! ### Types around types -/

/-- With every type inside a type, the outline declares the one around it. -/
def Enclosed (o : Outline) : Prop := ∀ d ∈ o.types, d.EnclosedIn o.types

theorem walkInvariant_enclosed : WalkInvariant fun space outer o =>
    ∀ d ∈ o.types, (d.inNamespace = space ∧ d.outer = outer) ∨ d.EnclosedIn o.types where
  of_types_eq_nil := by
    intro space outer o ho d hd
    rw [ho] at hd
    cases hd
  append := by
    intro space outer a b ha hb d hd
    rcases List.mem_append.1 hd with hd | hd
    · exact (ha d hd).imp_right (·.mono (by simp))
    · exact (hb d hd).imp_right (·.mono (by simp))
  declareNamespace := by
    intro space full a b ha _ hb d hd
    rw [types_append, ha, List.nil_append] at hd
    rcases hb d hd with ⟨-, hd⟩ | hd
    · exact Or.inr (Or.inl hd)
    · exact Or.inr (hd.mono (by simp))
  declareType := by
    intro d b _ hb d' hd'
    rcases List.mem_cons.1 hd' with rfl | hd'
    · exact Or.inl ⟨rfl, rfl⟩
    · -- what stands directly in the body has the type itself around it
      rcases hb d' hd' with ⟨hspace, houter⟩ | hd'
      · exact Or.inr (Or.inr ⟨d, List.mem_cons_self, hspace.symm, houter.symm⟩)
      · exact Or.inr (hd'.mono (by simp))

/-- **With every type inside a type, a file declares the one around it.** -/
theorem enclosed_ofFile (src : Source) (tree : Tree) : (ofFile src tree).Enclosed := by
  intro d hd
  rcases walkInvariant_enclosed.ofFile src tree d hd with ⟨-, hd⟩ | hd
  · exact Or.inl hd
  · exact hd

/-! ### Names of types -/

theorem walkInvariant_named : WalkInvariant fun _ _ o => ∀ d ∈ o.types, d.name ≠ "" where
  of_types_eq_nil := by
    intro space outer o ho d hd
    rw [ho] at hd
    cases hd
  append := by
    intro space outer a b ha hb d hd
    rcases List.mem_append.1 hd with hd | hd
    · exact ha d hd
    · exact hb d hd
  declareNamespace := by
    intro space full a b ha _ hb d hd
    rw [types_append, ha, List.nil_append] at hd
    exact hb d hd
  declareType := by
    intro d b hname hb d' hd'
    rcases List.mem_cons.1 hd' with rfl | hd'
    · exact hname
    · exact hb d' hd'

theorem name_ne_empty_of_mem_types {src : Source} {tree : Tree} {d : TypeDeclaration}
    (hd : d ∈ (ofFile src tree).types) : d.name ≠ "" :=
  walkInvariant_named.ofFile src tree d hd

end Outline

end Unqualify
