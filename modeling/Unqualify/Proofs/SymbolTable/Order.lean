import Unqualify.Proofs.Model.Renumber
import Unqualify.Proofs.SymbolTable.Entity
import Unqualify.Proofs.SymbolTable.Outlines

/-!
# The order of files

Merging the same outlines in another order gives the types other numbers.  As long as no full name
is spelled in two different places (`TypePath.Unambiguous`), that is all: the two tables have the
same types (`SymbolTable.MadeFrom.covers`), and a type of one table goes to the type of the same
full name in the other (`SymbolTable.twin`).  So one table is a renumbering of the other
(`SymbolTable.exists_renumbers_of_perm`).
-/

namespace Unqualify

open TypeDeclaration (pathsOf mem_pathsOf)

namespace TypePath

/-- No full name is spelled with two different splits into namespace and enclosing types. -/
def Unambiguous (ps : List TypePath) : Prop :=
  ∀ p ∈ ps, ∀ q ∈ ps, p.fullName = q.fullName →
    p.inNamespace = q.inNamespace ∧ p.containers = q.containers

instance (ps : List TypePath) : Decidable (Unambiguous ps) :=
  inferInstanceAs (Decidable (∀ p ∈ ps, ∀ q ∈ ps, _ → _))

theorem container?_congr {p q : TypePath} (hspace : p.inNamespace = q.inNamespace)
    (hcontainers : p.containers = q.containers) : p.container? = q.container? := by
  obtain ⟨space, name, containers⟩ := p
  obtain ⟨space', name', containers'⟩ := q
  obtain rfl : space = space' := hspace
  obtain rfl : containers = containers' := hcontainers
  cases containers <;> rfl

end TypePath

namespace SymbolTable

variable {t t' : SymbolTable}

/-! ### Tables with the same types -/

/-- The type `s` of one table is the type `s'` of another one, but for numbers and nested types. -/
structure SameType (t t' : SymbolTable) (s s' : TypeSymbol) : Prop where
  fullName_eq : s'.fullName = s.fullName
  inNamespace_eq : s'.inNamespace = s.inNamespace
  members_eq : s'.members = s.members
  container_eq : s'.container.bind t'.fullName? = s.container.bind t.fullName?

/-- The table `t'` has every type of the table `t`. -/
def Covers (t' t : SymbolTable) : Prop :=
  ∀ (id : TypeId) (s : TypeSymbol), t.types[id]? = some s →
    ∃ (id' : TypeId) (s' : TypeSymbol), t'.types[id']? = some s' ∧ SameType t t' s s'

/-- **The declarations decide on the types**, and their order does not matter. -/
theorem MadeFrom.covers {ds ds' : List TypeDeclaration} (h : MadeFrom ds t) (h' : MadeFrom ds' t')
    (hwf' : t'.WellFormed) (hsame : ∀ d, d ∈ ds ↔ d ∈ ds') (henclosed : ∀ d ∈ ds, d.EnclosedIn ds)
    (hunambiguous : TypePath.Unambiguous (pathsOf ds)) : t'.Covers t := by
  intro id s hs
  obtain ⟨p, hp, hplaced⟩ := h.placed id s hs
  obtain ⟨d, hd, rfl⟩ := TypeDeclaration.exists_path_eq henclosed hp
  obtain ⟨id', hid'⟩ := h'.found d ((hsame d).1 hd)
  obtain ⟨s', hs', hname'⟩ := hwf'.exists_of_byFullName hid'
  have hname : s'.fullName = s.fullName := by
    rw [hname', hplaced.fullName_eq, d.fullName_path]
  -- both stand at declared paths of one full name, so at the same place
  obtain ⟨q, hq, hplaced'⟩ := h'.placed id' s' hs'
  have hq : q ∈ pathsOf ds := by
    obtain ⟨d', hd', hq⟩ := mem_pathsOf.1 hq
    exact mem_pathsOf.2 ⟨d', (hsame d').2 hd', hq⟩
  obtain ⟨hspace, hcontainers⟩ := hunambiguous q hq d.path hp
    (hplaced'.fullName_eq.symm.trans (hname.trans hplaced.fullName_eq))
  refine ⟨id', s', hs', hname, ?_, ?_, ?_⟩
  · rw [hplaced'.inNamespace_eq, hspace, hplaced.inNamespace_eq]
  · refine Std.ExtTreeSet.ext_mem fun name => ?_
    rw [h'.members_iff id' s' hs', h.members_iff id s hs, hname]
    exact exists_congr fun d => and_congr_left' (hsame d).symm
  · rw [hplaced'.container_eq, TypePath.container?_congr hspace hcontainers, hplaced.container_eq]

/-- The number in `t'` of the type that `id` is in `t`.  Numbers of no type go to numbers of no
type. -/
def twin (t t' : SymbolTable) (id : TypeId) : TypeId :=
  match t.types[id]? with
  | some s => (t'.byFullName[s.fullName]?).getD 0
  | none => t'.types.size + id

theorem twin_of_none {id : TypeId} (h : t.types[id]? = none) :
    t.twin t' id = t'.types.size + id := by
  rw [twin, h]

theorem twin_of_some (hwf' : t'.WellFormed) {id id' : TypeId} {s s' : TypeSymbol}
    (hs : t.types[id]? = some s) (hs' : t'.types[id']? = some s')
    (hname : s'.fullName = s.fullName) : t.twin t' id = id' := by
  have hid' := (hwf'.byFullName_iff s.fullName id').2 ⟨s', hs', hname⟩
  rw [twin, hs]
  simp only [hid', Option.getD_some]

namespace Covers

variable (h : t'.Covers t) (hwf : t.WellFormed) (hwf' : t'.WellFormed)

include h hwf'

theorem exists_twin {id : TypeId} {s : TypeSymbol} (hs : t.types[id]? = some s) :
    ∃ s', t'.types[t.twin t' id]? = some s' ∧ SameType t t' s s' := by
  obtain ⟨id', s', hs', hsame⟩ := h id s hs
  rw [twin_of_some hwf' hs hs' hsame.fullName_eq]
  exact ⟨s', hs', hsame⟩

include hwf

theorem twin_injective : Function.Injective (t.twin t') := by
  intro i j heq
  cases hi : t.types[i]? with
  | none =>
    cases hj : t.types[j]? with
    | none =>
      rw [twin_of_none hi, twin_of_none hj] at heq
      exact Nat.add_left_cancel heq
    | some s =>
      -- a type's twin is a type, so its number is smaller
      obtain ⟨s', hs', -⟩ := h.exists_twin hwf' hj
      rw [← heq, twin_of_none hi] at hs'
      have hlt := (Array.getElem?_eq_some_iff.1 hs').1
      omega
  | some s =>
    obtain ⟨s', hs', hsame⟩ := h.exists_twin hwf' hi
    cases hj : t.types[j]? with
    | none =>
      rw [heq, twin_of_none hj] at hs'
      have hlt := (Array.getElem?_eq_some_iff.1 hs').1
      omega
    | some r =>
      obtain ⟨r', hr', hsame'⟩ := h.exists_twin hwf' hj
      rw [← heq, hs'] at hr'
      obtain rfl := Option.some.inj hr'
      exact hwf.eq_of_fullName hi hj (hsame.fullName_eq.symm.trans hsame'.fullName_eq)

/-- The container of the twin is the twin of the container. -/
theorem container_twin {id : TypeId} {s s' : TypeSymbol} (hs : t.types[id]? = some s)
    (hs' : t'.types[t.twin t' id]? = some s') : s'.container = s.container.map (t.twin t') := by
  obtain ⟨s'', hs'', hsame⟩ := h.exists_twin hwf' hs
  obtain rfl : s' = s'' := Option.some.inj (hs'.symm.trans hs'')
  have hcont := hsame.container_eq
  cases hc : s.container with
  | none =>
    rw [hc, Option.bind_none] at hcont
    cases hc' : s'.container with
    | none => rfl
    | some c' =>
      obtain ⟨fullName, hname⟩ := hwf'.exists_fullName?_of_container hs' hc'
      rw [hc', Option.bind_some, hname] at hcont
      cases hcont
  | some c =>
    obtain ⟨fullName, hname⟩ := hwf.exists_fullName?_of_container hs hc
    rw [hc, Option.bind_some, hname] at hcont
    obtain ⟨c', hc', hname'⟩ := Option.bind_eq_some_iff.1 hcont
    obtain ⟨p, hp, rfl⟩ := Option.map_eq_some_iff.1 hname
    obtain ⟨p', hp', hp'name⟩ := Option.map_eq_some_iff.1 hname'
    rw [hc', Option.map_some, twin_of_some hwf' hp hp' hp'name]

variable (hback : t.Covers t')

include hback

theorem nested_twin {id : TypeId} {s s' : TypeSymbol} (hs : t.types[id]? = some s)
    (hs' : t'.types[t.twin t' id]? = some s') (hname : s'.fullName = s.fullName) (name : String) :
    s'.nested[name]? = s.nested[name]?.map (t.twin t') := by
  refine Option.ext fun inner' => ?_
  rw [hwf'.nested_eq_some_iff hs', Option.map_eq_some_iff]
  constructor
  · -- a type nested in the twin is the twin of a type, and that one is nested in the original
    rintro ⟨x', hx', hcont', hfull'⟩
    obtain ⟨inner, x, hx, hsame⟩ := hback inner' x' hx'
    obtain rfl := twin_of_some hwf' hx hx' hsame.fullName_eq.symm
    have hcont := h.container_twin hwf hwf' hx hx'
    rw [hcont', eq_comm, Option.map_eq_some_iff] at hcont
    obtain ⟨c, hc, hceq⟩ := hcont
    rw [h.twin_injective hwf hwf' hceq] at hc
    refine ⟨inner, (hwf.nested_eq_some_iff hs).2 ⟨x, hx, hc, ?_⟩, rfl⟩
    rw [hsame.fullName_eq, hfull', hname]
  · rintro ⟨inner, hinner, rfl⟩
    obtain ⟨x, hx, hcont, hfull⟩ := (hwf.nested_eq_some_iff hs).1 hinner
    obtain ⟨x', hx', hsame⟩ := h.exists_twin hwf' hx
    refine ⟨x', hx', ?_, by rw [hsame.fullName_eq, hfull, hname]⟩
    rw [h.container_twin hwf hwf' hx hx', hcont, Option.map_some]

/-- **Tables with the same types are renumberings of each other.** -/
theorem renumbers (hspaces : t'.namespaces = t.namespaces) : Renumbers (t.twin t') t t' where
  injective := h.twin_injective hwf hwf'
  types_eq := by
    intro id
    cases hs : t.types[id]? with
    | none =>
      rw [twin_of_none hs, Option.map_none]
      exact Array.getElem?_eq_none (Nat.le_add_right _ _)
    | some s =>
      obtain ⟨s', hs', hsame⟩ := h.exists_twin hwf' hs
      have hcontainer := h.container_twin hwf hwf' hs hs'
      have hnested : s'.nested = s.nested.map fun _ inner => t.twin t' inner :=
        Std.ExtTreeMap.ext_getElem? fun name => by
          rw [h.nested_twin hwf hwf' hback hs hs' hsame.fullName_eq, Std.ExtTreeMap.getElem?_map]
      rw [hs', Option.map_some, TypeSymbol.renumber, ← hcontainer, ← hnested,
        ← hsame.inNamespace_eq, ← hsame.fullName_eq, ← hsame.members_eq]
  byFullName_eq := by
    intro fullName
    cases hid : t.byFullName[fullName]? with
    | some id =>
      obtain ⟨s, hs, rfl⟩ := hwf.exists_of_byFullName hid
      obtain ⟨s', hs', hsame⟩ := h.exists_twin hwf' hs
      exact (hwf'.byFullName_iff s.fullName _).2 ⟨s', hs', hsame.fullName_eq⟩
    | none =>
      cases hid' : t'.byFullName[fullName]? with
      | none => rfl
      | some id' =>
        obtain ⟨s', hs', rfl⟩ := hwf'.exists_of_byFullName hid'
        obtain ⟨id, s, hs, hsame⟩ := hback id' s' hs'
        exact (hwf.fullName_ne_of_fresh hid hs hsame.fullName_eq).elim
  namespaces_eq := hspaces

end Covers

/-- **The order of outlines does not matter** but for the numbers of the types, as long as the
declared paths are unambiguous. -/
theorem exists_renumbers_of_perm {os os' : List Outline} (hperm : os'.Perm os)
    (hos : ∀ o ∈ os, o.Regular)
    (hunambiguous : TypePath.Unambiguous (pathsOf (Outline.declarations os))) :
    ∃ f, Renumbers f (ofOutlines os) (ofOutlines os') := by
  have hos' : ∀ o ∈ os', o.Regular := fun o ho => hos o (hperm.mem_iff.1 ho)
  have hmade := madeFrom_ofOutlines hos
  have hmade' := madeFrom_ofOutlines hos'
  have hwf := wellFormed_ofOutlines hos
  have hwf' := wellFormed_ofOutlines hos'
  have hdecls : (Outline.declarations os').Perm (Outline.declarations os) :=
    hperm.flatMap_right _
  have hsame (d : TypeDeclaration) : d ∈ Outline.declarations os ↔ d ∈ Outline.declarations os' :=
    hdecls.mem_iff.symm
  have hpaths : (pathsOf (Outline.declarations os')).Perm (pathsOf (Outline.declarations os)) :=
    hdecls.flatMap_right _
  have hunambiguous' : TypePath.Unambiguous (pathsOf (Outline.declarations os')) :=
    fun p hp q hq => hunambiguous p (hpaths.mem_iff.1 hp) q (hpaths.mem_iff.1 hq)
  have hcovers := hmade.covers hmade' hwf' hsame
    (fun d => Outline.enclosedIn_declarations hos) hunambiguous
  have hback := hmade'.covers hmade hwf (fun d => (hsame d).symm)
    (fun d => Outline.enclosedIn_declarations hos') hunambiguous'
  have hspaces : (ofOutlines os').namespaces = (ofOutlines os).namespaces :=
    Std.ExtTreeSet.ext_mem fun space => by
      rw [mem_namespaces_ofOutlines, mem_namespaces_ofOutlines]
      exact exists_congr fun o => and_congr_left' hperm.mem_iff
  exact ⟨_, hcovers.renumbers hwf hwf' hback hspaces⟩

end SymbolTable

end Unqualify
