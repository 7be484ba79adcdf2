import Unqualify.Path
import Mathlib.Data.List.Basic

/-!
# The order of paths

Paths are ordered by their components, the first difference deciding, and components by kind and
then by name.  So the order is total (`Path.le_total`) and transitive (`Path.le_trans`), and two
paths that come before each other have the same components (`Path.components_eq_of_le`).  Of two
paths with different components one comes strictly before the other (`Path.lt_of_le`).
-/

namespace Unqualify.Path

namespace Component

/-- The text of a named entry, empty for the other kinds. -/
def text : Component → String
  | name text => text
  | _ => ""

/-- The kind decides, and then the name. -/
theorem compare_eq_compareLex :
    Component.compare = compareLex (compareOn rank) (compareOn text) := by
  funext a b
  cases a <;> cases b <;> simp [Component.compare, compareLex, compareOn, rank, text] <;> rfl

instance : Std.TransCmp Component.compare := by
  rw [compare_eq_compareLex]
  infer_instance

instance : Std.LawfulEqCmp Component.compare where
  eq_of_compare := by
    intro a b h
    rw [compare_eq_compareLex, compareLex, Ordering.then_eq_eq] at h
    obtain ⟨hrank, htext⟩ := h
    have hrank : a.rank = b.rank := Std.LawfulEqCmp.eq_of_compare hrank
    have htext : a.text = b.text := Std.LawfulEqCmp.eq_of_compare htext
    cases a <;> cases b <;> simp_all [rank, text]

end Component

theorem compareComponents_eq_compareLex :
    compareComponents = List.compareLex Component.compare := by
  funext as bs
  induction as generalizing bs with
  | nil => cases bs <;> rfl
  | cons a as ih =>
    cases bs with
    | nil => rfl
    | cons b bs => rw [compareComponents, ih, List.compareLex_cons_cons]

theorem le_eq_isLE (a b : String) :
    le a b = (List.compareLex Component.compare (components a) (components b)).isLE := by
  rw [le, Path.compare, compareComponents_eq_compareLex]
  cases List.compareLex Component.compare (components a) (components b) <;> rfl

theorem le_trans {a b c : String} (hab : le a b = true) (hbc : le b c = true) : le a c = true := by
  rw [le_eq_isLE] at *
  exact Std.TransCmp.isLE_trans hab hbc

theorem le_total (a b : String) : (le a b || le b a) = true := by
  have hswap : List.compareLex Component.compare (components b) (components a) =
      (List.compareLex Component.compare (components a) (components b)).swap :=
    Std.OrientedCmp.eq_swap
  rw [le_eq_isLE, le_eq_isLE, hswap]
  cases List.compareLex Component.compare (components a) (components b) <;> rfl

theorem components_eq_of_le {a b : String} (hab : le a b = true) (hba : le b a = true) :
    components a = components b := by
  rw [le_eq_isLE] at *
  exact Std.LawfulEqCmp.eq_of_compare (Std.OrientedCmp.isLE_antisymm hab hba)

/-! ### Strictly before -/

theorem compare_eq_compareLex (a b : String) :
    Path.compare a b = List.compareLex Component.compare (components a) (components b) := by
  rw [Path.compare, compareComponents_eq_compareLex]

theorem lt_of_le {a b : String} (h : le a b = true) (hne : components a ≠ components b) :
    Path.compare a b = .lt := by
  rw [le_eq_isLE] at h
  rw [compare_eq_compareLex]
  cases hab : List.compareLex Component.compare (components a) (components b) with
  | lt => rfl
  | eq => exact absurd (Std.LawfulEqCmp.eq_of_compare hab) hne
  | gt =>
    rw [hab] at h
    cases h

theorem lt_of_lt_of_le {a b c : String} (hab : Path.compare a b = .lt) (hbc : le b c = true) :
    Path.compare a c = .lt := by
  rw [compare_eq_compareLex] at *
  rw [le_eq_isLE] at hbc
  exact Std.TransCmp.lt_of_lt_of_isLE hab hbc

theorem components_ne_of_lt {a b : String} (h : Path.compare a b = .lt) :
    components a ≠ components b := by
  intro heq
  have hself : List.compareLex Component.compare (components b) (components b) = .eq :=
    Std.ReflCmp.compare_self
  rw [compare_eq_compareLex, heq, hself] at h
  cases h

theorem not_lt_of_lt {a b : String} (h : Path.compare a b = .lt) : Path.compare b a ≠ .lt := by
  have hswap : List.compareLex Component.compare (components b) (components a) =
      (List.compareLex Component.compare (components a) (components b)).swap :=
    Std.OrientedCmp.eq_swap
  rw [compare_eq_compareLex] at *
  rw [hswap, h]
  decide

end Unqualify.Path
