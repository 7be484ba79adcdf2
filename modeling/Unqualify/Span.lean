/-!
# Spans

Where something stands in its file: a byte range together with the line and column that
reports show.  Offsets and lengths are unsigned 64-bit numbers and lines and columns unsigned
32-bit ones; sums that leave those ranges stop at the greatest number.
-/

namespace Unqualify

/-- The greatest offset. -/
def maxOffset : Nat := 0xffffffffffffffff

/-- The greatest line or column. -/
def maxLine : Nat := 0xffffffff

/-- Location of a node in its source file. -/
structure Span where
  /-- Byte offset of the first character. -/
  start : Nat
  /-- Length in bytes. -/
  len : Nat
  /-- Line of the first character, counted from one. -/
  line : Nat
  /-- Column of the first character in bytes, counted from one. -/
  column : Nat
  deriving DecidableEq, Repr

/-- Byte offset one past the last character. -/
def Span.stop (s : Span) : Nat :=
  min (s.start + s.len) maxOffset

/-- A range of byte offsets in which something is visible. -/
structure Extent where
  /-- The first offset inside. -/
  start : Nat
  /-- The first offset after it. -/
  stop : Nat
  deriving DecidableEq, Repr

/-- Whether an offset lies inside; the end does not. -/
def Extent.contains (e : Extent) (offset : Nat) : Bool :=
  e.start ≤ offset && offset < e.stop

theorem Extent.contains_iff {e : Extent} {offset : Nat} :
    e.contains offset = true ↔ e.start ≤ offset ∧ offset < e.stop := by
  simp [contains]

end Unqualify
