import Unqualify.Finding
import Unqualify.Text.Slice

/-!
# Applying fixes

Fixes are applied from the end of a text to its start, so that the offsets of those still to
come stay right.  A fix that reaches into an edit already made, or whose span cannot be cut out
of the text, is skipped.
-/

namespace Unqualify

/-- A text in the middle of being fixed. -/
structure Edit where
  /-- The text so far. -/
  text : String
  /-- Where the last edit starts; the next one has to end there or before. -/
  floor : Nat
  /-- Fixes skipped so far. -/
  skipped : Nat
  deriving DecidableEq, Repr

namespace Edit

/-- A text before any edit. -/
def start (text : String) : Edit :=
  { text, floor := maxOffset, skipped := 0 }

/-- Make one edit or skip it. -/
def step (e : Edit) (fix : Fix) : Edit :=
  let edited :=
    if fix.span.stop ≤ e.floor
    then Text.splice? e.text fix.span.start fix.span.stop fix.replacement
    else none
  match edited with
  | some text => { e with text, floor := fix.span.start }
  | none => { e with skipped := e.skipped + 1 }

/-- Fixes in the order they are applied: by descending start, and in the given order where
they start together. -/
def order (fixes : List Fix) : List Fix :=
  fixes.mergeSort fun a b => b.span.start ≤ a.span.start

/-- Apply fixes to a text. -/
def apply (text : String) (fixes : List Fix) : Edit :=
  (order fixes).foldl step (start text)

end Edit

end Unqualify
