import Unqualify.Text.Lines
import Unqualify.Text.Slice
import Unqualify.Tree

/-!
# Source files

The text of one file together with the offsets at which its lines start, and what a node of
its syntax tree covers in it.
-/

namespace Unqualify

/-- A source text with its line starts at hand. -/
structure Source where
  /-- The text. -/
  text : String
  /-- Where its lines start. -/
  starts : List Nat
  /-- The starts are those of the text. -/
  starts_eq : starts = Text.lineStarts text

namespace Source

/-- Prepare a text. -/
def ofText (text : String) : Source :=
  { text, starts := Text.lineStarts text, starts_eq := rfl }

/-- The line and column of an offset. -/
def position (src : Source) (offset : Nat) : Text.Position :=
  Text.positionIn src.starts offset

/-- The text a node covers; nothing when its range cuts a character. -/
def covered (src : Source) (label : Label) : String :=
  Text.slice src.text label.start label.stop

/-- Where a node stands. -/
def spanOf (src : Source) (label : Label) : Span :=
  let place := src.position label.start
  { start := label.start
    len := label.stop - label.start
    line := min place.line maxLine
    column := min place.column maxLine }

end Source

end Unqualify
