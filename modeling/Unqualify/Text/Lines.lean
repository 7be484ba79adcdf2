/-!
# Lines

A line ends at a newline, and a carriage return right before that newline belongs to the line
break.  `lines` lists the lines; `lineStarts` lists the byte offsets at which they start, and
`positionIn` reads lines and columns off that list.
-/

namespace Unqualify.Text

/-- A place in a text: line and column, both counted from one, the column in bytes. -/
structure Position where
  /-- The line. -/
  line : Nat
  /-- The column. -/
  column : Nat
  deriving DecidableEq, Repr

/-- The line without the carriage return it ends with. -/
def chomp (line : List Char) : List Char :=
  match line.getLast? with
  | some '\r' => line.dropLast
  | _ => line

/-- The lines of a text; `line` holds the characters read since the last line break,
latest first.  A text that ends with a newline has no further line, and a carriage return at
the very end of the text is kept. -/
def linesFrom (line : List Char) : List Char → List (List Char)
  | [] => if line.isEmpty then [] else [line.reverse]
  | '\n' :: cs => chomp line.reverse :: linesFrom [] cs
  | c :: cs => linesFrom (c :: line) cs

/-- The lines of a text. -/
def lines (s : String) : List String :=
  (linesFrom [] s.toList).map String.ofList

/-- The offsets right after the newlines of a text that starts at `offset`. -/
def breaksFrom (offset : Nat) : List Char → List Nat
  | [] => []
  | c :: cs =>
    if c = '\n' then
      (offset + 1) :: breaksFrom (offset + 1) cs
    else
      breaksFrom (offset + c.utf8Size) cs

/-- The offsets at which the lines of a text start, in order. -/
def lineStarts (s : String) : List Nat :=
  0 :: breaksFrom 0 s.toList

/-- The line and column of a byte offset, given the offsets at which lines start; `line` is
the number of the line that starts at `start` and before the first of them. -/
def positionAfter (line start offset : Nat) : List Nat → Position
  | [] => { line, column := offset - start + 1 }
  | next :: starts =>
    if next ≤ offset then positionAfter (line + 1) next offset starts
    else { line, column := offset - start + 1 }

/-- The line and column of a byte offset, given the offsets at which lines start. -/
def positionIn (starts : List Nat) (offset : Nat) : Position :=
  positionAfter 0 0 offset starts

end Unqualify.Text
