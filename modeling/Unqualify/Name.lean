import Unqualify.Text.Letter
import Unqualify.Text.Search

/-!
# Dotted names

Namespaces and types go by their full names, segments with a dot between them; the global
namespace has the empty name.  Names are kept as they are written, so a segment can be empty
(`A..B`): nothing here assumes otherwise.
-/

namespace Unqualify.Name

/-- The name of `name` inside `parent`. -/
def join (parent name : String) : String :=
  if parent = "" then name else parent ++ "." ++ name

/-- The segments of a dotted name, at least one. -/
def segments (name : String) : List String :=
  Text.split '.' name

/-- The dotted name with the given segments. -/
def ofSegments (segments : List String) : String :=
  ".".intercalate segments

/-- The name without its last segment; empty when there is only one. -/
def parent (name : String) : String :=
  ofSegments (segments name).dropLast

/-- The name and all shorter names around it, longest first, without the global one. -/
def ancestry (name : String) : List String :=
  let parts := segments name
  let names := (List.range parts.length).reverse.map fun k => ofSegments (parts.take (k + 1))
  names.filter (· ≠ "")

/-- The namespaces that a namespace lies in, itself included, shortest first.  Empty segments
do not count. -/
def withParents (name : String) : List String :=
  let parts := (segments name).filter (· ≠ "")
  (List.range parts.length).map fun k => ofSegments (parts.take (k + 1))

/-- Whether a text is an identifier: an optional `@`, then a letter or `_`, then letters,
numbers and `_`. -/
def isIdentifier (s : String) : Bool :=
  let rest := match s.toList with
    | '@' :: cs => cs
    | cs => cs
  match rest with
  | [] => false
  | c :: cs =>
    (Text.isLetter c || c == '_') && cs.all fun c => Text.isLetterOrNumber c || c == '_'

@[simp] theorem join_empty (name : String) : join "" name = name := by simp [join]

theorem join_of_ne {parent : String} (h : parent ≠ "") (name : String) :
    join parent name = parent ++ "." ++ name := by simp [join, h]

end Unqualify.Name
