import Unqualify.Text.Blank
import Unqualify.Text.Search

/-!
# Using directives

A directive imports the types of a namespace, imports the members of a type, or gives a
dotted path a short name.  `Using.parse?` reads one from its source text; paths lose their
blanks and a leading `global::`.
-/

namespace Unqualify

/-- One using directive. -/
inductive Using where
  /-- The types of a namespace: `using Some.Namespace;`. -/
  | types (path : String)
  /-- The members of a type: `using static Some.Type;`. -/
  | members (path : String)
  /-- Another name for a path: `using Alias = Some.Target;`. -/
  | aliasOf (name target : String)
  deriving DecidableEq, Repr

namespace Using

/-- Drop the semicolons a text ends with. -/
def dropSemicolons (cs : List Char) : List Char :=
  (cs.reverse.dropWhile (· == ';')).reverse

/-- The directive without surrounding blanks and semicolons, and without a leading
`global`. -/
def body (text : String) : List Char :=
  let cs := Text.trim (dropSemicolons (Text.trim text.toList))
  match "global".toList.isPrefixOf? cs with
  | some rest => Text.trimStart rest
  | none => cs

/-- Read the modifiers after `using`: whether `static` is among them, and what follows. -/
def modifiers : List Char → Bool × List Char
  | 's' :: 't' :: 'a' :: 't' :: 'i' :: 'c' :: ' ' :: rest =>
    (true, (modifiers (Text.trimStart rest)).2)
  | 'u' :: 'n' :: 's' :: 'a' :: 'f' :: 'e' :: ' ' :: rest =>
    modifiers (Text.trimStart rest)
  | cs => (false, cs)
termination_by cs => cs.length
decreasing_by
  all_goals
    have := Text.length_trimStart_le rest
    simp only [List.length_cons]
    omega

/-- A path without blanks and without a leading `global::`. -/
def compactPath (cs : List Char) : String :=
  let compact := Text.squeeze cs
  match "global::".toList.isPrefixOf? compact with
  | some rest => String.ofList rest
  | none => String.ofList compact

/-- What follows the modifiers: an alias if there is an equals sign, a path otherwise. -/
def target? (isStatic : Bool) (cs : List Char) : Option Using :=
  match Text.splitFirst? '=' cs with
  | some (before, after) =>
    let name := String.ofList (Text.trim before)
    let path := compactPath after
    if name = "" ∨ path = "" then none else some (.aliasOf name path)
  | none =>
    let path := compactPath cs
    if path = "" then none
    else if isStatic then some (.members path)
    else some (.types path)

/-- Read a directive from its text; anything that does not look like one is refused. -/
def parse? (text : String) : Option Using := do
  let rest ← "using".toList.isPrefixOf? (body text)
  let (isStatic, rest) := modifiers (Text.trimStart rest)
  target? isStatic rest

/-- The path an alias stands for, if the directive is an alias of that name. -/
def aliasTarget? (name : String) : Using → Option String
  | aliasOf n target => if n = name then some target else none
  | _ => none

end Using

end Unqualify
