/-!
# TOML values and tables

The values of a TOML document, and how a document builds its tables.  A table can come about
in three ways, and each bars some later definitions: a header defines it once and for all, a
longer header only implies it, and a dotted key opens it for more dotted keys.
-/

namespace Unqualify.Toml

/-- How a table came about. -/
inductive Origin where
  /-- By its own header. -/
  | header
  /-- By a header of a table inside it. -/
  | implied
  /-- By a dotted key. -/
  | dotted
  deriving DecidableEq, Repr

/-- A TOML value.  Floats and dates are only recognised, since nothing reads them. -/
inductive Value where
  /-- A string. -/
  | string (text : String)
  /-- An integer. -/
  | integer (n : Int)
  /-- A float. -/
  | float
  /-- A boolean. -/
  | boolean (b : Bool)
  /-- A date, a time or both. -/
  | datetime
  /-- An array written in brackets. -/
  | array (items : List Value)
  /-- A table written in braces; nothing can be added to it. -/
  | inline (entries : List (String × Value))
  /-- A table built by headers or dotted keys. -/
  | table (origin : Origin) (entries : List (String × Value))
  /-- An array of tables, built by headers in double brackets: the last table, which headers
  and keys still add to, and the tables before it, latest first. -/
  | tables (last : List (String × Value)) (earlier : List (List (String × Value)))
  deriving Repr

/-- The entries of a table. -/
abbrev Entries := List (String × Value)

namespace Entries

/-- The value under a key. -/
def get? (key : String) (entries : Entries) : Option Value :=
  entries.lookup key

/-- Put a value under a key, in place of an earlier one. -/
def set (key : String) (value : Value) : Entries → Entries
  | [] => [(key, value)]
  | (k, v) :: rest => if k = key then (k, value) :: rest else (k, v) :: set key value rest

/-- Add a value under a key that is still free. -/
def insert? (key : String) (value : Value) (entries : Entries) : Option Entries :=
  match entries.get? key with
  | some _ => none
  | none => some (entries ++ [(key, value)])

/-- Add a value under a dotted key, the parts before the last one given as `path`.  Tables on
the way may not have a header of their own, and the last one has to come from a dotted key. -/
def insertAt? (key : String) (value : Value) : List String → Entries → Option Entries
  | [], entries => entries.insert? key value
  | p :: ps, entries =>
    match entries.get? p with
    | none => do
      let inner ← insertAt? key value ps []
      some (entries.set p (.table .dotted inner))
    | some (.table origin inner) =>
      if origin = .header ∨ (ps = [] ∧ origin ≠ .dotted) then
        none
      else do
        let inner ← insertAt? key value ps inner
        some (entries.set p (.table origin inner))
    | some (.tables last earlier) =>
      if ps = [] then
        none
      else do
        let last ← insertAt? key value ps last
        some (entries.set p (.tables last earlier))
    | some _ => none

/-- Change the table that a path leads to, the last table of an array of tables counting for
the array.  Missing tables on the way are implied. -/
def descend? (change : Entries → Option Entries) : List String → Entries → Option Entries
  | [], entries => change entries
  | p :: ps, entries =>
    match entries.get? p with
    | none => do
      let inner ← descend? change ps []
      some (entries.set p (.table .implied inner))
    | some (.table origin inner) => do
      let inner ← descend? change ps inner
      some (entries.set p (.table origin inner))
    | some (.tables last earlier) => do
      let last ← descend? change ps last
      some (entries.set p (.tables last earlier))
    | some _ => none

/-- Define a table by its header: it must be new or only implied so far. -/
def define? (path : List String) (key : String) : Entries → Option Entries :=
  descend? (fun entries =>
    match entries.get? key with
    | none => some (entries.set key (.table .header []))
    | some (.table .implied inner) => some (entries.set key (.table .header inner))
    | some _ => none) path

/-- Append a table to an array of tables by its header. -/
def append? (path : List String) (key : String) : Entries → Option Entries :=
  descend? (fun entries =>
    match entries.get? key with
    | none => some (entries.set key (.tables [] []))
    | some (.tables last earlier) => some (entries.set key (.tables [] (last :: earlier)))
    | some _ => none) path

end Entries

end Unqualify.Toml
