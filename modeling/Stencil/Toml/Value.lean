/-!
# TOML values and tables

A table remembers how it came about, because that decides whether later lines may add to it: an
inline table is closed, a table with a header of its own takes no dotted keys from outside, and a
table that only occurs on the way to another one can still get its header.
-/

namespace Stencil.Toml

/-- How a table came about. -/
inductive Origin where
  | header
  | implied
  | dotted
  | inline
  deriving Repr, DecidableEq, Inhabited

/-- A value. Booleans, numbers and dates are kept as written. -/
inductive Value where
  | text (value : String)
  | literal (written : String)
  | array (items : List Value)
  | table (origin : Origin) (entries : List (String × Value))
  | tables (items : List Value)
  deriving Repr, Inhabited

/-- The entries of a table, in written order. -/
abbrev Entries := List (String × Value)

/-- Put a value under a key, in the place of an older one or at the end. -/
def Entries.put : Entries → String → Value → Entries
  | [], key, value => [(key, value)]
  | (k, v) :: rest, key, value =>
    if k = key then (key, value) :: rest else (k, v) :: Entries.put rest key value

/-- Follow a path of keys from a table and change the table at its end. Missing tables on the way
are made, as dotted ones if the path is a dotted key. A list of tables stands for its last one. -/
def follow (dotted : Bool) (change : Origin → Entries → Option Entries) :
    List String → Origin → Entries → Option Entries
  | [], origin, entries => change origin entries
  | key :: path, _, entries => do
    match (entries.lookup key).getD (.table (if dotted then .dotted else .implied) []) with
    | .table origin inner =>
      if origin = .inline ∨ (dotted ∧ origin = .header) then none
      else
        let inner ← follow dotted change path origin inner
        return entries.put key (.table origin inner)
    | .tables items =>
      match items.getLast? with
      | some (.table origin inner) =>
        let inner ← follow dotted change path origin inner
        return entries.put key (.tables (items.dropLast ++ [.table origin inner]))
      | _ => none
    | _ => none

/-- Add a value under a dotted key; a key may be given only once, and the table that a path leads
to must consist of dotted keys alone. -/
def addValue (path : List String) (key : String) (value : Value) :
    Origin → Entries → Option Entries :=
  follow true (fun origin entries =>
    if (entries.lookup key).isSome ∨ (origin = .dotted ↔ path = []) then none
    else some (entries ++ [(key, value)])) path

/-- Open a table under its header. A table has one header at most. -/
def openTable (path : List String) (key : String) : Origin → Entries → Option Entries :=
  follow false (fun _ entries =>
    match entries.lookup key with
    | none => some (entries ++ [(key, .table .header [])])
    | some (.table .implied inner) => some (entries.put key (.table .header inner))
    | some _ => none) path

/-- Open one more table of a list of tables. -/
def openTables (path : List String) (key : String) : Origin → Entries → Option Entries :=
  follow false (fun _ entries =>
    match entries.lookup key with
    | none => some (entries ++ [(key, .tables [.table .header []])])
    | some (.tables items) => some (entries.put key (.tables (items ++ [.table .header []])))
    | some _ => none) path

end Stencil.Toml
