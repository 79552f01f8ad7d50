import TaskVm.Number

/-!
# TOML values

A TOML document as a tree, and how it grows line by line.

A table can come to be in four ways, and how it did decides what may still be added to it.
A header may be repeated for no table, but it may name one that so far was only passed
through on the way to another header. Dotted keys may add to a table that dotted keys have
made, and to no other. What stands in braces is complete.
-/

namespace TaskVm

/-- How a table came to be. -/
inductive TableForm where
  /-- A header names it. -/
  | header
  /-- A header passes through it. -/
  | passed
  /-- A dotted key passes through it. -/
  | dotted
  /-- It is written in braces. -/
  | braces
deriving DecidableEq, Inhabited

/-- A TOML value. -/
inductive Toml where
  | string (s : String)
  | integer (n : Int)
  | float (x : Number)
  | boolean (b : Bool)
  /-- A date, a time of day, or both, as written. -/
  | time (text : String)
  | array (items : List Toml)
  | table (form : TableForm) (entries : List (String × Toml))
  /-- Tables that headers in double brackets add one by one, the latest first. -/
  | tables (latestFirst : List (List (String × Toml)))
deriving Inhabited

namespace Toml

/-- The entries of a table. -/
abbrev Entries := List (String × Toml)

/-- Put an entry in the place of one with its key. -/
def replace (entries : Entries) (key : String) (v : Toml) : Entries :=
  entries.map fun e => if e.1 = key then (key, v) else e

/-- Change a table that is found by going through others. What is missing on the way is
made, in the form that the going is of. Dotted keys do not go through tables that headers
name or pass; nothing goes through values. -/
def within (form : TableForm) (change : TableForm → Entries → Option Entries) :
    (path : List String) → TableForm → Entries → Option Entries
  | [], current, entries => change current entries
  | key :: path, _, entries =>
    match entries.lookup key with
    | none =>
      (within form change path form []).map fun inner => entries ++ [(key, table form inner)]
    | some (table found inner) =>
      if found = .braces || (form = .dotted && found = .header) then none
      else (within form change path found inner).map fun inner =>
        replace entries key (table found inner)
    | some (tables (latest :: earlier)) =>
      (within form change path .header latest).map fun latest =>
        replace entries key (tables (latest :: earlier))
    | some _ => none

/-- Add an entry to the table that a dotted key has led to. Only a table that dotted keys
have made takes entries from them, and it takes them from nowhere else. -/
def addEntry (path : List String) (key : String) (v : Toml) (current : TableForm)
    (entries : Entries) : Option Entries :=
  if (current == .dotted) == path.isEmpty then none
  else if (entries.lookup key).isSome then none
  else some (entries ++ [(key, v)])

/-- Add the entry of a key, dotted or not, to a table. -/
def insertKey (path : List String) (key : String) (v : Toml) :
    TableForm → Entries → Option Entries :=
  within .dotted (addEntry path key v) path

/-- Begin the table of a header in its parent. -/
def openTable (key : String) (entries : Entries) : Option Entries :=
  match entries.lookup key with
  | none => some (entries ++ [(key, table .header [])])
  | some (table .passed inner) => some (replace entries key (table .header inner))
  | some _ => none

/-- Begin a further table of a header in double brackets in its parent. -/
def openFurther (key : String) (entries : Entries) : Option Entries :=
  match entries.lookup key with
  | none => some (entries ++ [(key, tables [[]])])
  | some (tables all) => some (replace entries key (tables ([] :: all)))
  | some _ => none

end Toml

end TaskVm
