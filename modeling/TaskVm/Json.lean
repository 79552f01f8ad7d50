import TaskVm.Number.Text

/-!
# JSON values

A JSON document as a tree. Integers that a machine word can hold are kept apart from other
numbers, and an object lists its members as they were written, repeated keys included.
-/

namespace TaskVm

/-- A JSON value. -/
inductive Json where
  | null
  | bool (b : Bool)
  /-- An integer that fits a word, signed or unsigned. -/
  | integer (n : Int)
  | float (x : Number)
  | string (s : String)
  | array (items : List Json)
  | object (members : List (String × Json))
deriving Inhabited

namespace Json

/-- The largest integer that is kept as one. -/
def maxInteger : Int := 0xffffffffffffffff

/-- The smallest integer that is kept as one. -/
def minInteger : Int := -0x8000000000000000

/-- A number of the machine: an integer that doubles tell apart from its neighbours is an
integer, a number that JSON cannot write is null. -/
def ofNumber (x : Number) : Json :=
  match x.isIntegral && x.floorMagnitude < 0x20000000000000, x.truncate? with
  | true, some n => integer n
  | _, _ => if x.isFinite then float x else null

end Json

end TaskVm
