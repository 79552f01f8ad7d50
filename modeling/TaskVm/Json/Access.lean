import TaskVm.Json

/-!
# Looking into JSON

Ways to get at the parts of a document of known shape. What is not there counts as null, and
what is of another kind than it should be counts as empty, zero or false, unless it is asked
for with a question mark.
-/

namespace TaskVm.Json

instance : Coe Bool Json := ⟨bool⟩
instance : Coe Nat Json := ⟨fun n => integer n⟩
instance : Coe Int Json := ⟨integer⟩
instance : Coe String Json := ⟨string⟩

/-- What may be missing; null if it is. -/
def ofOption {α : Type} [Coe α Json] : Option α → Json
  | some a => a
  | none => null

/-- The members of an object. -/
def entries : Json → List (String × Json)
  | object members => members
  | _ => []

/-- The elements of an array. -/
def items : Json → List Json
  | array items => items
  | _ => []

/-- An object has a member. -/
def has (j : Json) (key : String) : Bool := (j.entries.lookup key).isSome

/-- A member of an object. -/
def get (j : Json) (key : String) : Json := (j.entries.lookup key).getD null

/-- An element of an array. -/
def nth (j : Json) (i : Nat) : Json := j.items.getD i null

/-- An object with one more member. -/
def add (j : Json) (key : String) (v : Json) : Json := object (j.entries ++ [(key, v)])

def isNull : Json → Bool
  | null => true
  | _ => false

def text? : Json → Option String
  | string s => some s
  | _ => none

def text (j : Json) : String := j.text?.getD ""

def int? : Json → Option Int
  | integer n => some n
  | _ => none

def int (j : Json) : Int := j.int?.getD 0

def nat? (j : Json) : Option Nat := j.int?.map Int.toNat

def nat (j : Json) : Nat := j.nat?.getD 0

def flag : Json → Bool
  | bool b => b
  | _ => false

/-! ### Parts of members -/

def textOf (j : Json) (key : String) : String := (j.get key).text

def natOf (j : Json) (key : String) : Nat := (j.get key).nat

def flagOf (j : Json) (key : String) : Bool := (j.get key).flag

def listOf (j : Json) (key : String) : List Json := (j.get key).items

end TaskVm.Json
