import Std.Data.TreeMap

/-!
# Ordered maps

A map from strings that lists its entries in the order their keys came in. Overwriting a
key keeps its place; removing one closes the gap, so a key that comes back comes last.

The entries are in an array, and a search tree finds a key's place in it. The two agree as
long as every operation that moves entries also moves their places, which is what `erase`
has to take care of.
-/

namespace TaskVm

/-- Entries in insertion order, with the place of every key. -/
structure OrderedMap (α : Type) where
  entries : Array (String × α) := #[]
  places : Std.TreeMap String Nat := {}

namespace OrderedMap

variable {α : Type}

instance : Inhabited (OrderedMap α) := ⟨{}⟩

/-- The map without entries. -/
def empty : OrderedMap α := {}

def size (m : OrderedMap α) : Nat := m.entries.size

def isEmpty (m : OrderedMap α) : Bool := m.entries.isEmpty

/-- Where a key's entry is. -/
def place? (m : OrderedMap α) (key : String) : Option Nat := m.places[key]?

/-- The value in one place. -/
def at? (m : OrderedMap α) (i : Nat) : Option α := m.entries[i]?.map (·.2)

/-- The value of a key. -/
def get? (m : OrderedMap α) (key : String) : Option α := (m.place? key).bind m.at?

@[simp] theorem get?_empty (key : String) : (empty : OrderedMap α).get? key = none := by
  simp [empty, get?, place?]

def contains (m : OrderedMap α) (key : String) : Bool := (m.place? key).isSome

/-- Bind a key. A key that is there keeps its place. -/
def insert (m : OrderedMap α) (key : String) (value : α) : OrderedMap α :=
  match m.place? key with
  | some i => { m with entries := m.entries.modify i fun e => (e.1, value) }
  | none =>
    { entries := m.entries.push (key, value), places := m.places.insert key m.entries.size }

/-- Move the places of the listed keys down by one. -/
def shiftDown (places : Std.TreeMap String Nat) (moved : List (String × α)) :
    Std.TreeMap String Nat :=
  moved.foldl (fun ps e => ps.modify e.1 (· - 1)) places

/-- Remove a key. The entries after it move down by one place. -/
def erase (m : OrderedMap α) (key : String) : OrderedMap α :=
  match m.place? key with
  | none => m
  | some i =>
    { entries := m.entries.eraseIdxIfInBounds i
      places := shiftDown (m.places.erase key) (m.entries.toList.drop (i + 1)) }

/-- The entries in order. -/
def toList (m : OrderedMap α) : List (String × α) := m.entries.toList

/-- The keys in order. -/
def keys (m : OrderedMap α) : List String := m.toList.map (·.1)

/-- The values in the order of their keys. -/
def values (m : OrderedMap α) : List α := m.toList.map (·.2)

/-- The map that binds the listed keys one after the other. -/
def ofList (entries : List (String × α)) : OrderedMap α :=
  entries.foldl (fun m e => m.insert e.1 e.2) empty

end OrderedMap

end TaskVm
