import TaskVm.Config.Runtime
import TaskVm.Json.Skip

/-!
# Machine limits in JSON

Limits are written as an object, and read from an object or from an array that lists them in
order. What is left out keeps its default. Members of other names are passed over, and a
limit must not be given twice.
-/

namespace TaskVm.VmConfig

/-- The limits as a document. -/
def toJson (c : VmConfig) : Json :=
  let number (n : Nat) : Json := .integer n
  .object [
    ("max_frames", number c.maxFrames),
    ("stack_capacity", number c.stackCapacity),
    ("instruction_limit", (c.instructionLimit.map number).getD .null),
    ("select_seed", (c.selectSeed.map number).getD .null)]

/-- A limit that must be there. -/
def limit? : Json → Option Nat
  | .integer n => if 0 ≤ n then some n.toNat else none
  | _ => none

/-- A limit that may be switched off. -/
def optionalLimit? : Json → Option (Option Nat)
  | .null => some none
  | j => (limit? j).map some

/-- The names of the limits, in order. -/
def fields : List String := ["max_frames", "stack_capacity", "instruction_limit", "select_seed"]

/-- Set the limit of a name. -/
def setField? (c : VmConfig) (name : String) (j : Json) : Option VmConfig :=
  match name with
  | "max_frames" => (limit? j).map fun n => { c with maxFrames := n }
  | "stack_capacity" => (limit? j).map fun n => { c with stackCapacity := n }
  | "instruction_limit" => (optionalLimit? j).map fun n => { c with instructionLimit := n }
  | "select_seed" => (optionalLimit? j).map fun n => { c with selectSeed := n }
  | _ => none

/-- Set the limits in order. There must not be more values than limits. -/
def setInOrder? (c : VmConfig) : List String → List Json → Option VmConfig
  | _, [] => some c
  | [], _ :: _ => none
  | name :: names, j :: js => (c.setField? name j).bind fun c => c.setInOrder? names js

/-- The members of an object that is not empty, `given` being the limits that were already
set. -/
def readMembers : (fuel : Nat) → (given : List String) → VmConfig → List Char →
    Option (VmConfig × List Char)
  | 0, _, _, _ => none
  | fuel + 1, given, c, cs => do
    let '"' :: rest := Json.skipSpace cs | none
    let (key, rest) ← Json.stringBody (rest.length + 1) rest
    let ':' :: rest := Json.skipSpace rest | none
    let name := String.ofList key
    let size := 2 * rest.length + 2
    let (c, given, rest) ←
      if fields.contains name then
        if given.contains name then none
        else
          match Json.value size 2 rest with
          | some (j, rest) => (c.setField? name j).map (·, name :: given, rest)
          | none => none
      else (Json.skipValue size rest).map (c, given, ·)
    match Json.skipSpace rest with
    | ',' :: rest => readMembers fuel given c rest
    | '\x7d' :: rest => some (c, rest)
    | _ => none

/-- The limits that an object gives, its opening brace read. -/
def readObject (cs : List Char) : Option (VmConfig × List Char) :=
  match Json.skipSpace cs with
  | '\x7d' :: rest => some ({}, rest)
  | rest => readMembers (rest.length + 1) [] {} rest

/-- Read limits from a text. -/
def read? (text : String) : Option VmConfig :=
  match Json.skipSpace text.toList with
  | '\x7b' :: rest =>
    match readObject rest with
    | some (c, rest) => if (Json.skipSpace rest).isEmpty then some c else none
    | none => none
  | _ =>
    match Json.read? text with
    | some (.array items) => setInOrder? {} fields items
    | _ => none

end TaskVm.VmConfig
