import TaskVm.Heap
import TaskVm.Json.Reader
import TaskVm.Json.Writer

/-!
# JSON documents and values

A document becomes new arrays and maps. A value becomes a document if all that can be
reached from it is data and no collection is inside itself; a collection that is reached in
two ways is written twice.
-/

namespace TaskVm.Heap

mutual

/-- Build the value of a document. -/
def ofJson (h : Heap) : Json → Value × Heap
  | .null => (.nil, h)
  | .bool b => (.bool b, h)
  | .integer n => (.ofInt n, h)
  | .float x => (.number x, h)
  | .string s => (.string s, h)
  | .array items =>
    let (values, h) := h.ofJsonItems items
    let (id, h) := h.newArray values.toArray
    (.array id, h)
  | .object members =>
    let (entries, h) := h.ofJsonMembers members
    let (id, h) := h.newMap (.ofList entries)
    (.map id, h)

/-- Build the values of an array's elements. -/
def ofJsonItems (h : Heap) : List Json → List Value × Heap
  | [] => ([], h)
  | item :: rest =>
    let (v, h) := h.ofJson item
    let (vs, h) := h.ofJsonItems rest
    (v :: vs, h)

/-- Build the values of an object's members. -/
def ofJsonMembers (h : Heap) : List (String × Json) → List (String × Value) × Heap
  | [] => ([], h)
  | (key, item) :: rest =>
    let (v, h) := h.ofJson item
    let (vs, h) := h.ofJsonMembers rest
    ((key, v) :: vs, h)

end

/-- The value of a JSON text. -/
def parse (h : Heap) (text : String) : Except RuntimeError (Value × Heap) :=
  match Json.read? text with
  | some j => .ok (h.ofJson j)
  | none => .error (.typeError "invalid JSON: not a document")

/-- The document of a value that has the collections `around` around it, going at most
`limit` deep. -/
def jsonWithin (h : Heap) : (limit : Nat) → (around : List Value) → Value →
    Except RuntimeError Json
  | 0, _, _ => .error (.typeError "cannot stringify a cyclic value")
  | limit + 1, around, v =>
    match v with
    | .nil => .ok .null
    | .bool b => .ok (.bool b)
    | .number n => .ok (.ofNumber n)
    | .string s => .ok (.string s)
    | .array i =>
      if around.contains v then .error (.typeError "cannot stringify a cyclic value")
      else
        ((h.array i).toList.mapM (h.jsonWithin limit (v :: around))).map Json.array
    | .map i =>
      if around.contains v then .error (.typeError "cannot stringify a cyclic value")
      else
        ((h.map i).toList.mapM fun e =>
          (h.jsonWithin limit (v :: around) e.2).map (e.1, ·)).map Json.object
    | other => .error (.typeError ("cannot stringify " ++ other.typeName))

/-- The document of a value. No collection is entered inside itself, so nothing is nested
deeper than there are collections. -/
def toJson (h : Heap) (v : Value) : Except RuntimeError Json :=
  h.jsonWithin (h.collections + 2) [] v

/-- The JSON text of a value. -/
def stringify (h : Heap) (v : Value) : Except RuntimeError String :=
  (h.toJson v).map fun j => String.ofList j.compact

end TaskVm.Heap
