import TaskVm.Heap.Render

/-!
# Operations on values

Arithmetic, order, indexing and iteration, as functions of the heap. Each either gives its
result or says which error it raises; the only one that changes anything is `setIndex`.
-/

namespace TaskVm

/-- The types of values that have methods. -/
inductive ReceiverType where
  | array
  | string
  | map
deriving DecidableEq

namespace ReceiverType

/-- The receiver type of a value. -/
def of? : Value → Option ReceiverType
  | .array _ => some array
  | .string _ => some string
  | .map _ => some map
  | _ => none

/-- The methods of a type. Each is the builtin of the same name, with the receiver as its
first argument. -/
def methods : ReceiverType → List String
  | array => ["push", "pop", "shift", "unshift", "len", "join", "contains", "sort", "reverse",
      "slice", "insert", "index_of", "clear"]
  | string => ["len", "upper", "lower", "split", "trim", "contains", "replace", "starts_with",
      "ends_with"]
  | map => ["keys", "values", "len", "has", "remove"]

/-- The builtin that a method name of a type stands for. -/
def method? (t : ReceiverType) (name : String) : Option String :=
  t.methods.find? (· == name)

end ReceiverType

namespace Value

/-- An operation does not take the types of its two operands. -/
def operandError (verb : String) (a b : Value) : RuntimeError :=
  .typeError ("cannot " ++ verb ++ " " ++ a.typeName ++ " and " ++ b.typeName)

/-- Apply an operation on numbers. -/
def arithmetic (verb : String) (f : Number → Number → Except RuntimeError Number) (a b : Value) :
    Except RuntimeError Value :=
  match a, b with
  | .number x, .number y => (f x y).map number
  | _, _ => .error (operandError verb a b)

/-- Division by a zero of either sign is an error. -/
def unlessZero (f : Number → Number → Number) (x y : Number) : Except RuntimeError Number :=
  if y.isZero then .error .divisionByZero else .ok (f x y)

def sub : Value → Value → Except RuntimeError Value :=
  arithmetic "subtract" fun x y => .ok (x.sub y)

def mul : Value → Value → Except RuntimeError Value :=
  arithmetic "multiply" fun x y => .ok (x.mul y)

def div : Value → Value → Except RuntimeError Value :=
  arithmetic "divide" (unlessZero .div)

/-- The remainder takes the sign of the dividend. -/
def rem : Value → Value → Except RuntimeError Value :=
  arithmetic "take the remainder of" (unlessZero .rem)

def neg : Value → Except RuntimeError Value
  | .number x => .ok (.number x.neg)
  | other => .error (.typeError ("cannot negate " ++ other.typeName))

/-- The order of two texts: that of their characters' code points. -/
def compareText (s t : String) : Ordering :=
  if s < t then .lt else if s = t then .eq else .gt

/-- The order of two numbers or of two strings. A NaN has no order. -/
def compare : Value → Value → Except RuntimeError (Option Ordering)
  | .number x, .number y => .ok (x.compare? y)
  | .string s, .string t => .ok (some (compareText s t))
  | a, b => .error (operandError "compare" a b)

/-- A position among `len` elements: an integer that is neither negative nor too large. -/
def position (v : Value) (len : Nat) : Except RuntimeError Nat :=
  match v with
  | .number n =>
    if !n.isIntegral then
      .error (.typeError ("array index must be an integer, got " ++ n.text .plain))
    else if n.less (.zero false) || !n.less (.ofNat len) then .error (.indexOutOfBounds n len)
    else .ok n.toWord
  | other => .error (.typeError ("array index must be a number, got " ++ other.typeName))

/-- The characters of a string from one position up to another. Both may be its end. -/
def substring (s first last : Value) : Except RuntimeError Value :=
  match s with
  | .string s => do
    let cs := s.toList
    let start ← first.position (cs.length + 1)
    let stop ← last.position (cs.length + 1)
    if stop < start then .error (.indexOutOfBounds (.ofNat stop) cs.length)
    else .ok (.string (String.ofList ((cs.drop start).take (stop - start))))
  | other => .error (.typeError ("substring expects a string, got " ++ other.typeName))

end Value

namespace Heap

/-- The texts of two values one after the other. -/
def concat (h : Heap) (a b : Value) : Value := .string (h.display a ++ h.display b)

/-- The sum of two numbers, or the texts of two values one of which is a string. -/
def add (h : Heap) (a b : Value) : Except RuntimeError Value :=
  match a, b with
  | .number x, .number y => .ok (.number (x.add y))
  | .string _, _ | _, .string _ => .ok (h.concat a b)
  | _, _ => .error (Value.operandError "add" a b)

/-- The number of elements of a collection or of characters of a string. -/
def length (h : Heap) : Value → Except RuntimeError Nat
  | .string s => .ok s.length
  | .array i => .ok (h.array i).size
  | .map i => .ok (h.map i).size
  | other => .error (.typeError (other.typeName ++ " has no length"))

/-- What a key finds in a collection. A number finds an element or a character, a name the
length or a method; in a map every value is a key, and a method is found only if no entry
has its name. -/
def index (h : Heap) (collection key : Value) : Except RuntimeError Value :=
  match collection, key with
  | .array i, .number _ => do
    let p ← key.position (h.array i).size
    .ok ((h.array i).getD p .nil)
  | .string s, .number _ => do
    let p ← key.position s.length
    .ok (match s.toList[p]? with
      | some c => .string c.toString
      | none => .nil)
  | .array i, .string name =>
    .ok (if name = "length" then .ofNat (h.array i).size else .boundMethod collection name)
  | .string s, .string name =>
    .ok (if name = "length" then .ofNat s.length else .boundMethod collection name)
  | .map i, _ =>
    let k := h.mapKey key
    match (h.map i).get? k with
    | some v => .ok v
    | none =>
      match ReceiverType.map.method? k with
      | some _ => .ok (.boundMethod collection k)
      | none => .error (.keyNotFound k)
  | .array _, other => .error (.typeError ("array index must be a number, got " ++ other.typeName))
  | other, _ => .error (.typeError ("cannot index " ++ other.typeName))

/-- Store a value in a collection: at a position that an array has, under any key in a
map. -/
def setIndex (h : Heap) (collection key value : Value) : Except RuntimeError Heap :=
  match collection with
  | .array i => do
    let p ← key.position (h.array i).size
    .ok (h.setArray i ((h.array i).setIfInBounds p value))
  | .map i => .ok (h.setMap i ((h.map i).insert (h.mapKey key) value))
  | other => .error (.typeError ("cannot assign into " ++ other.typeName))

/-- The elements an iteration visits: of a map its keys, of a string its characters. -/
def iterationItems (h : Heap) : Value → Except RuntimeError (List Value)
  | .array i => .ok (h.array i).toList
  | .map i => .ok ((h.map i).keys.map .string)
  | .string s => .ok (s.toList.map fun c => .string c.toString)
  | other => .error (.typeError ("cannot iterate over " ++ other.typeName))

end Heap

end TaskVm
