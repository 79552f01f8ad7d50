import TaskVm.Error

/-!
# Values

What programs compute with. Scalars, strings and errors are values in themselves;
everything that can be shared or changed is an object of the heap, and the value is the
object's number. Two values with the same object number are the same object, so a change
through one is seen through the other.
-/

namespace TaskVm

/-- Numbers of the objects of each kind. -/
abbrev ArrayId := Nat
abbrev MapId := Nat
abbrev ChunkId := Nat
abbrev TemplateId := Nat
abbrev CellId := Nat
abbrev ClosureId := Nat
abbrev NativeId := Nat
abbrev ChannelId := Nat
abbrev HandleId := Nat
abbrev SinkId := Nat

/-- The number of a task, unique among the tasks of one machine. -/
abbrev TaskId := Nat

/-- A value. -/
inductive Value where
  | nil
  | bool (b : Bool)
  | number (n : Number)
  | string (s : String)
  | array (id : ArrayId)
  | map (id : MapId)
  /-- A compiled function, which a closure is made from. -/
  | function (id : TemplateId)
  | closure (id : ClosureId)
  | native (id : NativeId)
  /-- A receiver with the name of one of its methods, resolved when it is called. -/
  | boundMethod (receiver : Value) (method : String)
  | channel (id : ChannelId)
  | task (id : HandleId)
  /-- A caught error. -/
  | error (e : RuntimeError)
deriving DecidableEq, Inhabited

namespace Value

/-- The name a program sees for the type of a value. -/
def typeName : Value → String
  | nil => "nil"
  | bool _ => "bool"
  | number _ => "number"
  | string _ => "string"
  | array _ => "array"
  | map _ => "map"
  | function _ | closure _ | native _ | boundMethod _ _ => "function"
  | channel _ => "channel"
  | task _ => "task"
  | error _ => "error"

/-- Only nil and false count as false. -/
def isTruthy : Value → Bool
  | nil | bool false => false
  | _ => true

/-- An integer as a value. -/
def ofNat (n : Nat) : Value := number (.ofNat n)

/-- A signed integer as a value. -/
def ofInt (n : Int) : Value := number (.ofInt n)

/-- The number of receivers inside a bound method. -/
def depth : Value → Nat
  | boundMethod receiver _ => receiver.depth + 1
  | _ => 0

end Value

end TaskVm
