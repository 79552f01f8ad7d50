import TaskVm.Heap

/-!
# Calling natives

A native is called with a list of arguments and works on the heap. Its number of arguments
is checked here and nowhere else, whether it was found by name or taken off the stack.
-/

namespace TaskVm

/-- Why a computation on the heap gives no value. -/
inductive Fault where
  /-- An error that programs can see. -/
  | raised (e : RuntimeError)
  /-- A comparison of values that does not come to an end. -/
  | endless
deriving DecidableEq, Inhabited

/-- Computations that read and change the heap. What was changed before a fault stays
changed. -/
abbrev HeapM := EStateM Fault Heap

namespace HeapM

/-- Raise an error. -/
def raise {α : Type} (e : RuntimeError) : HeapM α := throw (.raised e)

/-- Raise the error of a computation that changes nothing. -/
def ofExcept {α : Type} : Except RuntimeError α → HeapM α
  | .ok a => pure a
  | .error e => raise e

/-- The answer of a comparison. -/
def ofAnswer : Option Bool → HeapM Bool
  | some b => pure b
  | none => throw .endless

end HeapM

/-- A function that the host has registered. -/
abbrev HostFunction := List Value → HeapM Value

/-- A call with the wrong number of arguments. -/
def Native.arityError (n : Native) (expected got : Nat) : RuntimeError :=
  .arityError n.name (toString expected) got

end TaskVm
