import TaskVm.Heap

/-!
# The debug hook

What a debugger sees. It is asked before every instruction whether to go on, and told of
calls, returns and errors as they happen. A hook has a state of its own, which is all it
can change.
-/

namespace TaskVm

/-- The source position of the instruction about to run. -/
structure DebugInfo where
  file : String
  line : Int32
  function : String
deriving DecidableEq, Inhabited

/-- What a hook is told. -/
inductive Event where
  /-- A frame was entered; the depth counts it. -/
  | called (task : TaskId) (function : String) (depth : Nat)
  /-- A frame was left, with its result or with the thrown value. -/
  | returned (task : TaskId) (function : String) (value : Value)
  /-- An error was raised, handlers not yet searched. -/
  | raised (task : TaskId) (error : RuntimeError)
deriving DecidableEq

/-- A debugger with states of type `σ`. -/
structure Hook (σ : Type) where
  /-- Whether to execute the instruction at an offset, or to pause. -/
  offer : σ → TaskId → Nat → DebugInfo → Bool × σ
  /-- Take note of an event. -/
  notify : σ → Heap → Event → σ

namespace Hook

variable {σ : Type}

/-- Tell of events one after the other. -/
def notifyAll (hook : Hook σ) (s : σ) (h : Heap) (events : List Event) : σ :=
  events.foldl (fun s e => hook.notify s h e) s

end Hook

end TaskVm
