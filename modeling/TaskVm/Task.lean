import TaskVm.Task.Frame
import TaskVm.Task.Upvalues

/-!
# Tasks

A task has its own operand stack, frames, handlers and iterations; heap and globals it
shares with all others. Frames, handlers and iterations are listed innermost first.
-/

namespace TaskVm

/-- What a parked operation has come to, for the task to pick up on its next turn. -/
inductive Resume where
  /-- Push a value. -/
  | value (v : Value)
  /-- Push a value and the index of the case that took place. -/
  | selected (index : Nat) (v : Value)
  /-- Throw an error. -/
  | error (e : RuntimeError)
deriving DecidableEq, Inhabited

/-- A local of one activation of one task. -/
structure Variable where
  task : TaskId
  activation : Nat
  index : Nat
deriving DecidableEq, Inhabited

/-- A task. -/
structure Task where
  id : TaskId
  handle : HandleId
  stack : Array Value := #[]
  frames : List Frame := []
  handlers : List Handler := []
  iterations : List Iteration := []
  openUpvalues : OpenUpvalues := {}
  resume : Option Resume := none
  /-- How many waits have ended, which is the number of the next one. -/
  waitEpoch : Nat := 0
  /-- How many frames have been entered, which is the number of the next activation. -/
  activations : Nat := 0
  /-- How many handlers have been registered, which is the number of the next one. -/
  registrations : Nat := 0
deriving DecidableEq, Inhabited

namespace Task

/-- A task that has not begun. -/
def new (h : Heap) (id : TaskId) (name : String) : Task × Heap :=
  let (handle, h) := h.newHandle { id, name }
  ({ id, handle }, h)

/-- The stage of the task's life. -/
def status (h : Heap) (t : Task) : TaskStatus := (h.handle t.handle).status

/-- The offset at which the innermost frame is reading. -/
def ip (t : Task) : Nat :=
  match t.frames with
  | f :: _ => f.ip
  | [] => 0

/-- The stack slot at which the locals of the innermost frame begin. -/
def stackBase (t : Task) : Nat :=
  match t.frames with
  | f :: _ => f.stackBase
  | [] => 0

/-- How many iterations were active when the innermost frame was entered. -/
def iterBase (t : Task) : Nat :=
  match t.frames with
  | f :: _ => f.iterBase
  | [] => 0

/-- The activation of the innermost frame. -/
def activation (t : Task) : Nat :=
  match t.frames with
  | f :: _ => f.activation
  | [] => t.activations

/-- An instruction needs more operands than there are. -/
def underflow (t : Task) : RuntimeError := .invalidBytecode t.ip "operand stack underflow"

def push (t : Task) (v : Value) : Task := { t with stack := t.stack.push v }

/-- Take the topmost value. -/
def pop (t : Task) : Except RuntimeError (Value × Task) :=
  match t.stack.back? with
  | some v => .ok (v, { t with stack := t.stack.pop })
  | none => .error t.underflow

/-- The topmost value. -/
def peek (t : Task) : Except RuntimeError Value :=
  match t.stack.back? with
  | some v => .ok v
  | none => .error t.underflow

/-- What was pushed last is popped first. -/
@[simp] theorem pop_push (t : Task) (v : Value) : (t.push v).pop = .ok (v, t) := by
  simp [push, pop]

@[simp] theorem peek_push (t : Task) (v : Value) : (t.push v).peek = .ok v := by
  simp [push, peek]

/-- Take the topmost `n` values, lowest first. -/
def popMany (t : Task) (n : Nat) : Except RuntimeError (List Value × Task) :=
  if n ≤ t.stack.size then
    let rest := t.stack.size - n
    .ok ((t.stack.extract rest t.stack.size).toList, { t with stack := t.stack.take rest })
  else .error t.underflow

/-- The innermost frame. -/
def frame (t : Task) : Except RuntimeError Frame :=
  match t.frames with
  | f :: _ => .ok f
  | [] => .error (.invalidBytecode 0 "no active call frame")

/-- Replace the innermost frame. -/
def setFrame (t : Task) (f : Frame) : Task := { t with frames := f :: t.frames.drop 1 }

/-- Enter a frame, with locals beyond those on the stack. -/
def enter (t : Task) (f : Frame) (locals : Array Value) : Task :=
  { t with
    stack := t.stack ++ locals
    frames := { f with activation := t.activations } :: t.frames
    activations := t.activations + 1 }

/-- Register a handler for the innermost frame and the operands there are. -/
def protect (t : Task) (f : Frame) (target : Nat) : Task :=
  { t with
    handlers :=
      { target, stackDepth := t.stack.size, frameDepth := t.frames.length,
        iterDepth := t.iterations.length, activation := f.activation
        registration := t.registrations } :: t.handlers
    registrations := t.registrations + 1 }

/-- The local of the innermost frame that is at a stack slot. -/
def localAt (t : Task) (slot : Nat) : Variable :=
  match t.frames with
  | f :: _ => ⟨t.id, f.activation, slot - f.stackBase⟩
  | [] => ⟨t.id, t.activations, slot⟩

/-- A stack of some height still has the locals of the innermost frame on it, and all that
the handlers go back to. -/
def keeps (t : Task) (height : Nat) : Bool :=
  t.frames.head?.all (·.top ≤ height) && t.handlers.all (·.stackDepth ≤ height)

/-- A stack slot is one of the locals of the innermost frame, or below them. -/
def hasLocal (t : Task) (slot : Nat) : Bool := t.frames.head?.any (slot < ·.top)

/-- Keep only the outermost `n` iterations. -/
def truncateIterations (t : Task) (n : Nat) : Task :=
  { t with iterations := t.iterations.drop (t.iterations.length - n) }

/-- The waiter of the task's current wait, for one case of a select or for a single
operation. -/
def waiter (t : Task) (case : Option Nat) : Waiter := ⟨t.id, t.waitEpoch, case⟩

/-- The active calls, innermost first. Each is at the instruction whose last byte has been
read. -/
def trace (h : Heap) (t : Task) : List TraceEntry :=
  t.frames.map fun f => ⟨f.functionName h, f.lineAt h (f.ip - 1)⟩

/-- Close the captured variables, give up the stacks, and enter a final stage. -/
def terminate (h : Heap) (t : Task) (status : TaskStatus) : Task × Heap :=
  let (openUpvalues, h) := t.openUpvalues.closeAll h t.stack
  ({ t with stack := #[], frames := [], handlers := [], iterations := [], openUpvalues },
    h.setStatus t.handle status)

end Task

end TaskVm
