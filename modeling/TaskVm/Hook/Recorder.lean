import TaskVm.Hook

/-!
# The recorder

A debugger that writes down what it sees and pauses at breakpoints. A breakpoint is an
offset of a task; it is used up when it is met, unless breakpoints are sticky, so a run
that is taken up again gets past it.

Values change after they are seen. A recorder therefore keeps views of them, taken at the
time, of whatever type `α` its owner likes.
-/

namespace TaskVm

/-- What a recorder writes down, with views of type `α` for values. -/
inductive Record (α : Type) where
  /-- An instruction was about to be executed. -/
  | instruction (task : TaskId) (ip : Nat) (line : Int32) (function : String)
    (file : Option String)
  /-- The run was paused before an instruction. -/
  | paused (task : TaskId) (ip : Nat)
  | called (task : TaskId) (function : String) (depth : Nat)
  | returned (task : TaskId) (function : String) (value : α)
  | raised (task : TaskId) (error : RuntimeError)

/-- The settings and the log of a recorder. -/
structure Recorder (α : Type) where
  breakpoints : List (TaskId × Nat) := []
  /-- Breakpoints stay after they were met. -/
  sticky : Bool := false
  /-- How many more instructions are written down. -/
  budget : Nat := 0
  /-- The name of the source file is written down with instructions. -/
  withFile : Bool := false
  log : Array (Record α) := #[]

namespace Recorder

variable {α : Type}

/-- Write something down. -/
def write (r : Recorder α) (entry : Record α) : Recorder α := { r with log := r.log.push entry }

/-- Pause at a breakpoint, and let any other instruction pass. -/
def offer (r : Recorder α) (task : TaskId) (ip : Nat) (info : DebugInfo) : Bool × Recorder α :=
  if r.breakpoints.contains (task, ip) then
    let breakpoints := if r.sticky then r.breakpoints else r.breakpoints.erase (task, ip)
    (false, { r with breakpoints }.write (.paused task ip))
  else if 0 < r.budget then
    let file := if r.withFile then some info.file else none
    (true, { r with budget := r.budget - 1 }.write
      (.instruction task ip info.line info.function file))
  else (true, r)

/-- Write down an event, with a view of its value. -/
def notify (view : Heap → Value → α) (r : Recorder α) (h : Heap) : Event → Recorder α
  | .called task function depth => r.write (.called task function depth)
  | .returned task function value => r.write (.returned task function (view h value))
  | .raised task error => r.write (.raised task error)

/-- The recorder as a hook. -/
def hook (view : Heap → Value → α) : Hook (Recorder α) where
  offer := offer
  notify := notify view

/-- Take what has been written down. -/
def takeLog (r : Recorder α) : Array (Record α) × Recorder α := (r.log, { r with log := #[] })

end Recorder

end TaskVm
