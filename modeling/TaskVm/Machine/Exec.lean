import TaskVm.Act
import TaskVm.Hook
import TaskVm.Machine

/-!
# Steps of a turn

The state an instruction works on is a machine with its running task taken out, and the
events that have happened. `Exec` computations change it and may fail; what was changed
before a failure stays changed, as an instruction that has popped its operands has popped
them whatever comes next.
-/

namespace TaskVm

/-- A machine in the middle of a turn. -/
structure Turn where
  hosts : Array HostFunction
  heap : Heap
  vm : Vm
  task : Task
  /-- What a debugger is to be told, in order. -/
  events : List Event := []
  /-- What has been done, in order. -/
  acts : List Act := []
  /-- Operands have only been taken from above the locals and from above what a handler goes
  back to, and nothing but locals has been captured. -/
  tidy : Bool := true
  /-- What has been reached into, in order. -/
  touched : List Touch := []

/-- Computations within a turn. -/
abbrev Exec := EStateM Fault Turn

/-- What follows an instruction. -/
inductive Flow where
  | next
  /-- The task has parked itself. -/
  | block
  /-- The task gives up its turn. -/
  | yield
  /-- The task has ended. -/
  | done (result : Value)
  /-- The program throws a value. -/
  | thrown (value : Value)
deriving DecidableEq

namespace Exec

variable {α : Type}

/-- Raise an error. -/
def raise (e : RuntimeError) : Exec α := throw (.raised e)

/-- The result of a computation that changes nothing. -/
@[inline] def ofExcept : Except RuntimeError α → Exec α
  | .ok a => pure a
  | .error e => raise e

/-- Run a computation on the heap. -/
def onHeap (x : HeapM α) : Exec α := fun s =>
  match x s.heap with
  | .ok a heap => .ok a { s with heap }
  | .error e heap => .error e { s with heap }

/-- Run a computation on the task. -/
@[inline] def onTask (f : Task → Except RuntimeError (α × Task)) : Exec α := fun s =>
  match f s.task with
  | .ok (a, task) => .ok a { s with task }
  | .error e => .error (.raised e) s

/-- Change the task. -/
@[inline] def modifyTask (f : Task → Task) : Exec Unit := fun s =>
  .ok () { s with task := f s.task }

/-- Make a new object. -/
@[inline] def create (f : Heap → α × Heap) : Exec α := fun s =>
  let (a, heap) := f s.heap
  .ok a { s with heap }

/-- Let debuggers know. -/
def emit (e : Event) : Exec Unit := modify fun s => { s with events := s.events ++ [e] }

/-- Put an act on record. -/
def note (a : Act) : Exec Unit := modify fun s => { s with acts := s.acts ++ [a] }

/-- Put on record what is reached into. -/
def touch (x : Touch) : Exec Unit := modify fun s => { s with touched := s.touched ++ [x] }

/-! ### The operand stack -/

def push (v : Value) : Exec Unit := modifyTask (·.push v)

/-- Put on record that what is on the stack from a height on has been taken. -/
def take (height : Nat) : Exec Unit := modify fun s =>
  { s with
    tidy := s.tidy && s.task.keeps height
    touched := s.touched ++ [.operands s.task.stackBase height] }

def pop : Exec Value := do
  let v ← onTask Task.pop
  take (← get).task.stack.size
  pure v

def peek : Exec Value := do ofExcept (← get).task.peek

def popMany (n : Nat) : Exec (List Value) := do
  let vs ← onTask (·.popMany n)
  take (← get).task.stack.size
  pure vs

/-! ### Operands -/

/-- The innermost frame. -/
def frame : Exec Frame := do ofExcept (← get).task.frame

/-- The error of code that cannot be executed, at the place reading has come to. -/
def invalid (reason : String) : Exec α := do raise (.invalidBytecode (← get).task.ip reason)

/-- Read a byte. -/
def readByte : Exec Nat := do
  let (b, f) ← ofExcept ((← frame).readByte (← get).heap)
  modifyTask (·.setFrame f)
  pure b.toNat

/-- Read two bytes, the high one first. -/
def readWord : Exec Nat := do
  let hi ← readByte
  let lo ← readByte
  pure (hi * 256 + lo)

/-- Read two bytes as a signed number. -/
def readOffset : Exec Int := do
  let w ← readWord
  pure (if w < 32768 then w else (w : Int) - 65536)

/-- Jump by an offset. -/
def jump (offset : Int) : Exec Unit := do
  let f ← ofExcept ((← frame).jump (← get).heap offset)
  modifyTask (·.setFrame f)

/-- The constant of a number. -/
def constant (index : Nat) : Exec Value := do
  ofExcept ((← frame).constant (← get).heap index)

/-- Read the number of a name constant. -/
def readName : Exec String := do
  match ← constant (← readWord) with
  | .string name => pure name
  | _ => invalid "name operand is not a string constant"

/-- The stack slot of a local. -/
def localIndex (slot : Nat) : Exec Nat := do
  let index := (← frame).stackBase + slot
  if index < (← get).task.stack.size then pure index else invalid "local slot out of range"

/-- Change a local. -/
def setSlot (index : Nat) (v : Value) : Exec Unit := do
  modifyTask fun t => { t with stack := t.stack.setIfInBounds index v }
  note (.localSet ((← get).task.localAt index) v)

/-- Push a local. -/
def pushLocal (slot : Nat) : Exec Unit := do
  let index ← localIndex slot
  let s ← get
  let v := s.task.stack.getD index .nil
  note (.localRead (s.task.localAt index) v)
  push v

/-! ### Captured variables -/

/-- Read the number of a captured variable. -/
def readUpvalue : Exec CellId := do
  let index ← readByte
  let f ← frame
  match ((← get).heap.closure f.closure).upvalues[index]? with
  | some cell => pure cell
  | none => invalid "upvalue index out of range"

/-- The stack of a task of this machine. -/
def stackOf (s : Turn) (task : TaskId) : Array Value :=
  if task = s.task.id then s.task.stack
  else
    -- Another task is between two turns, with its stack as it left it.
    match s.vm.scheduler.get? task with
    | some t => t.stack
    | none => #[]

/-- The value of a captured variable, wherever it lives. -/
def readCell (cell : CellId) : Exec Value := do
  let s ← get
  let v := match s.heap.cell cell with
    | .closed v => v
    | .onStack task slot => (stackOf s task).getD slot .nil
  note (.cellRead cell v)
  pure v

/-- Change a slot on the stack of a task of this machine. -/
def setSlotOf (task : TaskId) (slot : Nat) (v : Value) (s : Turn) : Turn :=
  let change (t : Task) : Task := { t with stack := t.stack.setIfInBounds slot v }
  if task = s.task.id then { s with task := change s.task }
  else
    match s.vm.scheduler.get? task with
    | some t => { s with vm := { s.vm with scheduler := s.vm.scheduler.put (change t) } }
    | none => s

/-- Change a captured variable, wherever it lives. -/
def writeCell (cell : CellId) (v : Value) : Exec Unit := do
  note (.cellSet cell v)
  -- A cell that is still open is only a pointer, and the stack is what is written to.
  match (← get).heap.cell cell with
  | .closed _ => modify fun s => { s with heap := s.heap.setCell cell (.closed v) }
  | .onStack task slot =>
    touch (.slot task slot)
    modify (setSlotOf task slot v)

end Exec

end TaskVm
