import TaskVm.Machine.Exec

/-!
# Calls, closures and new tasks
-/

namespace TaskVm.Exec

/-- The error of a closure called with the wrong number of arguments. -/
def arityError (t : Template) (got : Nat) : RuntimeError :=
  let least := if t.variadic then "at least " else ""
  .arityError t.name (least ++ toString t.arity.toNat) got

/-- Check the number of arguments, collect the surplus of a variadic function in an array,
and return how many parameters are on the stack. -/
def bindArguments (t : Template) (argc : Nat) : Exec Nat := do
  let arity := t.arity.toNat
  if t.variadic then
    if argc < arity then raise (arityError t argc)
    else
      -- The surplus is on top, and the array takes its place.
      let extras ← popMany (argc - arity)
      let id ← create (·.newArray extras.toArray)
      push (.array id)
      pure (arity + 1)
  else if argc = arity then pure arity
  else raise (arityError t argc)

/-- Enter a frame, with locals beyond the arguments. -/
def enterFrame (f : Frame) (locals : Array Value) : Exec Unit := do
  take f.stackBase
  modifyTask (·.enter f locals)

/-- Enter a closure whose arguments are on the stack. -/
def callClosure (closure : ClosureId) (argc : Nat) : Exec Unit := do
  let t := (← get).heap.closureTemplate closure
  let params ← bindArguments t argc
  let s ← get
  let config := s.vm.config
  let depth := s.task.frames.length
  if config.maxFrames ≤ depth then raise (.stackOverflow config.maxFrames)
  else if s.task.stack.size < params then raise s.task.underflow
  else
    let base := s.task.stack.size - params
    let f := Frame.enter s.heap closure base s.task.iterations.length
    -- There has to be room for all locals before any of them is there.
    if config.stackCapacity < base + f.localCount then raise (.stackOverflow depth)
    else
      emit (.called s.task.id t.name (depth + 1))
      enterFrame f (Array.replicate (f.localCount - params) .nil)

/-- Count a native call and make it. -/
def callNative (id : NativeId) (args : List Value) : Exec Value := do
  modify fun s => { s with vm := { s.vm with profiler := s.vm.profiler.recordNativeCall } }
  let s ← get
  onHeap ((s.heap.native id).call s.hosts args)

/-- The native that a method of a receiver stands for at this moment. -/
def resolveMethod (receiver : Value) (method : String) : Exec NativeId := do
  let unknown := RuntimeError.unknownMethod receiver.typeName method
  match (ReceiverType.of? receiver).bind (·.method? method) with
  | none => raise unknown
  | some name =>
    let vm := (← get).vm
    let (found, natives) := vm.natives.lookup vm.globals name
    modify fun s => { s with vm := { s.vm with natives } }
    match found with
    | some id => pure id
    | none => raise unknown

/-- Call a value with the topmost values as arguments. -/
def callValue (callee : Value) (argc : Nat) : Exec Unit := do
  match callee with
  | .closure c => callClosure c argc
  | .native n => push (← callNative n (← popMany argc))
  | .boundMethod receiver method =>
    -- The arguments are still on the stack if there is no such method.
    let n ← resolveMethod receiver method
    push (← callNative n (receiver :: (← popMany argc)))
  | other => raise (.typeError ("cannot call a value of type " ++ other.typeName))

/-- Read as many captures as announced: whether from a local, and which. -/
def readCaptures : Nat → Exec (List (Bool × Nat))
  | 0 => pure []
  | n + 1 => do
    let isLocal ← readByte
    let index ← readByte
    let rest ← readCaptures n
    pure ((isLocal != 0, index) :: rest)

/-- The cell of a stack slot of the running task. -/
def captureSlot (slot : Nat) : Exec CellId := fun s =>
  let (cell, openUpvalues, heap) := s.task.openUpvalues.capture s.heap s.task.id slot
  let acts := s.acts ++ [.captured (s.task.localAt slot) (s.task.stack.getD slot .nil) cell]
  let tidy := s.tidy && s.task.hasLocal slot
  .ok cell { s with heap, acts, tidy, task := { s.task with openUpvalues } }

/-- The cell of one capture: of a local of the frame, or one the frame's closure has. -/
def captureCell (f : Frame) (capture : Bool × Nat) : Exec CellId := do
  match capture with
  -- A local of the enclosing function, which is the one that is running.
  | (true, slot) => captureSlot (f.stackBase + slot)
  | (false, index) =>
    match ((← get).heap.closure f.closure).upvalues[index]? with
    | some cell => pure cell
    | none => raise (.invalidBytecode f.ip "captured upvalue index out of range")

/-- The cells of captures, in order. -/
def captureCells (f : Frame) : List (Bool × Nat) → Exec (List CellId)
  | [] => pure []
  | c :: cs => do
    let cell ← captureCell f c
    let cells ← captureCells f cs
    pure (cell :: cells)

/-- Make a closure from a function constant and what it captures. -/
def makeClosure : Exec Unit := do
  match ← constant (← readWord) with
  | .function template =>
    let captures ← readCaptures (← readByte)
    let cells ← captureCells (← frame) captures
    let id ← create (·.newClosure { template, upvalues := cells.toArray })
    push (.closure id)
  | other => raise (.typeError ("cannot make a closure from " ++ other.typeName))

/-- Run a computation with another task in the place of the running one, and return that
task. Whatever happens, the running task is back in its place afterwards. -/
def withTask (task : Task) (x : Exec Unit) : Exec Task := fun s =>
  match x { s with task } with
  | .ok _ s' => .ok s'.task { s' with task := s.task, tidy := s.tidy, touched := s.touched }
  | .error e s' => .error e { s' with task := s.task, tidy := s.tidy, touched := s.touched }

/-- Queue a new task for its first turn. -/
def start (child : Task) : Exec Unit := modify fun s =>
  let (scheduler, heap) := s.vm.scheduler.requeue s.heap child
  { s with
    heap
    vm := { s.vm with scheduler, handles := s.vm.handles.insert child.id child.handle } }

/-- Start a task on a closure, and return its handle. -/
def spawn (callee : Value) (args : List Value) : Exec Value := do
  match callee with
  | .closure c =>
    let s ← get
    let (id, scheduler) := s.vm.scheduler.takeId
    let (child, heap) := Task.new s.heap id (s.heap.closureTemplate c).name
    set { s with heap, vm := { s.vm with scheduler } }
    -- The number and the handle are used up even if the call fails.
    let child ← withTask { child with stack := args.toArray } (callClosure c args.length)
    start child
    pure (.task child.handle)
  | other => raise (.typeError ("cannot spawn a value of type " ++ other.typeName))

end TaskVm.Exec
