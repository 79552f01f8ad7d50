import TaskVm.Machine.Instruction

/-!
# Turns and runs

A run is a sequence of ticks. A tick gives the next task its turn, or lets the running task
do one thing: pick up the result of a parked operation, leave a frame whose code has come
to its end, or execute an instruction. Between two ticks nothing is half done, so that is
where a debugger may pause the run, and where everything that is said of all states of a
machine is said.
-/

namespace TaskVm

/-- How a task's turn ends. -/
inductive TurnEnd where
  | completed (result : Value)
  | failed (failure : Failure)
  | blocked
  | yielded
  /-- Two values are compared that lead back to themselves, and the comparison never ends. -/
  | endless
deriving DecidableEq

/-- How a run ends. -/
inductive Outcome where
  /-- The main task has ended with this value. -/
  | complete (result : Value)
  /-- The hook paused the run before the instruction at an offset of a task. -/
  | paused (task : TaskId) (ip : Nat)
  | failed (failure : Failure)
  /-- Two values are compared that lead back to themselves, and the comparison never ends. -/
  | endless
deriving DecidableEq

namespace Turn

/-- Tell debuggers that frames are left by a throw. -/
def returnedByThrow (s : Turn) (value : Value) (left : List Frame) : List Event :=
  left.map fun f => .returned s.task.id (f.functionName s.heap) value

/-- The error that a thrown value ends a task with. -/
def uncaught (h : Heap) : Value → RuntimeError
  | .error e => e
  | other => .unhandledException (h.display other)

/-- Go on at the innermost handler, or end the task if there is none. -/
def unwind (s : Turn) (value : Value) : Option TurnEnd × Turn :=
  match s.task.handlers with
  | [] => (some (.failed ⟨uncaught s.heap value, s.task.trace s.heap⟩), s)
  | handler :: _ =>
    -- Depths are counted from the outermost frame, so that calls in between do not matter.
    let surplus := s.task.frames.length - handler.frameDepth
    let left := s.task.frames.take surplus
    let events := s.events ++ s.returnedByThrow value left
    let acts := s.acts ++ [.left s.task.id left]
    let (openUpvalues, heap) :=
      s.task.openUpvalues.closeFrom s.heap handler.stackDepth s.task.stack
    let task := s.task.truncateIterations handler.iterDepth
    let task := { task with
      frames := task.frames.drop surplus
      openUpvalues
      stack := (task.stack.take handler.stackDepth).push value }
    match task.frames with
    | f :: callers =>
      (none, { s with
        events
        acts
        heap
        task := { task with frames := { f with ip := handler.target } :: callers } })
    | [] =>
      (some (.failed ⟨.invalidBytecode handler.target "handler frame missing", []⟩),
        { s with events, acts, heap, task })

/-- What an instruction leads to: the next one, or the end of the turn. -/
def follow (s : Turn) : Flow → Option TurnEnd × Turn
  | .next => (none, s)
  | .block => (some .blocked, s)
  | .yield => (some .yielded, s)
  | .done result => (some (.completed result), s)
  | .thrown value => s.unwind value

/-- What the failure of an instruction leads to. Fatal errors pass by the handlers. -/
def recover (s : Turn) : Fault → Option TurnEnd × Turn
  | .endless => (some .endless, s)
  | .raised e =>
    let s := { s with events := s.events ++ [.raised s.task.id e] }
    if e.isFatal then (some (.failed ⟨e, s.task.trace s.heap⟩), s)
    else s.unwind (.error e)

/-- Run a computation and go by what it leads to. -/
def perform (s : Turn) (x : Exec Flow) : Option TurnEnd × Turn :=
  match x s with
  | .ok flow s => s.follow flow
  | .error e s => s.recover e

/-- What picking up the result of a parked operation does. -/
def resumeWith : Resume → Exec Flow
  | .value v => do
    Exec.push v
    pure .next
  | .selected index v => do
    Exec.pushSelected v index
    pure .next
  | .error e => pure (.thrown (.error e))

/-- One thing the running task does. -/
def advance (s : Turn) : Option TurnEnd × Turn :=
  match s.task.resume with
  | some r =>
    let acts := s.acts ++ [.resumed s.task.id r]
    perform { s with acts, task := { s.task with resume := none } } (resumeWith r)
  | none =>
    match s.task.frames with
    | [] => (some (.completed .nil), s)
    | f :: _ =>
      -- Code that has come to its end returns nil, and that is no instruction.
      if (f.code s.heap).size ≤ f.ip then s.perform (Exec.leaveFrame .nil)
      else s.perform Exec.step

end Turn

/-- A machine after a tick. -/
structure Tick where
  machine : Machine
  /-- What a debugger is to be told. -/
  events : List Event := []
  /-- What the running task has done. -/
  acts : List Act := []
  /-- The heap at the time of the events. -/
  scene : Heap := machine.heap
  /-- How the run has ended, if it has. -/
  outcome : Option Outcome := none

namespace Machine

/-- The state of a turn, given the task that has it. -/
def turn (m : Machine) (task : Task) : Turn :=
  { hosts := m.hosts, heap := m.heap, vm := m.vm, task }

/-- The machine whose running task is in the middle of a turn. -/
def ofTurn (s : Turn) : Machine :=
  { hosts := s.hosts, heap := s.heap, vm := s.vm, running := some s.task }

/-- Nothing is left to run while the main task is parked. -/
def deadlock (m : Machine) : Tick :=
  let trace := match m.vm.main.bind m.vm.scheduler.get? with
    | some main => main.trace m.heap
    | none => []
  { machine := m.shutdown, outcome := some (.failed ⟨.deadlock, trace⟩) }

/-- Give the next task its turn. -/
def dispatch (m : Machine) : Tick :=
  match m.vm.scheduler.takeNext m.heap with
  | (none, scheduler, heap) => deadlock { m with heap, vm := { m.vm with scheduler } }
  | (some task, scheduler, heap) =>
    { machine := { m with
        heap
        vm := { m.vm with scheduler, profiler := m.vm.profiler.recordTaskSwitch }
        running := some task } }

/-- Put the task whose turn has ended where it belongs. The end of the main task and a fatal
error end the run, and give up all other tasks. -/
def endTurn (m : Machine) (task : Task) : TurnEnd → Machine × Option Outcome
  | .yielded =>
    let (scheduler, heap) := m.vm.scheduler.requeue m.heap task
    ({ m with heap, vm := { m.vm with scheduler } }, none)
  | .blocked =>
    let (scheduler, heap) := m.vm.scheduler.block m.heap task
    ({ m with heap, vm := { m.vm with scheduler } }, none)
  | .completed result =>
    let m := { m with heap := (task.terminate m.heap .completed).2 }
    if m.vm.main = some task.id then (m.shutdown, some (.complete result)) else (m, none)
  | .failed failure =>
    let m := { m with heap := (task.terminate m.heap .failed).2 }
    -- Other tasks fail on their own, unless the error is one that nobody survives.
    if m.vm.main = some task.id || failure.error.isFatal then
      (m.shutdown, some (.failed failure))
    else (m, none)
  | .endless => (m, some .endless)

/-- One step of a run. -/
def tick (m : Machine) : Tick :=
  match m.running with
  | none => m.dispatch
  | some task =>
    match (m.turn task).advance with
    | (none, s) => { machine := ofTurn s, events := s.events, acts := s.acts }
    | (some turnEnd, s) =>
      -- Events are about the heap as it is before the task is put where it belongs.
      let (machine, outcome) := endTurn { ofTurn s with running := none } s.task turnEnd
      { machine, events := s.events, acts := s.acts, scene := s.heap, outcome }

/-- The instruction the next tick executes, if it executes one. -/
def offer? (m : Machine) : Option (TaskId × Nat × DebugInfo) :=
  match m.running with
  | none => none
  | some task =>
    match task.resume, task.frames with
    | none, f :: _ =>
      if f.ip < (f.code m.heap).size then
        some (task.id, f.ip, ⟨m.vm.sourceName, f.lineAt m.heap f.ip, f.functionName m.heap⟩)
      else none
    | _, _ => none

/-- Take back the turn of the running task, so that it goes on first. -/
def pause (m : Machine) : Machine × Outcome :=
  match m.running with
  | none => (m, .complete .nil)
  | some task =>
    let (scheduler, heap) := m.vm.scheduler.requeueFront m.heap task
    ({ m with heap, vm := { m.vm with scheduler }, running := none }, .paused task.id task.ip)

variable {σ : Type}

/-- Tell a hook what happened during a tick. -/
def tell (hook : Option (Hook σ)) (s : σ) (t : Tick) : σ :=
  match hook with
  | some hook => hook.notifyAll s t.scene t.events
  | none => s

/-- Whether a hook lets the run go on. -/
def ask (hook : Option (Hook σ)) (s : σ) (m : Machine) : Bool × σ :=
  match hook with
  | none => (true, s)
  | some hook =>
    match m.offer? with
    | some (task, ip, info) => hook.offer s task ip info
    | none => (true, s)

/-- Tick until the run has ended, at most `fuel` times. -/
def runFor (hook : Option (Hook σ)) : (fuel : Nat) → Machine → σ → Option (Outcome × Machine × σ)
  | 0, _, _ => none
  | fuel + 1, m, s =>
    match ask hook s m with
    | (false, s) =>
      -- The instruction has not been executed, and is offered again when the run goes on.
      let (m, outcome) := m.pause
      some (outcome, m, s)
    | (true, s) =>
      let t := m.tick
      let s := tell hook s t
      match t.outcome with
      | some outcome => some (outcome, t.machine, s)
      | none => runFor hook fuel t.machine s

/-- Run the program that is loaded until it ends or is paused; without one there is nothing
to do. -/
def run (hook : Option (Hook σ)) (fuel : Nat) (m : Machine) (s : σ) :
    Option (Outcome × Machine × σ) :=
  match m.vm.main with
  | none => some (.complete .nil, m, s)
  | some _ => runFor hook fuel { m with vm := m.vm.warmUp } s

end Machine

end TaskVm
