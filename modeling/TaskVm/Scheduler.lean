import TaskVm.Task
import Std.Data.ExtTreeMap

/-!
# The scheduler

Tasks that are not having their turn, and the queue of those that want one. The queue is
first come, first served; only a paused task goes back to its head. Parked tasks are kept
but not queued, until one of their waiters is woken.
-/

namespace TaskVm

/-- The tasks of a machine, the running one left out. -/
structure Scheduler where
  tasks : Std.ExtTreeMap TaskId Task := {}
  /-- The tasks that want a turn, the next one first. -/
  queue : List TaskId := []
  /-- The number of the next task. -/
  nextId : TaskId := 0

namespace Scheduler

instance : Inhabited Scheduler := ⟨{}⟩

/-- Give out a number for a new task. -/
def takeId (s : Scheduler) : TaskId × Scheduler := (s.nextId, { s with nextId := s.nextId + 1 })

def get? (s : Scheduler) (id : TaskId) : Option Task := s.tasks[id]?

/-- Keep a task without queueing it. -/
def put (s : Scheduler) (t : Task) : Scheduler := { s with tasks := s.tasks.insert t.id t }

/-- A task that is kept is found. -/
@[simp] theorem get?_put (s : Scheduler) (t : Task) : (s.put t).get? t.id = some t := by
  simp [put, get?]

/-- Put a task at the end of the queue. -/
def requeue (s : Scheduler) (h : Heap) (t : Task) : Scheduler × Heap :=
  ({ s.put t with queue := s.queue ++ [t.id] }, h.setStatus t.handle .runnable)

/-- Put a task at the head of the queue. -/
def requeueFront (s : Scheduler) (h : Heap) (t : Task) : Scheduler × Heap :=
  ({ s.put t with queue := t.id :: s.queue }, h.setStatus t.handle .runnable)

/-- Park a task until one of its waiters is woken. -/
def block (s : Scheduler) (h : Heap) (t : Task) : Scheduler × Heap :=
  (s.put t, h.setStatus t.handle .blocked)

/-- The first of some queued tasks that is there, and the queue behind it. -/
def firstHeld (tasks : Std.ExtTreeMap TaskId Task) : List TaskId → Option (Task × List TaskId)
  | [] => none
  | id :: queue =>
    match tasks[id]? with
    | some t => some (t, queue)
    | none => firstHeld tasks queue

/-- Take the next task for its turn. -/
def takeNext (s : Scheduler) (h : Heap) : Option Task × Scheduler × Heap :=
  match firstHeld s.tasks s.queue with
  | some (t, queue) =>
    (some t, { s with tasks := s.tasks.erase t.id, queue }, h.setStatus t.handle .running)
  -- Numbers in the queue whose tasks are gone have been skipped.
  | none => (none, { s with queue := [] }, h)

/-- The waiter belongs to a wait that its task is still in. -/
def isLive (s : Scheduler) (h : Heap) (w : Waiter) : Bool :=
  match s.get? w.task with
  | some t => t.status h == .blocked && t.waitEpoch == w.epoch
  | none => false

/-- End the wait of a live waiter's task and queue the task. The answer is whether the
waiter was live. -/
def wake (s : Scheduler) (h : Heap) (w : Waiter) (resume : Resume) : Bool × Scheduler × Heap :=
  match s.isLive h w, s.get? w.task with
  | true, some t =>
    -- With the next epoch all other waiters of this wait are dead.
    let t := { t with resume := some resume, waitEpoch := t.waitEpoch + 1 }
    (true, { s.put t with queue := s.queue ++ [t.id] }, h.setStatus t.handle .runnable)
  | _, _ => (false, s, h)

/-- What a waiter is to resume with, given a value. -/
def resumeOf (w : Waiter) (v : Value) : Resume :=
  match w.case with
  | some index => .selected index v
  | none => .value v

/-- Complete a parked operation with a value. -/
def deliver (s : Scheduler) (h : Heap) (w : Waiter) (v : Value) : Bool × Scheduler × Heap :=
  s.wake h w (resumeOf w v)

/-- Fail a parked operation. -/
def fail (s : Scheduler) (h : Heap) (w : Waiter) (e : RuntimeError) : Bool × Scheduler × Heap :=
  s.wake h w (.error e)

/-- The number of tasks held. -/
def size (s : Scheduler) : Nat := s.tasks.size

/-- Give up all tasks. -/
def drain (s : Scheduler) : List Task × Scheduler :=
  (s.tasks.toList.map (·.2), { s with tasks := {}, queue := [] })

end Scheduler

end TaskVm
