import TaskVm.Proofs.Parking

/-!
# The end of a turn

What can become of a task when its turn is over. Either it is held again, at some stage, or it is
gone, and the program may be over with it. That is only about where tasks are kept: no program runs
in the meantime, so the rest of the machine is as it was.
-/

namespace TaskVm

/-- A handle keeps the number of its task. -/
theorem Heap.ids_setStatus (h : Heap) (i : HandleId) (st : TaskStatus) :
    (h.setStatus i st).handles.map TaskHandle.id = h.handles.map TaskHandle.id := by
  refine Array.ext_getElem? fun j => ?_
  simp only [setStatus, Array.getElem?_map, Array.getElem?_modify]
  split
  · cases h.handles[j]? <;> rfl
  · rfl

/-- What is closed stays closed when more is. -/
theorem Heap.closed_setCell {h : Heap} {c d : CellId} {v w : Value}
    (hc : h.cells[c]? = some (.closed v)) :
    ∃ u, (h.setCell d (.closed w)).cells[c]? = some (.closed u) := by
  by_cases hd : d = c
  · subst hd
    exact ⟨w, Array.getElem?_setIfInBounds_self_of_lt (Array.getElem?_eq_some_iff.mp hc).1⟩
  · exact ⟨v, (Array.getElem?_setIfInBounds_ne hd).trans hc⟩

theorem OpenUpvalues.closed_closeCells {stack : Array Value} {c : CellId} :
    ∀ {cells : List (Nat × CellId)} {h : Heap} {v : Value}, h.cells[c]? = some (.closed v) →
      ∃ u, (closeCells h stack cells).cells[c]? = some (.closed u)
  | [], _, v, hc => ⟨v, hc⟩
  | d :: _, h, _, hc => by
    obtain ⟨u, hu⟩ := Heap.closed_setCell (d := d.2) (w := stack.getD d.1 .nil) hc
    exact closed_closeCells (h := h.setCell d.2 _) hu

namespace Machine

variable {m m' : Machine}

/-! ## What stays as it is -/

/-- Tasks have been put elsewhere. All that has changed is where they are held, which stages they
are in, and what was captured from them, which is closed if it was before. -/
structure Resettles (m m' : Machine) : Prop where
  hosts : m'.hosts = m.hosts
  heap : m'.heap = { m.heap with cells := m'.heap.cells, handles := m'.heap.handles }
  vm : m'.vm = { m.vm with
    scheduler := m'.vm.scheduler, main := m'.vm.main, profiler := m'.vm.profiler }
  nextId : m'.vm.scheduler.nextId = m.vm.scheduler.nextId
  ids : m'.heap.handles.map TaskHandle.id = m.heap.handles.map TaskHandle.id
  closed : ∀ (c : CellId) v, m.heap.cells[c]? = some (.closed v) →
    ∃ u, m'.heap.cells[c]? = some (.closed u)

namespace Resettles

theorem refl (m : Machine) : m.Resettles m := ⟨rfl, rfl, rfl, rfl, rfl, fun _ v hc => ⟨v, hc⟩⟩

theorem trans {m'' : Machine} (h : m.Resettles m') (h' : m'.Resettles m'') :
    m.Resettles m'' where
  hosts := h'.hosts.trans h.hosts
  heap := by rw [h'.heap, h.heap]
  vm := by rw [h'.vm, h.vm]
  nextId := h'.nextId.trans h.nextId
  ids := h'.ids.trans h.ids
  closed c v hc := by
    obtain ⟨u, hu⟩ := h.closed c v hc
    exact h'.closed c u hu

theorem channels (h : m.Resettles m') : m'.heap.channels = m.heap.channels := by rw [h.heap]

theorem chunks (h : m.Resettles m') : m'.heap.chunks = m.heap.chunks := by rw [h.heap]

theorem warmedUp (h : m.Resettles m') : m'.vm.warmedUp = m.vm.warmedUp := by rw [h.vm]

theorem config (h : m.Resettles m') : m'.vm.config = m.vm.config := by rw [h.vm]

/-- A task is handed over and its stage is noted. -/
theorem handOver (m : Machine) (i : HandleId) (st : TaskStatus) {scheduler : Scheduler}
    (hnext : scheduler.nextId = m.vm.scheduler.nextId) (profiler : Profiler)
    (running : Option Task) :
    m.Resettles { m with
      heap := m.heap.setStatus i st, vm := { m.vm with scheduler, profiler }, running } :=
  ⟨rfl, rfl, rfl, hnext, m.heap.ids_setStatus i st, fun _ v hc => ⟨v, hc⟩⟩

/-- A task has come to its end. -/
theorem terminate (m : Machine) (t : Task) (st : TaskStatus) (running : Option Task) :
    m.Resettles { m with heap := (t.terminate m.heap st).2, running } := by
  have hclose : m.Resettles
      { m with heap := (t.openUpvalues.closeAll m.heap t.stack).2 } := by
    refine ⟨rfl, ?_, rfl, rfl, ?_, fun _ _ => OpenUpvalues.closed_closeCells⟩
    · dsimp only
      rw [OpenUpvalues.closeAll_frame]
    · rw [OpenUpvalues.closeAll_frame]
  exact hclose.trans (handOver _ t.handle st rfl _ running)

end Resettles

/-! ## Giving tasks up -/

theorem crew_heap (m : Machine) {h : Heap} (hh : h.handles = m.heap.handles) :
    { m with heap := h }.crew = m.crew := by
  refine Crew.ext rfl rfl rfl rfl rfl rfl (congrArg Array.size hh) ?_
  funext k
  exact congrArg (fun hs : Array TaskHandle => (hs.getD k default).status) hh

/-- Closing what was captured from some tasks touches cells only. -/
theorem closeAll_frame (tasks : List Task) (h : Heap) :
    tasks.foldl (fun h t => (t.openUpvalues.closeAll h t.stack).2) h = { h with
      cells := (tasks.foldl (fun h t => (t.openUpvalues.closeAll h t.stack).2) h).cells } := by
  induction tasks generalizing h with
  | nil => rfl
  | cons t ts ih => rw [List.foldl_cons, ih, OpenUpvalues.closeAll_frame]

theorem closed_closeAll {c : CellId} : ∀ {tasks : List Task} {h : Heap} {v : Value},
    h.cells[c]? = some (.closed v) →
      ∃ u, (tasks.foldl (fun h t => (t.openUpvalues.closeAll h t.stack).2) h).cells[c]? =
        some (.closed u)
  | [], _, v, hc => ⟨v, hc⟩
  | t :: _, h, _, hc => by
    obtain ⟨u, hu⟩ : ∃ u, (t.openUpvalues.closeAll h t.stack).2.cells[c]? = some (.closed u) :=
      OpenUpvalues.closed_closeCells hc
    exact closed_closeAll (h := (t.openUpvalues.closeAll h t.stack).2) hu

/-- Giving up all tasks touches neither channels nor the stages of tasks. -/
theorem shutdown_heap (m : Machine) :
    m.shutdown.heap = { m.heap with cells := m.shutdown.heap.cells } :=
  closeAll_frame _ m.heap

theorem crew_shutdown (m : Machine) : m.shutdown.crew = m.crew.disband := by
  have hheap := crew_heap { m with vm := m.shutdown.vm } (h := m.shutdown.heap) (by
    rw [shutdown_heap])
  refine hheap.trans (Crew.ext ?_ rfl rfl rfl rfl rfl rfl rfl)
  funext id
  show ((({} : Std.ExtTreeMap TaskId Task)[id]?).map Task.badge) = none
  simp

theorem shutdown_resettles (m : Machine) : m.Resettles m.shutdown where
  hosts := rfl
  heap := by rw [shutdown_heap]
  vm := rfl
  nextId := rfl
  ids := by rw [shutdown_heap]
  closed _ _ := closed_closeAll

theorem dispatch_resettles (m : Machine) : m.Resettles m.dispatch.machine := by
  unfold dispatch Scheduler.takeNext
  cases Scheduler.firstHeld m.vm.scheduler.tasks m.vm.scheduler.queue with
  | none =>
    have hskip : m.Resettles { m with vm.scheduler.queue := [] } :=
      ⟨rfl, rfl, rfl, rfl, rfl, fun _ v hc => ⟨v, hc⟩⟩
    exact hskip.trans (shutdown_resettles _)
  | some r => exact .handOver m _ _ (by rfl) _ _

end Machine

/-! ## The end of a turn -/

/-- The stage at which a task is at its end, and how the run ends if the program does, too. -/
inductive TurnEnd.Finishes : TurnEnd → TaskStatus → Outcome → Prop where
  | completed (result : Value) : Finishes (.completed result) .completed (.complete result)
  | failed (failure : Failure) : Finishes (.failed failure) .failed (.failed failure)

theorem TurnEnd.Finishes.isFinished {o : TurnEnd} {st : TaskStatus} {outcome : Outcome}
    (h : o.Finishes st outcome) : st.isFinished = true := by
  cases h <;> rfl

namespace Turn

variable {s : Turn} {o : TurnEnd} {m : Machine} {outcome : Option Outcome}

/-- The machine when the task that had the turn is held again. -/
def keep (s : Turn) (st : TaskStatus) (queue : List TaskId) : Machine :=
  { Machine.ofTurn s with
    running := none
    heap := s.heap.setStatus s.task.handle st
    vm := { s.vm with scheduler := { s.vm.scheduler.put s.task with queue } } }

/-- The machine when the task that had the turn has come to its end. -/
def retire (s : Turn) (st : TaskStatus) : Machine :=
  { Machine.ofTurn s with running := none, heap := (s.task.terminate s.heap st).2 }

/-- The program is over with the task. It is the main task, or nobody survives its error. -/
def IsLast (s : Turn) (o : TurnEnd) : Prop :=
  s.vm.main = some s.task.id ∨ ∃ failure, o = .failed failure ∧ failure.error.isFatal = true

theorem isLast_completed {result : Value} :
    s.IsLast (.completed result) ↔ s.vm.main = some s.task.id := by
  simp [IsLast]

theorem isLast_failed {failure : Failure} : s.IsLast (.failed failure) ↔
    (decide (s.vm.main = some s.task.id) || failure.error.isFatal) = true := by
  simp [IsLast]

/-- The machine after a turn that has ended, and how the run has ended, if it has. -/
inductive Over (s : Turn) : TurnEnd → Machine → Option Outcome → Prop where
  | yields : s.Over .yielded (s.keep .runnable (s.vm.scheduler.queue ++ [s.task.id])) none
  | blocks : s.Over .blocked (s.keep .blocked s.vm.scheduler.queue) none
  | retires {o : TurnEnd} {st : TaskStatus} {outcome : Outcome} (hf : o.Finishes st outcome)
      (hgoes : ¬ s.IsLast o) : s.Over o (s.retire st) none
  /-- All other tasks are given up. -/
  | concludes {o : TurnEnd} {st : TaskStatus} {outcome : Outcome} (hf : o.Finishes st outcome)
      (hlast : s.IsLast o) : s.Over o (s.retire st).shutdown (some outcome)
  | endless : s.Over .endless { Machine.ofTurn s with running := none } (some .endless)

/-- **There is nothing else that a turn can end with.** -/
theorem over_endTurn (s : Turn) (o : TurnEnd) :
    s.Over o (Machine.endTurn { Machine.ofTurn s with running := none } s.task o).1
      (Machine.endTurn { Machine.ofTurn s with running := none } s.task o).2 := by
  unfold Machine.endTurn
  cases o with
  | yielded => exact .yields
  | blocked => exact .blocks
  | endless => exact .endless
  | completed result =>
    dsimp only
    split
    · rename_i hmain
      exact .concludes (.completed result) (isLast_completed.mpr hmain)
    · rename_i hmain
      exact .retires (.completed result) (mt isLast_completed.mp hmain)
  | failed failure =>
    dsimp only
    split
    · rename_i hlast
      exact .concludes (.failed failure) (isLast_failed.mpr hlast)
    · rename_i hgoes
      exact .retires (.failed failure) (mt isLast_failed.mp hgoes)

theorem keep_crew (s : Turn) (queue : List TaskId) :
    (s.keep .runnable queue).crew = s.crew.requeue s.task.badge queue := by
  have hold := Machine.crew_hold { Machine.ofTurn s with running := none } s.task .runnable queue
  exact hold

theorem retire_crew (s : Turn) (st : TaskStatus) :
    (s.retire st).crew = s.crew.retire s.task.badge st := by
  have hheap : (s.task.openUpvalues.closeAll s.heap s.task.stack).2.handles = s.heap.handles := by
    rw [OpenUpvalues.closeAll_frame]
  let m : Machine := { Machine.ofTurn s with running := none }
  have hclose := Machine.crew_heap m hheap
  have hmark := Machine.crew_setStatus
    { m with heap := (s.task.openUpvalues.closeAll s.heap s.task.stack).2 } s.task.handle st
  rw [hclose] at hmark
  exact hmark

theorem keep_resettles (s : Turn) (st : TaskStatus) (queue : List TaskId) :
    (Machine.ofTurn s).Resettles (s.keep st queue) :=
  .handOver (Machine.ofTurn s) s.task.handle st (by rfl) _ _

theorem retire_resettles (s : Turn) (st : TaskStatus) :
    (Machine.ofTurn s).Resettles (s.retire st) :=
  .terminate (Machine.ofTurn s) s.task st none

theorem Over.resettles (h : s.Over o m outcome) : (Machine.ofTurn s).Resettles m := by
  cases h with
  | yields | blocks => exact s.keep_resettles _ _
  | retires => exact s.retire_resettles _
  | concludes => exact (s.retire_resettles _).trans (Machine.shutdown_resettles _)
  | endless => exact ⟨rfl, rfl, rfl, rfl, rfl, fun _ v hc => ⟨v, hc⟩⟩

/-- Nobody has the turn. -/
theorem Over.idle (h : s.Over o m outcome) : m.running = none := by
  cases h <;> rfl

/-- Only a task that fails makes the run fail. -/
theorem Over.failed (h : s.Over o m outcome) {failure : Failure}
    (hfail : outcome = some (.failed failure)) : o = .failed failure := by
  cases h with
  | yields | blocks | retires | endless => cases hfail
  | concludes hf =>
    cases hfail
    cases hf
    rfl

/-- Only a turn that does not end makes the run one that does not. -/
theorem Over.endless_iff (h : s.Over o m outcome) : outcome = some .endless ↔ o = .endless := by
  cases h with
  | yields | blocks => exact ⟨nofun, nofun⟩
  | retires hf | concludes hf => cases hf <;> exact ⟨nofun, nofun⟩
  | endless => exact ⟨fun _ => rfl, fun _ => rfl⟩

/-- A run is not paused by a turn. -/
theorem Over.not_paused (h : s.Over o m outcome) (task : TaskId) (ip : Nat) :
    outcome ≠ some (.paused task ip) := by
  cases h with
  | yields | blocks | retires | endless => exact nofun
  | concludes hf => cases hf <;> exact nofun

/-- As long as the run goes on the program stays loaded. -/
theorem Over.main (h : s.Over o m outcome) (hgoes : outcome = none) :
    m.vm.main = s.vm.main := by
  cases h with
  | yields | blocks | retires => rfl
  | concludes | endless => cases hgoes

end Turn

namespace Machine

variable {m : Machine}

theorem ofTurn_turn {task : Task} (hr : m.running = some task) : ofTurn (m.turn task) = m := by
  obtain ⟨hosts, heap, vm, running⟩ := m
  cases hr
  rfl

/-- A task whose turn is taken back is the first in the queue. -/
theorem pause_keep {task : Task} (hr : m.running = some task) :
    m.pause.1 = (m.turn task).keep .runnable (task.id :: m.vm.scheduler.queue) := by
  rw [pause, hr]
  rfl

theorem pause_resettles (m : Machine) : m.Resettles m.pause.1 := by
  cases hr : m.running with
  | none =>
    rw [pause, hr]
    exact .refl m
  | some task =>
    have hkeep := (m.turn task).keep_resettles .runnable (task.id :: m.vm.scheduler.queue)
    rwa [ofTurn_turn hr, ← pause_keep hr] at hkeep

end Machine

end TaskVm
