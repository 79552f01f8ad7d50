import TaskVm.Proofs.Crew

/-!
# Scheduling, as the crew sees it

What each operation of the scheduler does to the crew of a machine. From here on nothing
looks into the tables of tasks and handles.
-/

namespace TaskVm

open Exec Relation

/-! ## Tables -/

theorem Heap.status_setStatus (h : Heap) (id : HandleId) (st : TaskStatus) (k : HandleId) :
    ((h.setStatus id st).handle k).status =
      if k = id ∧ k < h.handles.size then st else (h.handle k).status := by
  simp only [Heap.setStatus, Heap.handle, Array.getD_eq_getD_getElem?, Array.getElem?_modify]
  by_cases hk : k < h.handles.size
  · rw [Array.getElem?_eq_getElem hk]
    by_cases hid : id = k
    · simp [hid, hk]
    · simp [hid, Ne.symm hid]
  · simp [hk]

@[simp] theorem Heap.handles_setStatus (h : Heap) (id : HandleId) (st : TaskStatus) :
    (h.setStatus id st).handles.size = h.handles.size := by
  simp [Heap.setStatus]

/-- A new handle begins like one that is not there yet. -/
theorem Heap.status_newHandle (h : Heap) (id : TaskId) (name : String) (k : HandleId) :
    ((h.newHandle { id, name }).2.handle k).status = (h.handle k).status := by
  simp only [Heap.newHandle, Heap.handle, Array.getD_eq_getD_getElem?, Array.getElem?_push]
  split
  · rename_i hk
    rw [hk, Array.getElem?_eq_none (Nat.le_refl _)]
    rfl
  · rfl

theorem getElem?_insert_ite {α : Type} (table : Std.ExtTreeMap TaskId α) (k id : TaskId) (a : α) :
    (table.insert k a)[id]? = if id = k then some a else table[id]? := by
  rw [Std.ExtTreeMap.getElem?_insert]
  by_cases h : k = id
  · simp [h]
  · simp [h, Ne.symm h]

theorem Scheduler.get?_put_eq (s : Scheduler) (t : Task) (id : TaskId) :
    (s.put t).get? id = if id = t.id then some t else s.get? id :=
  getElem?_insert_ite s.tasks t.id id t

theorem Scheduler.get?_erase (s : Scheduler) (id k : TaskId) :
    (s.tasks.erase id)[k]? = if k = id then none else s.get? k := by
  simp only [Scheduler.get?, Std.ExtTreeMap.getElem?_erase]
  by_cases h : id = k
  · simp [h]
  · simp [h, Ne.symm h]

namespace Machine

/-! ## Operations -/

variable (m : Machine)

theorem crew_setStatus (id : HandleId) (st : TaskStatus) :
    { m with heap := m.heap.setStatus id st }.crew = m.crew.mark id st := by
  refine Crew.ext rfl rfl rfl rfl rfl rfl (Heap.handles_setStatus _ _ _) ?_
  funext k
  exact Heap.status_setStatus m.heap id st k

theorem crew_put (t : Task) :
    { m with vm := { m.vm with scheduler := m.vm.scheduler.put t } }.crew =
      m.crew.keep t.badge := by
  refine Crew.ext ?_ rfl rfl rfl rfl rfl rfl rfl
  funext id
  show ((m.vm.scheduler.put t).get? id).map Task.badge = _
  rw [Scheduler.get?_put_eq]
  unfold Crew.keep
  dsimp only
  split
  · rw [if_pos (by assumption)]
    rfl
  · rw [if_neg (by assumption)]
    rfl

theorem isLive_eq (w : Waiter) : m.vm.scheduler.isLive m.heap w = m.crew.live w := by
  unfold Scheduler.isLive Crew.live Machine.crew
  dsimp only
  cases m.vm.scheduler.get? w.task <;> rfl

/-- A task that is held again, at a new stage. -/
theorem crew_hold (t : Task) (st : TaskStatus) (queue : List TaskId) :
    { m with
      heap := m.heap.setStatus t.handle st
      vm := { m.vm with scheduler := { m.vm.scheduler.put t with queue } } }.crew =
      { (m.crew.keep t.badge).mark t.handle st with queue } := by
  have hp := congrArg Crew.held (crew_put m t)
  have hs := congrArg Crew.status (crew_setStatus m t.handle st)
  refine Crew.ext hp rfl rfl rfl rfl rfl (Heap.handles_setStatus _ _ _) hs

/-- The answer of a wake-up is whether the waiter was live. -/
theorem wake_live (w : Waiter) (r : Resume) :
    (m.vm.scheduler.wake m.heap w r).1 = m.crew.live w := by
  rw [← isLive_eq]
  unfold Scheduler.wake
  split
  · rename_i t hl ht
    exact hl.symm
  · rename_i hno
    cases hl : m.vm.scheduler.isLive m.heap w with
    | false => rfl
    | true =>
      cases ht : m.vm.scheduler.get? w.task with
      | none =>
        rw [Scheduler.isLive, ht] at hl
        cases hl
      | some t => exact (hno t hl ht).elim

theorem crew_wake (w : Waiter) (r : Resume) :
    { m with
      heap := (m.vm.scheduler.wake m.heap w r).2.2
      vm := { m.vm with scheduler := (m.vm.scheduler.wake m.heap w r).2.1 } }.crew =
      m.crew.wake w r := by
  have hheld : m.crew.held w.task = (m.vm.scheduler.get? w.task).map Task.badge := rfl
  have hlive := isLive_eq m w
  unfold Crew.wake Scheduler.wake
  rw [hheld, ← hlive]
  cases ht : m.vm.scheduler.get? w.task with
  | none => cases m.vm.scheduler.isLive m.heap w <;> rfl
  | some t =>
    cases hl : m.vm.scheduler.isLive m.heap w with
    | false => rfl
    | true => exact crew_hold m { t with resume := some r, waitEpoch := t.waitEpoch + 1 } _ _

/-- Waking touches handles only. -/
theorem wake_frame (s : Scheduler) (h : Heap) (w : Waiter) (r : Resume) :
    (s.wake h w r).2.2 = { h with handles := (s.wake h w r).2.2.handles } := by
  unfold Scheduler.wake
  split <;> rfl

end Machine

namespace Turn

/-! ## Within a turn -/

/-- Only the running task's own things have changed, and what is not the crew's. -/
theorem crew_eq {s s' : Turn} (hs : s'.vm.scheduler = s.vm.scheduler)
    (hm : s'.vm.main = s.vm.main) (hr : s'.vm.handles = s.vm.handles)
    (hh : s'.heap.handles = s.heap.handles) (ht : s'.task.badge = s.task.badge) :
    s'.crew = s.crew := by
  refine Crew.ext ?_ ?_ ?_ ?_ hm ?_ ?_ ?_
  · show (fun id => (s'.vm.scheduler.get? id).map Task.badge) = _
    rw [hs]
    rfl
  · show some s'.task.badge = some s.task.badge
    rw [ht]
  · show s'.vm.scheduler.queue = s.vm.scheduler.queue
    rw [hs]
  · show s'.vm.scheduler.nextId = s.vm.scheduler.nextId
    rw [hs]
  · show (fun id : TaskId => s'.vm.handles[id]?) = fun id => s.vm.handles[id]?
    rw [hr]
  · show s'.heap.handles.size = s.heap.handles.size
    rw [hh]
  · show (fun k => (s'.heap.handles.getD k default).status) = _
    rw [hh]
    rfl

end Turn

/-- Another task's stack is nothing to the crew. -/
theorem Turn.crew_setSlotOf {s : Turn} (hk : ∀ id b, s.crew.held id = some b → b.id = id)
    (task : TaskId) (slot : Nat) (v : Value) : (setSlotOf task slot v s).crew = s.crew := by
  unfold setSlotOf
  dsimp only
  split
  · exact Turn.crew_eq rfl rfl rfl rfl rfl
  · split
    · rename_i t ht
      have hheld : s.crew.held task = some t.badge := by
        show (s.vm.scheduler.get? task).map Task.badge = _
        rw [ht]
        rfl
      refine (Machine.crew_put (Machine.ofTurn s) _).trans (Crew.ext ?_ rfl rfl rfl rfl rfl rfl rfl)
      funext id
      have hid := hk _ _ hheld
      show (if id = t.id then some t.badge else s.crew.held id) = s.crew.held id
      split
      · rename_i he
        rw [he, ← hheld]
        exact congrArg s.crew.held hid.symm
      · rfl
    · rfl

/-- A task that begins is taken on. -/
theorem Turn.crew_start {s : Turn} {child : Task} (hc : child.Newborn) (name : String)
    (hid : child.id = s.vm.scheduler.nextId) (hh : child.handle = s.heap.handles.size)
    {h : Heap} (he : (s.heap.newHandle { id := child.id, name }).2.Extends h) :
    (endState (start child) { s with
      heap := h
      vm := { s.vm with scheduler := s.vm.scheduler.takeId.2 } }).crew = s.crew.enlist := by
  have hbadge : child.badge = ⟨s.crew.nextId, s.crew.handles, 0, none⟩ := by
    rw [Task.badge, hid, hh, hc.resume, hc.waitEpoch]
    rfl
  have hsize : h.handles.size = s.heap.handles.size + 1 := by
    rw [he.handles]
    exact Array.size_push ..
  have hold := Machine.crew_hold (Machine.ofTurn { s with
      heap := h
      vm := { s.vm with scheduler := s.vm.scheduler.takeId.2 } }) child .runnable
      (s.crew.queue ++ [child.id])
  refine Crew.ext ?_ rfl ?_ rfl rfl ?_ ?_ ?_
  · refine (congrArg Crew.held hold).trans ?_
    rw [hbadge]
    rfl
  · show s.crew.queue ++ [child.id] = _
    rw [hid]
    rfl
  · funext id
    show (s.vm.handles.insert child.id child.handle)[id]? = _
    rw [getElem?_insert_ite, hid, hh]
    rfl
  · refine (congrArg Crew.handles hold).trans ?_
    exact hsize
  · refine (congrArg Crew.status hold).trans ?_
    funext k
    show (if k = child.handle ∧ k < h.handles.size then .runnable else (h.handle k).status) =
      if k = s.heap.handles.size ∧ k < s.heap.handles.size + 1 then .runnable
      else (s.heap.handle k).status
    rw [hh, hsize, ← Heap.status_newHandle s.heap child.id name k]
    simp only [Heap.handle, he.handles]

/-- What a change does to the crew. -/
theorem ChangeIn.crew {s s' : Turn} (hk : ∀ id b, s.crew.held id = some b → b.id = id)
    (h : Change s s') :
    s'.crew = s.crew ∨ s'.crew = s.crew.reserve ∨ s'.crew = s.crew.enlist := by
  cases h with
  | heap hh => exact .inl (Turn.crew_eq rfl rfl rfl hh.handles rfl)
  | vm hv => exact .inl (Turn.crew_eq hv.alike.scheduler hv.alike.main hv.alike.handles rfl rfl)
  | @writeCell cell hc v =>
    refine .inl ?_
    cases hcell : s.heap.cell cell with
    | closed w =>
      rw [writeCell_closed hcell]
      exact Turn.crew_eq rfl rfl rfl rfl rfl
    | onStack task slot =>
      rw [writeCell_onStack hcell]
      exact Turn.crew_setSlotOf (s := { s with acts := s.acts ++ [.cellSet cell v]
                                               touched := s.touched ++ [.slot task slot] })
        hk task slot v
  | @capture f fs hf slot =>
    refine .inl (Turn.crew_eq rfl rfl rfl ?_ rfl)
    rw [endState_ok (captureSlot_apply s (f.stackBase + slot)), OpenUpvalues.capture_frame]
  | @leave f callers hf =>
    refine .inl (Turn.crew_eq rfl rfl rfl ?_ rfl)
    rw [dropFrame_heap]
  | reserve name =>
    refine .inr (.inl (Crew.ext rfl rfl rfl rfl rfl rfl ?_ ?_))
    · exact Array.size_push ..
    · funext k
      exact Heap.status_newHandle s.heap _ name k
  | spawn hc name hid hh he => exact .inr (.inr (Turn.crew_start hc name hid hh he.toExtends))
  | _ => exact .inl (Turn.crew_eq rfl rfl rfl rfl rfl)

end TaskVm
