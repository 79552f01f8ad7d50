import TaskVm.Proofs.Bystanders
import TaskVm.Proofs.OpenCells
import TaskVm.Proofs.Waiters

/-!
# Numbers that have been given out

A machine numbers its tasks one after the other, and with each number it gives out a handle. Where
it has the heap for itself, the handles on it are numbered in order, and whoever waits at a channel
is a task whose number has been given out.
-/

namespace TaskVm

open Exec Relation

namespace Heap

/-- The numbers of the tasks that handles are for. -/
def numbers (h : Heap) : Array TaskId := h.handles.map TaskHandle.id

/-- All who wait at channels have a number below this one. -/
def WaitsBelow (h : Heap) (n : TaskId) : Prop := ∀ i, ∀ w ∈ (h.channel i).waiters, w.task < n

variable {h h' : Heap}

theorem numbers_of_handles (hh : h'.handles = h.handles) : h'.numbers = h.numbers :=
  congrArg (Array.map TaskHandle.id) hh

@[simp] theorem numbers_setStatus (h : Heap) (i : HandleId) (st : TaskStatus) :
    (h.setStatus i st).numbers = h.numbers := h.ids_setStatus i st

theorem numbers_newHandle (h : Heap) (t : TaskHandle) :
    (h.newHandle t).2.numbers = h.numbers.push t.id := Array.map_push ..

theorem WaitsBelow.mono {n n' : TaskId} (hw : h.WaitsBelow n) (hn : n ≤ n') : h.WaitsBelow n' :=
  fun i w hmem => Nat.lt_of_lt_of_le (hw i w hmem) hn

theorem WaitsBelow.of_lines {n : TaskId} (hw : h.WaitsBelow n)
    (hlines : ∀ i, ∀ w ∈ (h'.channel i).waiters, w ∈ (h.channel i).waiters) : h'.WaitsBelow n :=
  fun i w hmem => hw i w (hlines i w hmem)

theorem WaitsBelow.of_channels {n : TaskId} (hw : h.WaitsBelow n)
    (hc : h'.channels = h.channels) : h'.WaitsBelow n :=
  hw.of_lines fun i w hmem => by rwa [channel, hc] at hmem

end Heap

/-! ## In a turn -/

namespace Turn

/-- Every number that has been given out has its handle, in order. -/
def Numbers (s : Turn) : Prop := s.heap.numbers = .range s.vm.scheduler.nextId

variable {s s' : Turn}

theorem Numbers.of_eq (hs : s.Numbers) (hh : s'.heap.numbers = s.heap.numbers)
    (hn : s'.vm.scheduler.nextId = s.vm.scheduler.nextId) : s'.Numbers := by
  rw [Numbers, hh, hn]
  exact hs

/-- The next number is given out, with a handle. -/
theorem Numbers.next (hs : s.Numbers)
    (hh : s'.heap.numbers = s.heap.numbers.push s.vm.scheduler.nextId)
    (hn : s'.vm.scheduler.nextId = s.vm.scheduler.nextId + 1) : s'.Numbers := by
  rw [Numbers, hh, hn, Array.range_succ, hs, Array.push_eq_append]

end Turn

theorem ChangeIn.numbers {s s' : Turn} (h : Change s s') (hs : s.Numbers) : s'.Numbers := by
  cases h with
  | heap hh => exact hs.of_eq (Heap.numbers_of_handles hh.handles) rfl
  | vm hv => exact hs.of_eq rfl (congrArg Scheduler.nextId hv.alike.scheduler)
  | @writeCell cell hc v =>
    cases hcell : s.heap.cell cell with
    | closed w =>
      rw [writeCell_closed hcell]
      exact hs
    | onStack task slot =>
      rw [writeCell_onStack hcell, setSlotOf]
      dsimp only
      split
      · exact hs
      · split <;> exact hs
  | @capture f fs hf slot =>
    rw [endState_ok (captureSlot_apply s (f.stackBase + slot)), OpenUpvalues.capture_frame]
    exact hs
  | @leave f callers hf =>
    refine hs.of_eq (Heap.numbers_of_handles ?_) rfl
    rw [dropFrame_heap]
  | reserve name => exact hs.next (Heap.numbers_newHandle _ _) rfl
  | @spawn child hc name hid hh h he =>
    refine hs.next ?_ rfl
    show (h.setStatus child.handle .runnable).numbers = _
    rw [Heap.numbers_setStatus, Heap.numbers_of_handles he.handles, Heap.numbers_newHandle, hid]
  | _ => exact hs

theorem DeedIn.numbers {s s' : Turn} (h : Deed s s') (hs : s.Numbers) : s'.Numbers := by
  cases h with
  | change h => exact h.numbers hs
  | wake w r =>
    rw [endState_ok (wake_apply s w r)]
    unfold Scheduler.wake
    split
    · exact hs.of_eq (Heap.numbers_setStatus _ _ _) rfl
    · exact hs
  | unwind hh v =>
    obtain ⟨acts, events, cells, frames, openUpvalues, iterations, stack, hs'⟩ :=
      Turn.unwind_frame hh v
    rw [hs']
    exact hs
  | _ => exact hs

theorem numbers_of_deeds {s s' : Turn} (h : Deeds s s') (hs : s.Numbers) : s'.Numbers := by
  induction h with
  | refl => exact hs
  | tail _ hd ih => exact hd.numbers ih

/-- Nobody but the running task gets into a line. -/
theorem Turn.Does.lines {s s' : Turn} {o : Option TurnEnd} (h : s.Does o s') (hs : s.crew.Tended)
    {i : ChannelId} {w : Waiter} (hw : w ∈ (s'.heap.channel i).waiters) :
    w ∈ (s.heap.channel i).waiters ∨ w.task = s.task.id := by
  have hlined : ∀ {s₁ s₂ : Turn} {op : Operation}, s.Trades s₁ → s₁.LinesUp op s₂ →
      w ∈ (s₂.heap.channel i).waiters → w ∈ (s.heap.channel i).waiters ∨ w.task = s.task.id := by
    intro s₁ s₂ op h hl hw
    have ht := h hs
    rcases hl.lines i w hw with hw | ⟨k, -, -, rfl⟩
    · exact .inl (ht.lines i w hw)
    · exact .inr ht.id
  cases h with
  | goes h => exact .inl ((h hs).lines i w hw)
  | waits h hl => exact hlined h hl hw
  | fails h hl => exact hlined h hl hw
  | strands h hl h' =>
    have ht := h' (hl.crew ▸ (h hs).tended)
    exact hlined h hl (ht.lines i w hw)

namespace Machine

/-! ## From one tick to the next -/

/-- Only numbers that have been given out occur on the heap. -/
structure Numbered (m : Machine) : Prop where
  handles : m.heap.numbers = .range m.vm.scheduler.nextId
  waiters : m.heap.WaitsBelow m.vm.scheduler.nextId

variable {ok : Machine → Prop} {m m' m₀ : Machine}

theorem Resettles.numbered (h : m.Resettles m') (hm : m.Numbered) : m'.Numbered where
  handles := (h.ids.trans hm.handles).trans (congrArg Array.range h.nextId.symm)
  waiters := h.nextId ▸ hm.waiters.of_channels h.channels

theorem tick_numbered (hm : m.Fit) (h : m.Numbered) : m.tick.machine.Numbered := by
  refine tick_induct (fun _ => m.dispatch_resettles.numbered h) ?_ ?_
  · intro task hr
    have hdeeds : Deeds (m.turn task) (m.turn task).advance.2 := Turn.deeds_advance hm.tame
    refine ⟨numbers_of_deeds hdeeds h.handles, fun i w hw => ?_⟩
    refine Nat.lt_of_lt_of_le ?_ (attends_of_deeds hdeeds (hm.turn hr)).nextId
    rcases (Turn.advance_does hm.tame).lines (hm.turn hr) hw with hw | hid
    · exact h.waiters i w hw
    · exact hid ▸ hm.numbered (.inl hr)
  · exact fun _ _ _ _ _ hover hs => hover.resettles.numbered hs

/-- **Whatever happens to a machine**, no number occurs on its heap that has not been given out. -/
theorem Move.numbered {acts : List Act} (hmove : Move ok m acts m') (hm : m.Fit)
    (h : m.Numbered) : m'.Numbered := by
  cases hmove with
  | tick => exact tick_numbered hm h
  | pause => exact (pause_resettles _).numbered h
  | load hr chunk =>
    have hdown := m.shutdown_resettles.numbered h
    constructor
    · let handle : TaskHandle := { id := m.vm.scheduler.nextId, name := "main" }
      show (((_ : Heap).newHandle handle).2.setStatus _ _).numbers = _
      rw [Heap.numbers_setStatus, Heap.numbers_newHandle]
      show m.shutdown.heap.numbers.push _ = .range (m.vm.scheduler.nextId + 1)
      rw [hdown.handles, Array.range_succ, Array.push_eq_append]
      rfl
    · exact hdown.waiters.mono (Nat.le_succ _)
  | prepare hh he hv hr =>
    obtain ⟨fresh, hfresh, hnew⟩ := he.channels
    constructor
    · rw [hv.scheduler, Heap.numbers_of_handles he.handles, h.handles]
    · rw [hv.scheduler]
      exact h.waiters.of_lines fun i w => Heap.mem_append_channels hfresh hnew

theorem Run.numbered {hist : List Act} (h : Run ok m₀ hist m) (hm : m₀.Fit) (hn : m₀.Numbered) :
    m.Numbered := by
  induction h with
  | refl => exact hn
  | tail hrun hmove ih => exact hmove.numbered (hrun.fit hm) ih

end Machine

end TaskVm
