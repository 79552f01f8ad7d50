import TaskVm.Proofs.Trades
import TaskVm.Proofs.Variables

/-!
# Open cells

A cell that points at a stack points at the stack of the task that captured the variable, and as
long as it does the task is there and has the cell among those it will close. Nothing is asked of
the code for this: what a cell points at never changes, and who leaves a frame or ends closes all
cells on the way.
-/

namespace TaskVm

open Exec Relation

namespace OpenUpvalues

variable {stack : Array Value} {c : CellId} {t : TaskId} {slot : Nat}

/-- A cell that still points at a stack has not been closed. -/
theorem onStack_of_closeCells : ∀ {cells : List (Nat × CellId)} {h : Heap},
    (closeCells h stack cells).cells[c]? = some (.onStack t slot) →
    h.cells[c]? = some (.onStack t slot) ∧ ∀ n, (n, c) ∉ cells
  | [], h, hc => ⟨hc, by simp⟩
  | d :: cells, h, hc => by
    obtain ⟨hset, hnot⟩ := onStack_of_closeCells (h := h.setCell d.2 _) hc
    replace hset : (h.cells.setIfInBounds d.2 _)[c]? = some (.onStack t slot) := hset
    rw [Array.getElem?_setIfInBounds] at hset
    split at hset
    · split at hset <;> cases hset
    · rename_i hne
      refine ⟨hset, fun n hn => ?_⟩
      rcases List.mem_cons.mp hn with rfl | hn
      · exact hne rfl
      · exact hnot n hn

theorem onStack_of_closeFrom {u : OpenUpvalues} {h : Heap} {n : Nat}
    (hc : (u.closeFrom h n stack).2.cells[c]? = some (.onStack t slot)) :
    h.cells[c]? = some (.onStack t slot) ∧
      ((slot, c) ∈ u.cells → (slot, c) ∈ (u.closeFrom h n stack).1.cells) := by
  obtain ⟨hold, hnot⟩ := onStack_of_closeCells hc
  refine ⟨hold, fun hmem => ?_⟩
  rw [← List.takeWhile_append_dropWhile (p := fun d : Nat × CellId => d.1 < n) (l := u.cells)] at hmem
  rcases List.mem_append.mp hmem with hmem | hmem
  · exact hmem
  · exact absurd hmem (hnot slot)

end OpenUpvalues

namespace Store

variable {w w' w'' : Store} {acts acts' : List Act}

/-- A task has a cell among those it will close, for a slot of its stack. -/
def Backs (w : Store) (c : CellId) (t : TaskId) (slot : Nat) : Prop :=
  ∃ s, w.tasks t = some s ∧ (slot, c) ∈ s.cells

/-- Cells that point at stacks have done so before, with their tasks still minding them, or have
been captured since. -/
def Opens (w w' : Store) (acts : List Act) : Prop :=
  ∀ c t slot, w'.cells[c]? = some (.onStack t slot) →
    (w.cells[c]? = some (.onStack t slot) ∧ (w.Backs c t slot → w'.Backs c t slot)) ∨
    (w'.Backs c t slot ∧ ∃ x v, .captured x v c ∈ acts ∧ x.task = t)

theorem Opens.trans (h : w.Opens w' acts) (h' : w'.Opens w'' acts') :
    w.Opens w'' (acts ++ acts') := by
  intro c t slot hc
  rcases h' c t slot hc with ⟨hc', hb'⟩ | ⟨hb', x, v, hx, hxt⟩
  · rcases h c t slot hc' with ⟨hc, hb⟩ | ⟨hb, x, v, hx, hxt⟩
    · exact .inl ⟨hc, fun hold => hb' (hb hold)⟩
    · exact .inr ⟨hb' hb, x, v, List.mem_append_left _ hx, hxt⟩
  · exact .inr ⟨hb', x, v, List.mem_append_right _ hx, hxt⟩

theorem Opens.weaken (h : w.Opens w' acts) (acts' : List Act) : w.Opens w' (acts ++ acts') := by
  intro c t slot hc
  rcases h c t slot hc with hold | ⟨hb, x, v, hx, hxt⟩
  · exact .inl hold
  · exact .inr ⟨hb, x, v, List.mem_append_left _ hx, hxt⟩

/-- No cell has been touched. -/
theorem Opens.of_cells (hc : w'.cells = w.cells)
    (hb : ∀ c t slot, w.Backs c t slot → w'.Backs c t slot) (acts : List Act) :
    w.Opens w' acts := by
  intro c t slot hopen
  rw [hc] at hopen
  exact .inl ⟨hopen, hb c t slot⟩

theorem Opens.refl (w : Store) (acts : List Act) : w.Opens w acts :=
  .of_cells rfl (fun _ _ _ hb => hb) acts

end Store

namespace Turn

variable {s s' : Turn}

/-- What another state of the running task has to do with cells. -/
theorem backs_task (hid : s'.task.id = s.task.id)
    (htasks : s'.vm.scheduler.tasks = s.vm.scheduler.tasks) {c : CellId} {t : TaskId} {slot : Nat}
    (hself : t = s.task.id → (slot, c) ∈ s.task.openUpvalues.cells →
      (slot, c) ∈ s'.task.openUpvalues.cells)
    (hb : s.store.Backs c t slot) : s'.store.Backs c t slot := by
  obtain ⟨st, hst, hmem⟩ := hb
  by_cases ht : t = s.task.id
  · subst ht
    rw [store_self] at hst
    cases hst
    exact ⟨s'.task.storage, hid ▸ s'.store_self, hself rfl hmem⟩
  · rw [store_other ht] at hst
    refine ⟨st, ?_, hmem⟩
    rw [store_other (hid ▸ ht), Scheduler.get?, htasks]
    exact hst

theorem opens_same (hid : s'.task.id = s.task.id)
    (htasks : s'.vm.scheduler.tasks = s.vm.scheduler.tasks)
    (hcells : s'.heap.cells = s.heap.cells)
    (hopen : s'.task.openUpvalues = s.task.openUpvalues) (acts : List Act) :
    s.store.Opens s'.store acts :=
  .of_cells hcells (fun _ _ _ => backs_task hid htasks fun _ hmem => hopen ▸ hmem) acts

/-- Leaving frames. -/
theorem opens_close (hid : s'.task.id = s.task.id)
    (htasks : s'.vm.scheduler.tasks = s.vm.scheduler.tasks) {n : Nat}
    (hcells : s'.heap.cells =
      (s.task.openUpvalues.closeFrom s.heap n s.task.stack).2.cells)
    (hopen : s'.task.openUpvalues = (s.task.openUpvalues.closeFrom s.heap n s.task.stack).1)
    (acts : List Act) : s.store.Opens s'.store acts := by
  intro c t slot hc
  replace hc : s'.heap.cells[c]? = some (.onStack t slot) := hc
  rw [hcells] at hc
  obtain ⟨hold, hkeep⟩ := OpenUpvalues.onStack_of_closeFrom hc
  exact .inl ⟨hold, backs_task hid htasks fun _ hmem => hopen ▸ hkeep hmem⟩

/-- Another task, that is not running, has another state. -/
theorem opens_put (child : Task)
    (hget : ∀ t, s.vm.scheduler.get? child.id = some t → t.openUpvalues = child.openUpvalues)
    (hid : s'.task.id = s.task.id) (hopen : s'.task.openUpvalues = s.task.openUpvalues)
    (hput : ∀ id, s'.vm.scheduler.get? id =
      if id = child.id then some child else s.vm.scheduler.get? id)
    (hcells : s'.heap.cells = s.heap.cells) (acts : List Act) :
    s.store.Opens s'.store acts := by
  refine .of_cells hcells (fun c t slot hb => ?_) acts
  obtain ⟨st, hst, hmem⟩ := hb
  by_cases ht : t = s.task.id
  · subst ht
    rw [store_self] at hst
    cases hst
    refine ⟨s'.task.storage, hid ▸ s'.store_self, ?_⟩
    rw [Task.storage, hopen]
    exact hmem
  · rw [store_other ht] at hst
    rw [Store.Backs, store_other (hid ▸ ht), hput]
    by_cases hchild : t = child.id
    · subst hchild
      obtain ⟨old, hold, rfl⟩ := Option.map_eq_some_iff.mp hst
      refine ⟨child.storage, by rw [if_pos rfl]; rfl, ?_⟩
      rw [Task.storage, ← hget old hold]
      exact hmem
    · exact ⟨st, by rw [if_neg hchild]; exact hst, hmem⟩

theorem task_localAt (t : Task) (slot : Nat) : (t.localAt slot).task = t.id := by
  unfold Task.localAt
  split <;> rfl

/-- A capture opens a cell, unless the slot has one. -/
theorem opens_capture (slot : Nat) : s.store.Opens (endState (captureSlot slot) s).store
    [.captured (s.task.localAt slot) (s.task.stack.getD slot .nil)
      (s.task.openUpvalues.capture s.heap s.task.id slot).1] := by
  rw [endState_ok (captureSlot_apply s slot)]
  unfold OpenUpvalues.capture
  cases hcell : s.task.openUpvalues.cell? slot with
  | some c => exact opens_same rfl rfl rfl rfl _
  | none =>
    intro c t n hc
    replace hc : (s.heap.cells.push (.onStack s.task.id slot))[c]? = some (.onStack t n) := hc
    rw [Array.getElem?_push] at hc
    split at hc
    · rename_i hnew
      cases hc
      subst hnew
      refine .inr ⟨?_, _, _, List.mem_singleton_self _, task_localAt _ _⟩
      exact ⟨_, store_self _, OpenUpvalues.mem_insertSorted.mpr (.inl rfl)⟩
    · refine .inl ⟨hc, backs_task ?_ ?_ fun _ hmem => ?_⟩
      · rfl
      · rfl
      · exact OpenUpvalues.mem_insertSorted.mpr (.inr hmem)

/-- Writing to a captured variable closes no cell and opens none. -/
theorem opens_writeCell (ht : s.crew.Tended) (cell : CellId) (v : Value) (acts : List Act) :
    s.store.Opens (endState (writeCell cell v) s).store acts := by
  cases hcell : s.heap.cell cell with
  | closed u =>
    rw [writeCell_closed hcell]
    intro c t slot hc
    replace hc : (s.heap.cells.setIfInBounds cell (.closed v))[c]? = some (.onStack t slot) := hc
    rw [Array.getElem?_setIfInBounds] at hc
    split at hc
    · split at hc <;> cases hc
    · exact .inl ⟨hc, fun hb => hb⟩
  | onStack task slot =>
    rw [writeCell_onStack hcell, setSlotOf]
    dsimp only
    split
    · refine opens_same ?_ ?_ ?_ ?_ acts <;> rfl
    · rename_i hne
      cases hget : s.vm.scheduler.get? task with
      | none =>
        refine opens_same ?_ ?_ ?_ ?_ acts <;> rfl
      | some t =>
        have hid : t.id = task := ht.keyed task t.badge (by
          show (s.vm.scheduler.get? task).map Task.badge = _
          rw [hget]
          rfl)
        refine opens_put { t with stack := t.stack.setIfInBounds slot v }
          (fun old hold => ?_) ?_ ?_ (fun id => Scheduler.get?_put_eq s.vm.scheduler _ id) ?_ acts
        case refine_2 | refine_3 | refine_4 => rfl
        have hsame : s.vm.scheduler.get? t.id = some old := hold
        rw [hid, hget] at hsame
        cases hsame
        rfl

/-- A task that begins has captured nothing. -/
theorem opens_start {child : Task} (hs : s.crew.Tended) (hid : child.id = s.vm.scheduler.nextId)
    {h : Heap} (hcells : h.cells = s.heap.cells) (acts : List Act) :
    s.store.Opens (endState (Exec.start child) { s with
      heap := h
      vm := { s.vm with scheduler := s.vm.scheduler.takeId.2 } }).store acts := by
  refine opens_put child (fun old hold => ?_) ?_ ?_
    (fun id => Scheduler.get?_put_eq s.vm.scheduler child id) hcells acts
  case refine_2 | refine_3 => rfl
  have hheld : s.crew.held child.id = some old.badge := congrArg (Option.map Task.badge) hold
  have hlt := (hs.listed _ _ (hs.known _ _ hheld)).1
  exact absurd hid (Nat.ne_of_lt hlt)

theorem opens_wake (hs : s.crew.Tended) (w : Waiter) (r : Resume) (acts : List Act) :
    s.store.Opens (endState (Exec.wake w r) s).store acts := by
  rw [endState_ok (wake_apply s w r)]
  unfold Scheduler.wake
  split
  · rename_i t hlive hget
    have hid : t.id = w.task := hs.keyed w.task t.badge (congrArg (Option.map Task.badge) hget)
    refine opens_put { t with resume := some r, waitEpoch := t.waitEpoch + 1 }
      (fun old hold => ?_) ?_ ?_ (fun id => Scheduler.get?_put_eq s.vm.scheduler _ id) ?_ acts
    case refine_2 | refine_3 | refine_4 => rfl
    have hsame : s.vm.scheduler.get? t.id = some old := hold
    rw [hid, hget] at hsame
    cases hsame
    rfl
  · refine opens_same ?_ ?_ ?_ ?_ acts <;> rfl

/-- Who catches leaves what is above the handler. -/
theorem unwind_cells {hd : Handler} {rest : List Handler} (hh : s.task.handlers = hd :: rest)
    (v : Value) :
    (s.unwind v).2.heap.cells =
      (s.task.openUpvalues.closeFrom s.heap hd.stackDepth s.task.stack).2.cells ∧
    (s.unwind v).2.task.openUpvalues =
      (s.task.openUpvalues.closeFrom s.heap hd.stackDepth s.task.stack).1 := by
  unfold unwind
  rw [hh]
  dsimp only
  split <;> exact ⟨rfl, rfl⟩

/-- What goes on record and which cells are opened. -/
def Opening (s s' : Turn) : Prop := ∃ acts, s'.acts = s.acts ++ acts ∧ s.store.Opens s'.store acts

theorem Opening.trans {s'' : Turn} (h : s.Opening s') (h' : s'.Opening s'') : s.Opening s'' := by
  obtain ⟨acts, ha, ho⟩ := h
  obtain ⟨acts', ha', ho'⟩ := h'
  exact ⟨acts ++ acts', by rw [ha', ha, List.append_assoc], ho.trans ho'⟩

end Turn

/-- Only a capture opens a cell. -/
theorem ChangeIn.opening {s s' : Turn} (h : Change s s') (hs : s.crew.Tended) : s.Opening s' := by
  obtain ⟨-, acts, ha, -⟩ := h.channels
  cases h with
  | @capture f fs hf slot => exact ⟨_, rfl, s.opens_capture (f.stackBase + slot)⟩
  | @writeCell cell hc v => exact ⟨acts, ha, s.opens_writeCell hs cell v acts⟩
  | @leave f callers hf =>
    refine ⟨acts, ha, Turn.opens_close (n := f.stackBase) ?_ ?_ ?_ ?_ acts⟩ <;> rfl
  | spawn hc name hid hh he => exact ⟨acts, ha, Turn.opens_start hs hid he.cells acts⟩
  | heap hh =>
    refine ⟨acts, ha, Turn.opens_same ?_ ?_ hh.cells ?_ acts⟩ <;> rfl
  | vm hv =>
    have htasks := congrArg Scheduler.tasks hv.alike.scheduler
    refine ⟨acts, ha, Turn.opens_same ?_ htasks ?_ ?_ acts⟩ <;> rfl
  | _ =>
    refine ⟨acts, ha, Turn.opens_same ?_ ?_ ?_ ?_ acts⟩ <;> rfl

theorem DeedIn.opening {s s' : Turn} (h : Deed s s') (hs : s.crew.Tended) : s.Opening s' := by
  cases h with
  | change h => exact h.opening hs
  | channel id c =>
    refine ⟨[], (List.append_nil _).symm, Turn.opens_same ?_ ?_ ?_ ?_ []⟩ <;> rfl
  | @traffic a ha =>
    refine ⟨[a], rfl, Turn.opens_same ?_ ?_ ?_ ?_ [a]⟩ <;> rfl
  | @resume r hr =>
    refine ⟨[.resumed s.task.id r], rfl, Turn.opens_same ?_ ?_ ?_ ?_ _⟩ <;> rfl
  | wake w r =>
    obtain ⟨acts, ha⟩ : ∃ acts, (endState (Exec.wake w r) s).acts = s.acts ++ acts := by
      rw [s.wake_acts w r]
      split
      · exact ⟨_, rfl⟩
      · exact ⟨[], (List.append_nil _).symm⟩
    exact ⟨acts, ha, s.opens_wake hs w r acts⟩
  | @unwind hd rest hh v =>
    obtain ⟨left, ha⟩ := Turn.unwind_acts hh v
    obtain ⟨hcells, hopen⟩ := Turn.unwind_cells hh v
    obtain ⟨acts, events, cells, frames, openUpvalues, iterations, stack, hs'⟩ :=
      Turn.unwind_frame hh v
    refine ⟨_, ha, Turn.opens_close ?_ ?_ hcells hopen _⟩ <;> rw [hs']

theorem opening_of_deeds {s s' : Turn} (h : Deeds s s') (hs : s.crew.Tended) : s.Opening s' := by
  induction h with
  | refl => exact ⟨[], (List.append_nil _).symm, .refl _ _⟩
  | tail hds hd ih => exact ih.trans (hd.opening (tended_of_deeds hds hs))

namespace Machine

variable {ok : Machine → Prop} {m m' m₀ : Machine} {c : CellId} {t : TaskId} {slot : Nat}

/-! ## Between turns -/

/-- All cells of a task are closed when it is gone. -/
theorem onStack_of_closeAll {u : OpenUpvalues} {h : Heap} {stack : Array Value}
    (hc : (u.closeAll h stack).2.cells[c]? = some (.onStack t slot)) :
    h.cells[c]? = some (.onStack t slot) ∧ (slot, c) ∉ u.cells := by
  obtain ⟨hold, hkeep⟩ := OpenUpvalues.onStack_of_closeFrom hc
  refine ⟨hold, fun hmem => ?_⟩
  have hnone : u.cells.takeWhile (fun d => d.1 < 0) = [] := by
    cases u.cells with
    | nil => rfl
    | cons d cells => rfl
  have hin : (slot, c) ∈ u.cells.takeWhile (fun d => d.1 < 0) := hkeep hmem
  rw [hnone] at hin
  cases hin

theorem onStack_of_closeAlls : ∀ {ts : List Task} {h : Heap},
    (ts.foldl (fun h t => (t.openUpvalues.closeAll h t.stack).2) h).cells[c]? =
      some (.onStack t slot) →
    h.cells[c]? = some (.onStack t slot) ∧ ∀ x ∈ ts, (slot, c) ∉ x.openUpvalues.cells
  | [], _, hc => ⟨hc, by simp⟩
  | x :: ts, h, hc => by
    obtain ⟨hfirst, hrest⟩ := onStack_of_closeAlls (h := (x.openUpvalues.closeAll h x.stack).2) hc
    obtain ⟨hold, hnot⟩ := onStack_of_closeAll hfirst
    exact ⟨hold, by simpa [hnot] using hrest⟩

/-- What points at a stack when all tasks have been given up is none of their cells. -/
theorem shutdown_open (hr : m.running = none)
    (hc : m.shutdown.heap.cells[c]? = some (.onStack t slot)) :
    m.heap.cells[c]? = some (.onStack t slot) ∧ ¬ m.store.Backs c t slot := by
  obtain ⟨hold, hnot⟩ := onStack_of_closeAlls (h := m.heap) hc
  refine ⟨hold, ?_⟩
  rintro ⟨s, hs, hmem⟩
  rw [store_idle hr] at hs
  obtain ⟨x, hx, rfl⟩ := Option.map_eq_some_iff.mp hs
  refine hnot x ?_ hmem
  exact List.mem_map.mpr ⟨(t, x), Std.ExtTreeMap.mem_toList_iff_getElem?_eq_some.mpr hx, rfl⟩

/-- Cells that are left open had nobody to mind them. -/
theorem opens_of_open {w w' : Store} (hc : ∀ c t slot, w'.cells[c]? = some (.onStack t slot) →
    w.cells[c]? = some (.onStack t slot) ∧ ¬ w.Backs c t slot) (acts : List Act) :
    w.Opens w' acts := by
  intro c t slot hopen
  obtain ⟨hold, hnot⟩ := hc c t slot hopen
  exact .inl ⟨hold, fun hb => absurd hb hnot⟩

theorem shutdown_opens (hr : m.running = none) (acts : List Act) :
    m.store.Opens m.shutdown.store acts :=
  opens_of_open (fun _ _ _ hc => shutdown_open hr hc) acts

theorem dispatch_opens (h : m.crew.Tended) (hr : m.running = none) (acts : List Act) :
    m.store.Opens m.dispatch.machine.store acts := by
  by_cases hq : m.vm.scheduler.queue = []
  · rw [dispatch_idle hq]
    exact shutdown_opens hr acts
  · rw [dispatch_store h hr hq]
    exact .refl _ acts

end Machine

theorem Turn.Over.opens {s : Turn} {o : TurnEnd} {m : Machine} {outcome : Option Outcome}
    (hover : s.Over o m outcome) (h : s.crew.Tended) (he : o ≠ .endless) :
    s.store.Opens m.store [] := by
  have hretired : ∀ st, s.store.Opens (s.retire st).store [] := by
    intro st
    rw [Turn.retire_store h st]
    intro c t slot hc
    obtain ⟨hold, hnot⟩ := Machine.onStack_of_closeAll hc
    refine .inl ⟨hold, ?_⟩
    rintro ⟨x, hx, hmem⟩
    have ht : t ≠ s.task.id := by
      rintro rfl
      rw [Turn.store_self] at hx
      cases hx
      exact hnot hmem
    exact ⟨x, (if_neg ht).trans hx, hmem⟩
  cases hover with
  | yields | blocks => exact (s.keep_store _ _).symm ▸ .refl _ []
  | retires => exact hretired _
  | concludes => exact (hretired _).trans (Machine.shutdown_opens rfl [])
  | endless => exact absurd rfl he

namespace Machine

variable {ok : Machine → Prop} {m m' m₀ : Machine}

theorem tick_opens (h : m.Fit) (hend : m.tick.outcome ≠ some .endless) :
    m.store.Opens m.tick.machine.store m.tick.acts := by
  refine tick_induct (P := (m.store.Opens ·.store m.tick.acts))
    (fun hr => dispatch_opens h.tended hr _) ?_ ?_
  · intro task hr
    obtain ⟨acts, hacts, hopens⟩ := opening_of_deeds (Turn.deeds_advance h.tame) (h.turn hr)
    have hacts : m.tick.acts = acts := (tick_acts hr).trans hacts
    have hstore : (m.turn task).store = m.store := congrArg store (ofTurn_turn hr)
    exact hacts ▸ hstore ▸ hopens
  · intro task s o hr ha hover hopens
    have htended := tended_of_deeds (Turn.deeds_advance h.tame) (h.turn hr)
    rw [ha] at htended
    have hboth := hopens.trans (hover.opens htended (mt hover.endless_iff.mpr hend))
    rwa [List.append_nil] at hboth

/-- **Only captures open cells**, whatever happens to a machine, and an open cell stays among
those that its task will close. -/
theorem Move.opens {acts : List Act} (h : Move ok m acts m') (hm : m.Fit) :
    m.store.Opens m'.store acts := by
  cases h with
  | tick hok hend => exact (tick_opens hm hend).weaken _
  | pause => exact m.pause_store ▸ .refl _ []
  | load hr chunk => exact opens_of_open (fun _ _ _ hc => shutdown_open hr hc) _
  | prepare hh he hv hr =>
    refine .of_cells he.cells (fun c t slot hb => ?_) []
    obtain ⟨s, hs, hmem⟩ := hb
    refine ⟨s, ?_, hmem⟩
    rw [← hs]
    show (m'.task? t).map Task.storage = (m.task? t).map Task.storage
    rw [task?, task?, hr, hv.scheduler]

theorem Run.opens {hist : List Act} (h : Run ok m₀ hist m) (hm : m₀.Fit) :
    m₀.store.Opens m.store hist := by
  induction h with
  | refl => exact .refl _ []
  | tail hrun hmove ih => exact ih.trans (hmove.opens (hrun.fit hm))

end Machine

end TaskVm
