import TaskVm.Proofs.Accesses

/-!
# Variables in whole runs

The boxes follow the history of a run, and at any time the machine holds what they hold. What
becomes of tasks between turns does not concern variables, unless a task is gone: then what
was captured from it has been closed.
-/

namespace TaskVm

open Exec Relation

namespace Machine

variable {ok : Machine → Prop} {m m' m₀ : Machine} {b : Boxes}

/-- The next tick takes no operands from where it must not, and captures nothing but locals. -/
def tidy (m : Machine) : Bool := m.running.all fun task => (m.turn task).advance.2.tidy

theorem store_idle (hr : m.running = none) (id : TaskId) :
    m.store.tasks id = (m.vm.scheduler.get? id).map Task.storage := by
  show (m.task? id).map Task.storage = _
  rw [task?, hr]

theorem task?_eq_some (h : m.crew.Tended) {id : TaskId} {t : Task} :
    m.task? id = some t ↔ m.HasTask t ∧ t.id = id := by
  unfold task? HasTask
  cases hr : m.running with
  | none =>
    constructor
    · exact fun ht => ⟨.inr ⟨id, ht⟩, held_task h ht⟩
    · rintro ⟨hnone | ⟨k, hk⟩, rfl⟩
      · cases hnone
      · rwa [held_task h hk]
  | some task =>
    have haway : m.vm.scheduler.get? task.id = none := by
      have hheld := h.away task.badge (by rw [crew, hr]; rfl)
      rw [held_eq] at hheld
      exact Option.map_eq_none_iff.mp hheld
    dsimp only
    by_cases hid : id = task.id
    · subst hid
      rw [if_pos rfl]
      constructor
      · rintro ⟨rfl⟩
        exact ⟨.inl rfl, rfl⟩
      · rintro ⟨hrun | ⟨k, hk⟩, heq⟩
        · exact hrun
        · rw [← held_task h hk, heq, haway] at hk
          cases hk
    · rw [if_neg hid]
      constructor
      · exact fun ht => ⟨.inr ⟨id, ht⟩, held_task h ht⟩
      · rintro ⟨hrun | ⟨k, hk⟩, rfl⟩
        · injection hrun with hrun
          exact absurd (congrArg Task.id hrun).symm hid
        · rwa [held_task h hk]

/-! ## Between turns -/

/-- The same tasks are there, and the same cells. -/
theorem store_tasks (h : m.crew.Tended) (h' : m'.crew.Tended)
    (htasks : ∀ t, m'.HasTask t ↔ m.HasTask t) (hcells : m'.heap.cells = m.heap.cells)
    (hclosures : m'.heap.closures = m.heap.closures)
    (hnext : m'.vm.scheduler.nextId = m.vm.scheduler.nextId) : m'.store = m.store := by
  refine Store.ext ?_ hcells hclosures hnext
  funext id
  show (m'.task? id).map Task.storage = (m.task? id).map Task.storage
  congr 1
  refine Option.ext fun t => ?_
  rw [task?_eq_some h, task?_eq_some h', htasks]

/-- When all tasks are given up, all variables are closed. -/
theorem shutdown_shares (hk : ∀ id t, m.vm.scheduler.get? id = some t → t.id = id)
    (hr : m.running = none) (hb : m.store.Shares b) : m.shutdown.store.Shares b := by
  let ts := m.vm.scheduler.tasks.toList.map (·.2)
  have hmem : ∀ t ∈ ts, m.vm.scheduler.get? t.id = some t := by
    intro t ht
    obtain ⟨⟨id, t'⟩, hmem, rfl⟩ := List.mem_map.mp ht
    have hget := Std.ExtTreeMap.mem_toList_iff_getElem?_eq_some.mp hmem
    rwa [hk id t' hget]
  have hids : ts.map (·.id) = m.vm.scheduler.tasks.keys := by
    rw [← Std.ExtTreeMap.map_fst_toList_eq_keys, List.map_map]
    refine List.map_congr_left fun p hp => ?_
    exact hk p.1 p.2 (Std.ExtTreeMap.mem_toList_iff_getElem?_eq_some.mp hp)
  have hall := @Store.Shares.retire_all b ts m.store m.heap hb rfl ?_ ?_ ?_
  · refine Eq.mpr (congrArg (Store.Shares · b) ?_) hall
    refine Store.ext ?_ rfl ?_ rfl
    · funext id
      rw [store_idle (m := m.shutdown) hr]
      exact congrArg (Option.map Task.storage) Std.ExtTreeMap.getElem?_empty
    · show m.shutdown.heap.closures = _
      rw [shutdown_heap]
      rfl
  · rw [hids]
    exact Std.ExtTreeMap.nodup_keys
  · intro t ht
    rw [store_idle hr, hmem t ht]
    rfl
  · intro k s hs
    rw [store_idle hr] at hs
    obtain ⟨t, ht, -⟩ := Option.map_eq_some_iff.mp hs
    rw [hids, Std.ExtTreeMap.mem_keys, ← Std.ExtTreeMap.isSome_getElem?_iff_mem]
    exact Option.isSome_iff_exists.mpr ⟨t, ht⟩

/-- Who gets the turn is not held any more, but still there. -/
theorem dispatch_store (h : m.crew.Tended) (hr : m.running = none)
    (hq : m.vm.scheduler.queue ≠ []) : m.dispatch.machine.store = m.store := by
  obtain ⟨id, queue, hq⟩ := List.exists_cons_of_ne_nil hq
  have htended := dispatch_tended h hr
  obtain ⟨t, ht, hid, hnext⟩ := takeNext_eq h hq
  rw [dispatch, hnext] at htended ⊢
  refine store_tasks h htended (fun t' => ⟨?_, ?_⟩) rfl rfl rfl
  · rintro (hrun | ⟨k, hk⟩)
    · exact .inr ⟨id, Option.some.inj hrun ▸ ht⟩
    · have herase := (m.vm.scheduler.get?_erase t.id k).symm.trans hk
      split at herase
      · cases herase
      · exact .inr ⟨k, herase⟩
  · rintro (hrun | ⟨k, hk⟩)
    · exact absurd (hr.symm.trans hrun) (by simp)
    · by_cases hkid : k = t.id
      · rw [hkid, hid, ht] at hk
        exact .inl hk
      · refine .inr ⟨k, (m.vm.scheduler.get?_erase t.id k).trans ?_⟩
        rw [if_neg hkid]
        exact hk

theorem dispatch_shares (h : m.crew.Tended) (hr : m.running = none) (hb : m.store.Shares b) :
    m.dispatch.machine.store.Shares b := by
  by_cases hq : m.vm.scheduler.queue = []
  · rw [dispatch_idle hq]
    exact shutdown_shares (fun _ _ => held_task h) hr hb
  · rw [dispatch_store h hr hq]
    exact hb

end Machine

namespace Turn

/-- The task whose turn is over is kept. -/
theorem keep_store (s : Turn) (st : TaskStatus) (queue : List TaskId) :
    (s.keep st queue).store = s.store := by
  refine Store.ext ?_ rfl rfl rfl
  funext id
  rw [Machine.store_idle rfl]
  show ((s.vm.scheduler.put s.task).get? id).map Task.storage = s.store.tasks id
  rw [Scheduler.get?_put_eq]
  by_cases hid : id = s.task.id
  · rw [if_pos hid, hid, s.store_self]
    rfl
  · rw [if_neg hid, Turn.store_other hid]

/-- The task that has come to its end is gone, and its variables are closed. -/
theorem retire_store {s : Turn} (h : s.crew.Tended) (st : TaskStatus) :
    (s.retire st).store = { s.store.drop s.task.id with
      cells := (s.task.openUpvalues.closeAll s.heap s.task.stack).2.cells } := by
  refine Store.ext ?_ rfl ?_ rfl
  · funext id
    rw [Machine.store_idle rfl]
    show (s.vm.scheduler.get? id).map Task.storage =
      if id = s.task.id then none else s.store.tasks id
    by_cases hid : id = s.task.id
    · have haway : s.crew.held s.task.id = none := h.away s.task.badge rfl
      have hnone : s.vm.scheduler.get? s.task.id = none := Option.map_eq_none_iff.mp haway
      rw [if_pos hid, hid, hnone]
      rfl
    · rw [if_neg hid, Turn.store_other hid]
  · show (s.retire st).heap.closures = s.heap.closures
    rw [(s.retire_resettles st).heap]
    rfl

theorem Over.shares {s : Turn} {o : TurnEnd} {m : Machine} {outcome : Option Outcome} {b : Boxes}
    (hover : s.Over o m outcome) (h : s.crew.Tended) (hb : s.store.Shares b) (he : o ≠ .endless) :
    m.store.Shares b := by
  have hretired : ∀ st, (s.retire st).store.Shares b := by
    intro st
    rw [retire_store h st]
    exact hb.retire s.store_self rfl
  cases hover with
  | yields | blocks => exact (s.keep_store _ _).symm ▸ hb
  | retires => exact hretired _
  | concludes =>
    exact Machine.shutdown_shares (fun _ _ => Machine.held_task (m := .ofTurn s) h) rfl (hretired _)
  | endless => exact absurd rfl he

end Turn

namespace Machine

variable {ok : Machine → Prop} {m m' m₀ : Machine} {b : Boxes}

theorem pause_store (m : Machine) : m.pause.1.store = m.store := by
  cases hr : m.running with
  | none => rw [pause, hr]
  | some task =>
    rw [pause_keep hr, (m.turn task).keep_store]
    exact congrArg store (ofTurn_turn hr)

/-- The main task of a new program begins when all others are gone. -/
theorem load_shares (h : m.crew.Tended) (hr : m.running = none) (chunk : ChunkId)
    (hb : m.store.Shares b) : (m.load chunk).2.store.Shares b := by
  have hshut := shutdown_shares (fun _ _ => held_task h) hr hb
  have hempty : m.shutdown.store.tasks m.vm.scheduler.nextId = none := by
    rw [store_idle (m := m.shutdown) hr]
    exact congrArg (Option.map Task.storage) Std.ExtTreeMap.getElem?_empty
  have hget : (m.load chunk).2.vm.scheduler.get? m.vm.scheduler.nextId ≠ none := by
    show (({} : Std.ExtTreeMap TaskId Task).insert m.vm.scheduler.nextId _)[_]? ≠ none
    rw [getElem?_insert_ite, if_pos rfl]
    exact Option.some_ne_none _
  obtain ⟨t, ht⟩ := Option.ne_none_iff_exists'.mp hget
  obtain ⟨hneat, hcells⟩ := Turn.neat_newborn (load_newborn ht)
  have hbound : ∀ k ∈ #[({ template := m.shutdown.heap.templates.size } : Closure)],
      ∀ u ∈ k.upvalues, u < m.shutdown.heap.cells.size := by simp
  have hbegun := (hshut.reserve.close hbound).begin (s := t.storage) hempty
    (Nat.lt_succ_self _) (fun x c hx heq => ?_) hneat hcells
  · refine Eq.mpr (congrArg (Store.Shares · b) ?_) hbegun
    refine Store.ext ?_ rfl Array.push_eq_append rfl
    funext id
    rw [store_idle (m := (m.load chunk).2) hr]
    show _ = if id = m.vm.scheduler.nextId then some t.storage else m.shutdown.store.tasks id
    by_cases hid : id = m.vm.scheduler.nextId
    · rw [if_pos hid, hid, ht]
      rfl
    · have hnone : (m.load chunk).2.vm.scheduler.get? id = none := by
        show (({} : Std.ExtTreeMap TaskId Task).insert m.vm.scheduler.nextId _)[id]? = none
        rw [getElem?_insert_ite, if_neg hid, Std.ExtTreeMap.getElem?_empty]
      rw [if_neg hid, hnone, store_idle (m := m.shutdown) hr]
      exact (congrArg (Option.map Task.storage) Std.ExtTreeMap.getElem?_empty).symm
  · exact Nat.lt_irrefl _ (heq ▸ (hshut.early x c hx).1)

/-! ## Runs -/

theorem endings_aside (m m' : Machine) : ∀ a ∈ m.endings m', a.isAside := by
  intro a ha
  obtain ⟨id, -, rfl⟩ := List.mem_map.mp ha
  rfl

/-- Acts that concern no variable may come behind. -/
theorem explains_endings {acts : List Act} (h : b.Explains acts) (m m' : Machine) :
    b.Explains (acts ++ m.endings m') ∧ b.replay (acts ++ m.endings m') = b.replay acts := by
  obtain ⟨hexplains, hreplay⟩ := (b.replay acts).explains_aside (endings_aside m m')
  exact ⟨Boxes.explains_append h hexplains, by rw [Boxes.replay_append, hreplay]⟩

theorem tick_shares (h : m.Fit) (hu : m.Upright) (htidy : m.tidy = true)
    (hend : m.tick.outcome ≠ some .endless) (hb : m.store.Shares b) :
    b.Explains m.tick.acts ∧ m.tick.machine.store.Shares (b.replay m.tick.acts) := by
  refine tick_induct
    (P := fun m' => b.Explains m.tick.acts ∧ m'.store.Shares (b.replay m.tick.acts)) ?_ ?_ ?_
  · intro hr
    rw [tick_between hr, dispatch_acts]
    exact ⟨trivial, dispatch_shares h.tended hr hb⟩
  · intro task hr
    have htidy : (m.turn task).advance.2.tidy = true := by rwa [tidy, hr] at htidy
    rw [← ofTurn_turn hr] at hb
    obtain ⟨acts, hacts, hexplains, hshares⟩ :=
      mirrors_of_deeds (Turn.deeds_advance h.tame) (h.turn hr) (hu.turn hr) htidy b hb
    have hacts : m.tick.acts = acts := (tick_acts hr).trans hacts
    exact hacts ▸ ⟨hexplains, hshares⟩
  · intro task s o hr ha hover hdone
    have htended := tended_of_deeds (Turn.deeds_advance h.tame) (h.turn hr)
    rw [ha] at htended
    exact ⟨hdone.1, hover.shares htended hdone.2 (mt hover.endless_iff.mpr hend)⟩

theorem prepare_shares (he : m.heap.Extends m'.heap) (hv : m.vm.Alike m'.vm)
    (hr : m'.running = m.running) (hb : m.store.Shares b) : m'.store.Shares b := by
  obtain ⟨fresh, hfresh, hbound⟩ := he.closures
  refine Eq.mpr (congrArg (Store.Shares · b) ?_) (hb.close hbound)
  refine Store.ext ?_ he.cells hfresh (congrArg Scheduler.nextId hv.scheduler)
  funext id
  show (m'.task? id).map Task.storage = (m.task? id).map Task.storage
  rw [task?, task?, hr, hv.scheduler]

theorem Move.shares {acts : List Act} (h : Move (tidy · = true) m acts m') (hm : m.Fit)
    (hu : m.Upright) (hb : m.store.Shares b) :
    b.Explains acts ∧ m'.store.Shares (b.replay acts) := by
  cases h with
  | tick htidy hend =>
    obtain ⟨hexplains, hshares⟩ := tick_shares hm hu htidy hend hb
    obtain ⟨hexplains', hreplay⟩ := explains_endings hexplains m.midway m.tick.machine
    exact ⟨hexplains', hreplay ▸ hshares⟩
  | pause => exact ⟨trivial, m.pause_store.symm ▸ hb⟩
  | load hr chunk =>
    obtain ⟨hexplains, hreplay⟩ := b.explains_aside (endings_aside m m.shutdown)
    exact ⟨hexplains, hreplay.symm ▸ load_shares hm.tended hr chunk hb⟩
  | prepare hh he hv hr => exact ⟨trivial, prepare_shares he hv hr hb⟩

/-- **What a run does to variables is what it does to boxes.** -/
theorem Run.shares {hist : List Act} (h : Run (tidy · = true) m₀ hist m) (hm : m₀.Fit)
    (hu : m₀.Upright) (hb : m₀.store.Shares b) :
    b.Explains hist ∧ m.store.Shares (b.replay hist) := by
  induction h with
  | refl => exact ⟨trivial, hb⟩
  | tail hrun hmove ih =>
    obtain ⟨hexplains, hshares⟩ := hmove.shares (hrun.fit hm) (hrun.upright hm hu) ih.2
    refine ⟨Boxes.explains_append ih.1 hexplains, ?_⟩
    rw [Boxes.replay_append]
    exact hshares

end Machine

/-! ## What lasts -/

/-- Cells that have been closed stay closed, and closures keep what they have captured. -/
structure Heap.Lasts (h h' : Heap) : Prop where
  closed : ∀ (c : CellId) v, h.cells[c]? = some (.closed v) →
    ∃ u, h'.cells[c]? = some (.closed u)
  closures : ∃ fresh, h'.closures = h.closures ++ fresh

namespace Heap.Lasts

variable {h h' h'' : Heap}

theorem of_eq (hcells : h'.cells = h.cells) (hclosures : h'.closures = h.closures) :
    h.Lasts h' := ⟨fun _ v hc => ⟨v, hcells ▸ hc⟩, #[], by rw [hclosures, Array.append_empty]⟩

theorem refl (h : Heap) : h.Lasts h := of_eq rfl rfl

theorem trans (hab : h.Lasts h') (hbc : h'.Lasts h'') : h.Lasts h'' where
  closed c v hc := by
    obtain ⟨u, hu⟩ := hab.closed c v hc
    exact hbc.closed c u hu
  closures := by
    obtain ⟨f, hf⟩ := hab.closures
    obtain ⟨g, hg⟩ := hbc.closures
    exact ⟨f ++ g, by rw [hg, hf, Array.append_assoc]⟩

theorem setCell (h : Heap) (c : CellId) (v : Value) : h.Lasts (h.setCell c (.closed v)) :=
  ⟨fun _ _ => closed_setCell, #[], (Array.append_empty).symm⟩

theorem closeFrom (u : OpenUpvalues) (h : Heap) (n : Nat) (stack : Array Value) :
    h.Lasts (u.closeFrom h n stack).2 :=
  ⟨fun _ _ => OpenUpvalues.closed_closeCells, #[], by rw [u.closeFrom_frame, Array.append_empty]⟩

theorem newCell (h : Heap) (c : Cell) : h.Lasts (h.newCell c).2 := by
  refine ⟨fun d u hd => ⟨u, ?_⟩, #[], (Array.append_empty).symm⟩
  have hlt := (Array.getElem?_eq_some_iff.mp hd).1
  exact (Array.getElem?_push_lt hlt).trans ((Array.getElem?_eq_getElem hlt).symm.trans hd)

end Heap.Lasts

theorem Heap.Extends.lasts {h h' : Heap} (he : h.Extends h') : h.Lasts h' where
  closed _ v hc := ⟨v, he.cells ▸ hc⟩
  closures := by
    obtain ⟨fresh, hfresh, -⟩ := he.closures
    exact ⟨fresh, hfresh⟩

theorem ChangeIn.lasts {s s' : Turn} (h : Change s s') : s.heap.Lasts s'.heap := by
  cases h with
  | heap hh => exact hh.lasts
  | @writeCell cell hc v =>
    cases hcell : s.heap.cell cell with
    | closed w =>
      rw [writeCell_closed hcell]
      exact .setCell _ _ _
    | onStack task slot =>
      rw [writeCell_onStack hcell, setSlotOf]
      dsimp only
      split
      · exact .refl _
      · split <;> exact .refl _
  | @capture f fs hf slot =>
    rw [endState_ok (captureSlot_apply s (f.stackBase + slot))]
    unfold OpenUpvalues.capture
    split
    · exact .refl _
    · exact .newCell _ _
  | @close c hc => exact ⟨fun _ v hc => ⟨v, hc⟩, #[c], Array.push_eq_append⟩
  | leave hf => exact .closeFrom _ _ _ _
  | remember | reserve => exact .of_eq rfl rfl
  | @spawn child hc name hid hh h he =>
    have hnew : s.heap.Lasts (s.heap.newHandle { id := child.id, name }).2 := .of_eq rfl rfl
    exact (hnew.trans he.lasts).trans (.of_eq rfl rfl)
  | _ => exact .refl _

theorem DeedIn.lasts {s s' : Turn} (h : Deed s s') : s.heap.Lasts s'.heap := by
  cases h with
  | change h => exact h.lasts
  | wake w r =>
    rw [endState_ok (wake_apply s w r)]
    dsimp only
    rw [Machine.wake_frame]
    exact .of_eq rfl rfl
  | @unwind hd rest hh v =>
    have hheap : (s.unwind v).2.heap =
        (s.task.openUpvalues.closeFrom s.heap hd.stackDepth s.task.stack).2 := by
      unfold Turn.unwind
      rw [hh]
      dsimp only
      split <;> rfl
    rw [hheap]
    exact .closeFrom _ _ _ _
  | _ => exact .of_eq rfl rfl

theorem lasts_of_deeds {s s' : Turn} (h : Deeds s s') : s.heap.Lasts s'.heap := by
  induction h with
  | refl => exact .refl _
  | tail _ hd ih => exact ih.trans hd.lasts

namespace Machine

variable {ok : Machine → Prop} {m m' m₀ : Machine} {b : Boxes}

theorem Resettles.lasts (h : m.Resettles m') : m.heap.Lasts m'.heap :=
  ⟨h.closed, #[], by rw [h.heap, Array.append_empty]⟩

theorem Move.lasts {acts : List Act} (h : Move ok m acts m') (hm : m.Fit) :
    m.heap.Lasts m'.heap := by
  cases h with
  | tick hok hend =>
    refine tick_induct (P := (m.heap.Lasts ·.heap)) (fun _ => m.dispatch_resettles.lasts) ?_ ?_
    · exact fun task _ => lasts_of_deeds (s := m.turn task) (Turn.deeds_advance hm.tame)
    · exact fun _ _ _ _ _ hover hlasts => hlasts.trans hover.resettles.lasts
  | pause => exact (pause_resettles _).lasts
  | load hr chunk =>
    refine m.shutdown_resettles.lasts.trans ⟨fun _ v hc => ⟨v, hc⟩, ?_⟩
    exact ⟨#[{ template := m.shutdown.heap.templates.size }], Array.push_eq_append⟩
  | prepare hh he hv hr => exact he.lasts

/-- **What has been closed never opens again.** -/
theorem Run.lasts {hist : List Act} (h : Run ok m₀ hist m) (hm : m₀.Fit) :
    m₀.heap.Lasts m.heap := by
  induction h with
  | refl => exact .refl _
  | tail hrun hmove ih => exact ih.trans (hmove.lasts (hrun.fit hm))

end Machine

/-! ## What a machine holds -/

/-- No variables are on any stack yet, and closures have captured what there is. -/
structure Heap.Settled (h : Heap) : Prop where
  closed : ∀ cell ∈ h.cells, ∃ v, cell = .closed v
  bound : ∀ k ∈ h.closures, ∀ u ∈ k.upvalues, u < h.cells.size

namespace Machine

variable {m m' : Machine} {b : Boxes} {x : Variable} {c : CellId} {v : Value}

/-- The frame of a variable is there. Its cell points at its slot, which has its value. -/
def OnStack (m : Machine) (x : Variable) (c : CellId) (v : Value) : Prop :=
  ∃ t f, m.HasTask t ∧ t.id = x.task ∧ f ∈ t.frames ∧ f.activation = x.activation ∧
    x.index < f.localCount ∧ m.heap.cell c = .onStack t.id (f.stackBase + x.index) ∧
    t.stack[f.stackBase + x.index]? = some v

/-- The frame of a variable is gone. Its cell has its value. -/
def InCell (m : Machine) (x : Variable) (c : CellId) (v : Value) : Prop :=
  (∀ t f, m.HasTask t → t.id = x.task → f ∈ t.frames → f.activation ≠ x.activation) ∧
    m.heap.cell c = .closed v

/-- The machine holds what the boxes hold. -/
structure HoldsBoxes (m : Machine) (b : Boxes) : Prop where
  boxed : ∀ x c, b.box x = some c →
    ∃ v, b.contents[c]? = some v ∧ (m.OnStack x c v ∨ m.InCell x c v)
  single : ∀ x y c, b.box x = some c → b.box y = some c → x = y
  bare : ∀ c v, (∀ x, b.box x ≠ some c) → b.contents[c]? = some v → m.heap.cell c = .closed v
  captured : ∀ k, ∀ c ∈ (m.heap.closure k).upvalues, c < b.contents.size

theorem cell_of_getElem? {h : Heap} {cell : Cell} (hc : h.cells[c]? = some cell) :
    h.cell c = cell := by
  rw [Heap.cell, Array.getD_eq_getD_getElem?, hc]
  rfl

theorem holds_of_keeps (h : m.crew.Tended) (hk : m.store.Keeps v x c) :
    m.OnStack x c v ∨ m.InCell x c v := by
  cases hk with
  | @live s slot hs hx hopen hc hv =>
    obtain ⟨t, ht, rfl⟩ := Option.map_eq_some_iff.mp hs
    obtain ⟨htask, hid⟩ := (task?_eq_some h).mp ht
    obtain ⟨p, hp, hact, hindex, rfl⟩ := hx
    obtain ⟨f, hf, rfl⟩ := List.mem_map.mp hp
    exact .inl ⟨t, f, htask, hid, hf, hact, hindex, hid ▸ cell_of_getElem? hc, hv⟩
  | gone hgone hc =>
    refine .inr ⟨fun t f htask hid hf => ?_, cell_of_getElem? hc⟩
    have ht : m.store.tasks x.task = some t.storage :=
      congrArg (Option.map Task.storage) ((task?_eq_some h).mpr ⟨htask, hid⟩)
    exact hgone _ ht f.span (List.mem_map_of_mem hf)

theorem holds_of_shares (h : m.crew.Tended) (hb : m.store.Shares b) : m.HoldsBoxes b where
  boxed x c hx := by
    obtain ⟨v, hv, hkeeps⟩ := hb.boxed x c hx
    exact ⟨v, hv, holds_of_keeps h hkeeps⟩
  single := hb.single
  bare c v hnone hv := cell_of_getElem? (hb.bare c v hv hnone)
  captured k c hc := by
    obtain ⟨closure, hmem, hc⟩ := Turn.mem_closures hc
    rw [← hb.size]
    exact hb.bound closure hmem c hc

/-- A new machine has captured nothing. -/
theorem create_shares {h : Heap} (hs : h.Settled) (hosts : Array HostFunction) (id : VmId)
    (config : VmConfig) (dice : Dice) :
    (create hosts h id config dice).store.Shares (Boxes.ofCells h.cells) := by
  have htasks : ∀ k, (create hosts h id config dice).store.tasks k = none := by
    intro k
    rw [store_idle rfl]
    exact congrArg (Option.map Task.storage) Std.ExtTreeMap.getElem?_empty
  have hheap := create_heap hosts h id config dice
  have hcells : (create hosts h id config dice).store.cells = h.cells := by
    show (create hosts h id config dice).heap.cells = _
    rw [hheap]
  have hclosures : (create hosts h id config dice).store.closures = h.closures := by
    show (create hosts h id config dice).heap.closures = _
    rw [hheap]
  constructor
  case size =>
    rw [hcells, Boxes.ofCells, Array.size_map]
  case bound =>
    rw [hcells, hclosures]
    exact hs.bound
  case bare =>
    intro c v hv _
    rw [hcells]
    unfold Boxes.ofCells at hv
    dsimp only at hv
    rw [Array.getElem?_map] at hv
    obtain ⟨cell, hcell, hv⟩ := Option.map_eq_some_iff.mp hv
    obtain ⟨u, rfl⟩ := hs.closed cell (Array.mem_of_getElem? hcell)
    rw [hcell, ← hv]
  case numbered | neat | opened =>
    intro k s hk
    rw [htasks] at hk
    cases hk
  case boxed | early | single =>
    intro x
    intros
    rename_i hx
    cases hx

/-- **Captured variables are shared boxes**, as long as code is tidy. Whatever is read is what
its box holds at the time, and at any time the machine holds what the boxes hold: a variable
whose frame is there has its value in its slot and a cell that points at it, and any other has
it in its cell. What an instruction reads is what it pushes, and what it writes is the topmost
operand. A variable has one cell, whoever captures it. A cell that has been closed stays closed,
and closures keep the cells that they have been made with. -/
theorem Run.shares_boxes {hosts : Array HostFunction} (ht : ∀ f ∈ hosts, f.Tame) {h : Heap}
    (hs : h.Settled) {id : VmId} {config : VmConfig} {dice : Dice} {hist : List Act}
    (hr : Run (tidy · = true) (create hosts h id config dice) hist m) :
    (Boxes.ofCells h.cells).Explains hist ∧
    m.HoldsBoxes ((Boxes.ofCells h.cells).replay hist) ∧
    m.Accesses ((Boxes.ofCells h.cells).replay hist) ∧
    (∀ x v c, .captured x v c ∈ hist →
      ((Boxes.ofCells h.cells).replay hist).box x = some c) ∧
    (∀ f fs captures s cells s', s.task.frames = f :: fs →
      captureCells f captures s = .ok cells s' →
      List.Forall₂ (s.Captured f s'.acts) captures cells) ∧
    ∀ hist' m', Run (fun _ => True) m hist' m' → m.heap.Lasts m'.heap := by
  have hfit := create_fit ht h id config dice
  obtain ⟨hexplains, hshares⟩ := hr.shares hfit (create_upright hosts h id config dice)
    (create_shares hs hosts id config dice)
  have htended := (hr.fit hfit).tended
  refine ⟨hexplains, holds_of_shares htended hshares, accesses_of_shares htended hshares,
    ?_, ?_, ?_⟩
  · exact fun x v c hmem => Boxes.box_captured hexplains hmem
  · exact fun f fs captures s cells s' hf hcells => (captureCells_captured hf hcells).2.2
  · exact fun hist' m' hr' => hr'.lasts (hr.fit hfit)

/-- The main task starts another one that changes one of its locals and reads it back, and reads
it then itself. -/
def lending : Heap where
  templates := #[{ name := "setter", chunk := 1 }]
  chunks := #[
    { code := assemble [(.pushNil, []), (.setLocal, [0, 0]), (.pop, []),
        (.makeClosure, [0, 0, 1, 1, 0]), (.spawn, [0]), (.pop, []), (.yield, []),
        (.getLocal, [0, 0]), (.ret, [])]
      constants := #[.function 0] },
    { code := assemble [(.pushTrue, []), (.setUpvalue, [0]), (.getUpvalue, [0]), (.ret, [])] }]

/-- The other task has written to the variable and is about to read it. What it gets is what the
box holds. Later the frame reads it from its slot, and its end closes the cell. -/
theorem lending_shares : ∃ hist m task s s' hist' m',
    Run (tidy · = true) (create #[] lending 0 {} {}) hist m ∧
    .cellSet 0 (.bool true) ∈ hist ∧ m.Executes task .getUpvalue s ∧ s.NamesCell 0 ∧
    instruction (m.turn task) = .ok .next s' ∧ s'.task.stack = task.stack.push (.bool true) ∧
    s'.acts = [.cellRead 0 (.bool true)] ∧
    Run (tidy · = true) (create #[] lending 0 {} {}) hist' m' ∧
    .localRead ⟨0, 0, 0⟩ (.bool true) ∈ hist' ∧
    ((Boxes.ofCells lending.cells).replay hist').box ⟨0, 0, 0⟩ = some 0 ∧
    m'.HoldsBoxes ((Boxes.ofCells lending.cells).replay hist') ∧
    m'.heap.cell 0 = .closed (.bool true) := by
  have hreads : ((tickFor tidy 11 ((create #[] lending 0 {} {}).load 0).2 []).any fun r =>
      decide (.cellSet 0 (.bool true) ∈ r.1 ∧
        ((Boxes.ofCells lending.cells).replay r.1).contents[0]? = some (.bool true)) &&
      r.2.opcode?.any fun x => decide (x.2.1 = .getUpvalue) && x.2.2.task.frames.head?.any fun f =>
        decide ((f.code x.2.2.heap)[f.ip]? = some 0 ∧
          (x.2.2.heap.closure f.closure).upvalues[0]? = some 0)) = true := by
    decide +kernel
  have hends : ((tickFor tidy 16 ((create #[] lending 0 {} {}).load 0).2 []).any fun r =>
      decide (.captured ⟨0, 0, 0⟩ .nil 0 ∈ r.1 ∧ .localRead ⟨0, 0, 0⟩ (.bool true) ∈ r.1 ∧
        r.2.heap.cell 0 = .closed (.bool true))) = true := by
    decide +kernel
  obtain ⟨⟨hist, m⟩, hticks, hp⟩ := (Option.any_eq_true _ _).mp hreads
  obtain ⟨hknown, hp⟩ := Bool.and_eq_true_iff.mp hp
  obtain ⟨hset, hbox⟩ := of_decide_eq_true hknown
  obtain ⟨⟨task, op, s⟩, hop, hp⟩ := (Option.any_eq_true _ _).mp hp
  obtain ⟨hget, hp⟩ := Bool.and_eq_true_iff.mp hp
  obtain rfl := of_decide_eq_true hget
  obtain ⟨f, hf, hp⟩ := (Option.any_eq_true _ _).mp hp
  obtain ⟨hbyte, hcell⟩ := of_decide_eq_true hp
  obtain ⟨fs, hfs⟩ := List.head?_eq_some_iff.mp hf
  obtain ⟨⟨hist', m'⟩, hticks', hp'⟩ := (Option.any_eq_true _ _).mp hends
  obtain ⟨hcaptured, hread, hclosed⟩ := of_decide_eq_true hp'
  have hr := run_of_tickFor (Run.refl.tail (.load rfl 0)) hticks
  have hr' := run_of_tickFor (Run.refl.tail (.load rfl 0)) hticks'
  have hsettled : lending.Settled := ⟨by simp [lending], by simp [lending]⟩
  have hexecutes := executes_of_opcode? hop
  have hnames : s.NamesCell 0 := ⟨f, fs, 0, hfs, hbyte, hcell⟩
  obtain ⟨-, -, haccesses, -⟩ := Run.shares_boxes (by simp) hsettled hr
  obtain ⟨v, s', hv, hnext, hstack, hacts⟩ := haccesses.getUpvalue hexecutes hnames
  obtain rfl : v = .bool true := Option.some.inj (hv.symm.trans hbox)
  obtain ⟨-, hholds, -, hboxes, -⟩ := Run.shares_boxes (by simp) hsettled hr'
  exact ⟨hist, m, task, s, s', hist', m', hr, hset, hexecutes, hnames, hnext, hstack, hacts, hr',
    hread, hboxes _ _ _ hcaptured, hholds, hclosed⟩

end Machine

end TaskVm
