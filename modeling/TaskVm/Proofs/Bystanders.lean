import TaskVm.Proofs.Handlers

/-!
# Tasks that do not have the turn

A task waits for its turn as it left off, but for two things that others may do to it: they
complete its wait, and they change slots of its stack that have been captured. Such slots are
on record. So what is true of a task, and does not depend on those slots, is a matter of what
the task does in its own turns.
-/

namespace TaskVm

open Exec Relation

/-- A task as others leave it, who may have changed some slots of its stack. -/
structure Task.Rests (written : Nat → Prop) (t t' : Task) : Prop extends Task.SameCalls t t' where
  id : t'.id = t.id
  iterations : t'.iterations = t.iterations
  size : t'.stack.size = t.stack.size
  slots : ∀ slot, ¬ written slot → t'.stack[slot]? = t.stack[slot]?

namespace Task.Rests

variable {written written' : Nat → Prop} {t t' t'' : Task}

theorem refl (written : Nat → Prop) (t : Task) : t.Rests written t :=
  ⟨.refl t, rfl, rfl, rfl, fun _ _ => rfl⟩

theorem trans (h : t.Rests written t') (h' : t'.Rests written t'') : t.Rests written t'' where
  frames := h'.frames.trans h.frames
  handlers := h'.handlers.trans h.handlers
  activations := h'.activations.trans h.activations
  registrations := h'.registrations.trans h.registrations
  id := h'.id.trans h.id
  iterations := h'.iterations.trans h.iterations
  size := h'.size.trans h.size
  slots slot hw := (h'.slots slot hw).trans (h.slots slot hw)

theorem mono (hw : ∀ slot, written slot → written' slot) (h : t.Rests written t') :
    t.Rests written' t' :=
  { h with slots := fun slot hslot => h.slots slot fun hslot' => hslot (hw slot hslot') }

end Task.Rests

/-! ## What is on record -/

/-- What is on record stays there. -/
theorem DeedIn.records {K : Heap → Heap → Prop} {s s' : Turn} (h : DeedIn K s s') :
    s.acts <+: s'.acts ∧ s.touched <+: s'.touched := by
  have hsame : s.acts <+: s.acts ∧ s.touched <+: s.touched :=
    ⟨List.prefix_refl _, List.prefix_refl _⟩
  cases h with
  | change h =>
    cases h with
    | drop | moveOn | moveOff | catchInto | enter =>
      exact ⟨List.prefix_refl _, List.prefix_append _ _⟩
    | readLocal | writeLocal | readCell | leave =>
      exact ⟨List.prefix_append _ _, List.prefix_refl _⟩
    | @capture f fs hf slot =>
      rw [endState_ok (captureSlot_apply s (f.stackBase + slot))]
      exact ⟨List.prefix_append _ _, List.prefix_refl _⟩
    | @writeCell cell hc v =>
      cases hcell : s.heap.cell cell with
      | closed w =>
        rw [writeCell_closed hcell]
        exact ⟨List.prefix_append _ _, List.prefix_refl _⟩
      | onStack task slot =>
        rw [writeCell_onStack hcell, setSlotOf]
        dsimp only
        split
        · exact ⟨List.prefix_append _ _, List.prefix_append _ _⟩
        · split <;> exact ⟨List.prefix_append _ _, List.prefix_append _ _⟩
    | _ => exact hsame
  | wake w r =>
    refine ⟨?_, List.prefix_refl _⟩
    rw [s.wake_acts w r]
    split
    · exact List.prefix_append _ _
    · exact List.prefix_refl _
  -- Unwinding records the frames that are left and touches nothing else.
  | unwind hh v =>
    obtain ⟨acts, events, cells, frames, openUpvalues, iterations, stack, hs⟩ :=
      Turn.unwind_frame hh v
    rw [hs]
    exact ⟨List.prefix_append _ _, List.prefix_refl _⟩
  | traffic | resume => exact ⟨List.prefix_append _ _, List.prefix_refl _⟩
  | channel => exact hsame

theorem records_of_deeds {K : Heap → Heap → Prop} {s s' : Turn} (h : DeedsIn K s s') :
    s.acts <+: s'.acts ∧ s.touched <+: s'.touched := by
  induction h with
  | refl => exact ⟨List.prefix_refl _, List.prefix_refl _⟩
  | tail _ hd ih => exact ⟨ih.1.trans hd.records.1, ih.2.trans hd.records.2⟩

/-! ## What a turn does to others -/

/-- Who is held rests, or is new. -/
structure Turn.Attends (s s' : Turn) : Prop where
  id : s'.task.id = s.task.id
  nextId : s.vm.scheduler.nextId ≤ s'.vm.scheduler.nextId
  held : ∀ k t', s'.vm.scheduler.get? k = some t' → s.vm.scheduler.nextId ≤ t'.id ∨
    ∃ k t, s.vm.scheduler.get? k = some t ∧
      t.Rests (fun slot => .slot t.id slot ∈ s'.touched) t'

/-- Nothing has happened to others. -/
theorem Turn.Attends.of_eq {s s' : Turn} (hid : s'.task.id = s.task.id)
    (hs : s'.vm.scheduler.tasks = s.vm.scheduler.tasks)
    (hn : s.vm.scheduler.nextId ≤ s'.vm.scheduler.nextId) : s.Attends s' where
  id := hid
  nextId := hn
  held k t' ht := .inr ⟨k, t', by rwa [Scheduler.get?, hs] at ht, .refl _ _⟩

theorem ChangeIn.attends {K : Heap → Heap → Prop} {s s' : Turn} (h : ChangeIn K s s')
    (ht : s.crew.Tended) : s.Attends s' := by
  cases h with
  | vm hv =>
    have hsched := hv.alike.scheduler
    exact .of_eq rfl (congrArg Scheduler.tasks hsched)
      (Nat.le_of_eq (congrArg Scheduler.nextId hsched).symm)
  | @writeCell cell hc v =>
    cases hcell : s.heap.cell cell with
    | closed w =>
      rw [writeCell_closed hcell]
      exact .of_eq rfl rfl (Nat.le_refl _)
    | onStack task slot =>
      rw [writeCell_onStack hcell, setSlotOf]
      dsimp only
      split
      · exact .of_eq rfl rfl (Nat.le_refl _)
      · split
        · rename_i t hget
          have hid : t.id = task := Machine.held_task (m := Machine.ofTurn s) ht hget
          refine ⟨rfl, Nat.le_refl _, fun k t' ht' => ?_⟩
          have hput := (s.vm.scheduler.get?_put_eq
            { t with stack := t.stack.setIfInBounds slot v } k).symm.trans ht'
          split at hput
          · -- The slot that is changed is the one on record.
            rw [← Option.some.inj hput]
            refine .inr ⟨task, t, hget, ⟨rfl, rfl, rfl, rfl⟩, rfl, rfl, ?_, fun j hj => ?_⟩
            · exact Array.size_setIfInBounds
            · refine Array.getElem?_setIfInBounds_ne fun heq => hj ?_
              rw [← heq, hid]
              exact List.mem_append_right _ List.mem_cons_self
          · exact .inr ⟨k, t', hput, .refl _ _⟩
        · exact .of_eq rfl rfl (Nat.le_refl _)
  | @capture f fs hf slot =>
    rw [endState_ok (captureSlot_apply s (f.stackBase + slot))]
    exact .of_eq rfl rfl (Nat.le_refl _)
  | reserve => exact .of_eq rfl rfl (Nat.le_succ _)
  -- A new task has the next number, which nobody has who is there already.
  | @spawn child hc name hid hh h he =>
    refine ⟨rfl, Nat.le_succ _, fun k t' ht' => ?_⟩
    have hput := (s.vm.scheduler.takeId.2.get?_put_eq child k).symm.trans ht'
    split at hput
    · exact .inl (Option.some.inj hput ▸ Nat.le_of_eq hid.symm)
    · exact .inr ⟨k, t', hput, .refl _ _⟩
  | _ => exact .of_eq rfl rfl (Nat.le_refl _)

theorem DeedIn.attends {K : Heap → Heap → Prop} {s s' : Turn} (h : DeedIn K s s')
    (ht : s.crew.Tended) : s.Attends s' := by
  cases h with
  | change h => exact h.attends ht
  | wake w r =>
    refine ⟨rfl, ?_, fun k t' ht' => ?_⟩
    · rw [endState_ok (wake_apply s w r)]
      unfold Scheduler.wake
      split <;> exact Nat.le_refl _
    · obtain ⟨k, t, ht, resume, waitEpoch, rfl⟩ := Scheduler.get?_wake ht'
      exact .inr ⟨k, t, ht, ⟨rfl, rfl, rfl, rfl⟩, rfl, rfl, rfl, fun _ _ => rfl⟩
  | unwind hh v =>
    obtain ⟨acts, events, cells, frames, openUpvalues, iterations, stack, hs⟩ :=
      Turn.unwind_frame hh v
    rw [hs]
    exact .of_eq rfl rfl (Nat.le_refl _)
  | _ => exact .of_eq rfl rfl (Nat.le_refl _)

theorem attends_of_deeds {s s' : Turn} (h : Deeds s s') (ht : s.crew.Tended) : s.Attends s' := by
  induction h with
  | refl => exact .of_eq rfl rfl (Nat.le_refl _)
  | @tail s₁ s₂ hds hd ih =>
    have hlast := hd.attends (tended_of_deeds hds ht)
    refine ⟨hlast.id.trans ih.id, Nat.le_trans ih.nextId hlast.nextId, fun k t' ht' => ?_⟩
    rcases hlast.held k t' ht' with hnew | ⟨k, t, hget, hrests⟩
    · exact .inl (Nat.le_trans ih.nextId hnew)
    · rcases ih.held k t hget with hnew | ⟨k, t₀, hget, hrests₀⟩
      · exact .inl (hrests.id ▸ hnew)
      · refine .inr ⟨k, t₀, hget, (hrests₀.mono fun slot hslot => ?_).trans ?_⟩
        · exact hd.records.2.subset hslot
        · exact hrests₀.id ▸ hrests

/-- No task that is held has the number of the one that has the turn. -/
theorem Turn.held_ne {s : Turn} (ht : s.crew.Tended) {k : TaskId} {t : Task}
    (hk : s.vm.scheduler.get? k = some t) : t.id ≠ s.task.id := by
  intro hid
  have haway := ht.away s.task.badge rfl
  have hheld : s.crew.held k = some t.badge := by
    show Option.map Task.badge (s.vm.scheduler.get? k) = _
    rw [hk]
    rfl
  rw [show s.task.badge.id = k from
    hid.symm.trans (Machine.held_task (m := Machine.ofTurn s) ht hk), hheld] at haway
  cases haway

/-! ## What one tick after the other preserves -/

namespace Machine

variable {ok : Machine → Prop} {m m' : Machine}

/-- What the next tick reaches into. -/
def touches (m : Machine) : List Touch :=
  match m.running with
  | some task => (m.turn task).advance.2.touched
  | none => []

theorem touches_eq {task : Task} (hr : m.running = some task) :
    m.touches = (m.turn task).advance.2.touched := by
  rw [touches, hr]

/-- A task that has been there has a number that has been given out. -/
theorem HasTask.numbered {t : Task} (ht : m.HasTask t) (h : m.crew.Tended) :
    t.id < m.vm.scheduler.nextId := by
  rcases ht with hr | ⟨k, hk⟩
  · have hrunning : m.crew.running = some t.badge := by rw [crew, hr]; rfl
    exact (h.listed _ _ (h.runs _ hrunning)).1
  · have hid := held_task h hk
    have hheld : m.crew.held k = some t.badge := by rw [held_eq, hk]; rfl
    exact hid ▸ (h.listed _ _ (h.known _ _ hheld)).1

theorem Fit.numbered (h : m.Fit) {t : Task} (ht : m.HasTask t) : t.id < m.vm.scheduler.nextId :=
  ht.numbered h.tended

/-- Something is true of the task of a number, if there is one. -/
structure Keeps (id : TaskId) (P : Task → Prop) (m : Machine) : Prop where
  given : id < m.vm.scheduler.nextId
  holds : ∀ t, m.HasTask t → t.id = id → P t

variable {id : TaskId} {P : Task → Prop}

theorem Keeps.of_tasks (h : m.Keeps id P) (hn : m.vm.scheduler.nextId ≤ m'.vm.scheduler.nextId)
    (ht : ∀ t, m'.HasTask t → m.vm.scheduler.nextId ≤ t.id ∨ m.HasTask t) : m'.Keeps id P where
  given := Nat.lt_of_lt_of_le h.given hn
  holds t htask hid := by
    rcases ht t htask with hnew | hold
    · exact absurd (hid ▸ hnew) (Nat.not_le_of_lt h.given)
    · exact h.holds t hold hid

/-- After a tick the running task is put where it belongs. -/
theorem Keeps.of_advance {task : Task} (hr : m.running = some task)
    (h : (ofTurn (m.turn task).advance.2).Keeps id P) : m.tick.machine.Keeps id P := by
  refine tick_induct (fun hnone => absurd (hr.symm.trans hnone) nofun) ?_ ?_
  · exact fun task' hr' => Option.some.inj (hr.symm.trans hr') ▸ h
  · exact fun _ _ _ _ _ hover hs => hs.of_tasks (Nat.le_of_eq hover.resettles.nextId.symm)
      fun t ht => .inr (hover.hasTask ht)

/-- What is true of the running task at the end of a tick. -/
theorem Keeps.after {task : Task} (hm : m.Fit) (hr : m.running = some task)
    (hP : P (m.turn task).advance.2.task) : m.tick.machine.Keeps task.id P := by
  have hdeeds : Deeds (m.turn task) (m.turn task).advance.2 := Turn.deeds_advance hm.tame
  have htended := tended_of_deeds hdeeds (hm.turn hr)
  have hattends := attends_of_deeds hdeeds (hm.turn hr)
  refine .of_advance hr ⟨?_, ?_⟩
  · exact Nat.lt_of_lt_of_le (hm.numbered (.inl hr)) hattends.nextId
  · rintro t (hrun | ⟨k, hk⟩) hid
    · exact Option.some.inj hrun ▸ hP
    · exact absurd (hid.trans hattends.id.symm) (Turn.held_ne htended hk)

/-- **What a task keeps in its own turns it keeps**, if it does not depend on slots that others
change. -/
theorem Keeps.tick (hm : m.Fit) (h : m.Keeps id P)
    (hown : ∀ t, m.running = some t → t.id = id → P t → P (m.turn t).advance.2.task)
    (hrests : ∀ t t', t.id = id → t.Rests (fun slot => .slot id slot ∈ m.touches) t' → P t → P t') :
    m.tick.machine.Keeps id P := by
  cases hr : m.running with
  | none =>
    rw [tick_between hr]
    exact h.of_tasks (Nat.le_of_eq m.dispatch_resettles.nextId.symm)
      fun t ht => .inr (dispatch_hasTask hm.tended ht)
  | some task =>
    have hattends : (m.turn task).Attends (m.turn task).advance.2 :=
      attends_of_deeds (Turn.deeds_advance hm.tame) (hm.turn hr)
    refine .of_advance hr ⟨Nat.lt_of_lt_of_le h.given hattends.nextId, fun t ht hid => ?_⟩
    -- Whoever it is has had the turn, or has only looked on.
    rcases ht with hrun | ⟨k, hk⟩
    · rw [← Option.some.inj hrun] at hid ⊢
      have htask : task.id = id := hattends.id.symm.trans hid
      exact hown task hr htask (h.holds task (.inl hr) htask)
    · rcases hattends.held k t hk with hnew | ⟨k, t₀, hget, hslots⟩
      · exact absurd (hid ▸ hnew) (Nat.not_le_of_lt h.given)
      · have hid₀ : t₀.id = id := hslots.id.symm.trans hid
        refine hrests t₀ t hid₀ ?_ (h.holds t₀ (.inr ⟨k, hget⟩) hid₀)
        rw [touches_eq hr]
        exact hid₀ ▸ hslots

/-- So it does whatever else the embedder does. -/
theorem Move.keeps {acts : List Act} (hmove : Move ok m acts m') (hm : m.Fit) (h : m.Keeps id P)
    (hown : ok m → ∀ t, m.running = some t → t.id = id → P t → P (m.turn t).advance.2.task)
    (hrests : ok m → ∀ t t', t.id = id → t.Rests (fun slot => .slot id slot ∈ m.touches) t' →
      P t → P t') : m'.Keeps id P := by
  cases hmove with
  | tick hok hend => exact h.tick hm (hown hok) (hrests hok)
  | pause =>
    exact h.of_tasks (Nat.le_of_eq m.pause_resettles.nextId.symm)
      fun t ht => .inr (pause_hasTask ht)
  | load hr chunk =>
    refine h.of_tasks (Nat.le_succ _) fun t ht => ?_
    rcases ht with hrun | ⟨k, hk⟩
    · exact absurd (hr.symm.trans hrun) (by simp)
    · have hget : (({} : Std.ExtTreeMap TaskId Task).insert m.vm.scheduler.nextId _)[k]? =
        some t := hk
      rw [getElem?_insert_ite] at hget
      split at hget
      · exact .inl (Nat.le_of_eq (Option.some.inj hget ▸ rfl))
      · rw [Std.ExtTreeMap.getElem?_empty] at hget
        cases hget
  | prepare hh he hv hr =>
    refine h.of_tasks (Nat.le_of_eq (congrArg Scheduler.nextId hv.scheduler).symm) fun t ht => ?_
    unfold HasTask at ht ⊢
    rw [hr, hv.scheduler] at ht
    exact .inr ht

end Machine

end TaskVm
