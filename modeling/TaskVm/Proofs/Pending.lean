import TaskVm.Proofs.Limits
import TaskVm.Proofs.Lineup
import TaskVm.Proofs.Reading

/-!
# Instructions that have not come to an end

Most instructions are over when the next one begins. Two kinds are not: a call that has let a new
frame go on is pending until that frame is left, and an operation on a channel that has parked its
task is pending until the task picks up what has come of it. While it is pending, nothing else is
begun in the same frame. So of all that has been begun in a frame that is not the innermost, the
last is the call that it waits for, and of all that has been begun by a parked task, the last is the
operation that it is parked on.
-/

namespace TaskVm

open Exec Relation

/-! ## What has been begun -/

namespace Begun

variable {log : List Begun} {b c : Begun} {task : TaskId} {activation : Nat}

/-- What a task has begun last. -/
def last (log : List Begun) (task : TaskId) : Option Begun :=
  (log.filter (·.task == task)).getLast?

/-- What a task has begun last in one of its activations. -/
def lastIn (log : List Begun) (task : TaskId) (activation : Nat) : Option Begun :=
  ((log.filter (·.task == task)).filter (·.frame.activation == activation)).getLast?

theorem last_append_self (log : List Begun) (b : Begun) : last (log ++ [b]) b.task = some b := by
  simp [last]

theorem last_append_other (h : b.task ≠ task) : last (log ++ [b]) task = last log task := by
  simp [last, h]

theorem lastIn_append_self (log : List Begun) (b : Begun) :
    lastIn (log ++ [b]) b.task b.frame.activation = some b := by
  simp [lastIn]

theorem lastIn_append_other (h : b.task ≠ task ∨ b.frame.activation ≠ activation) :
    lastIn (log ++ [b]) task activation = lastIn log task activation := by
  unfold lastIn
  rw [List.filter_append, List.filter_append]
  rcases h with h | h <;> simp [h]

theorem Holds.activation_eq {g : Frame} (h : b.Holds g) : g.activation = b.frame.activation := by
  cases h <;> rfl

end Begun

theorem Turn.begun?_eq_some {s : Turn} {b : Begun} (h : s.begun? = some b) :
    ∃ f fs, s.task.frames = f :: fs ∧ b = .ofFrame s.heap s.task.id f := by
  have hproceeds := s.proceeds
  rw [h] at hproceeds
  generalize s.action = a at hproceeds
  cases hproceeds with
  | begins hr hf => exact ⟨_, _, hf, rfl⟩

/-- The instruction that the next tick begins, if it begins one. -/
def Machine.begun? (m : Machine) : Option Begun :=
  m.running.bind fun task => (m.turn task).begun?

theorem Machine.begun?_idle {m : Machine} (hr : m.running = none) : m.begun? = none := by
  rw [begun?, hr, Option.bind_none]

theorem Machine.begun?_turn {m : Machine} {task : Task} (hr : m.running = some task) :
    m.begun? = (m.turn task).begun? := by
  rw [begun?, hr, Option.bind_some]

/-- What has been begun by the end of one more tick. -/
theorem Machine.begun_append (ms : List Machine) (m : Machine) :
    (ms ++ [m]).filterMap Machine.begun? = ms.filterMap Machine.begun? ++ m.begun?.toList := by
  rw [List.filterMap_append]
  cases hb : m.begun? <;> simp [hb]

/-- It is the one that a debugger is asked about. -/
theorem Machine.offer?_eq (m : Machine) : m.offer? = m.begun?.map fun b =>
    (b.task, b.frame.ip, ⟨m.vm.sourceName, b.frame.lineAt m.heap b.frame.ip,
      b.frame.functionName m.heap⟩) := by
  unfold offer? begun?
  cases m.running with
  | none => rfl
  | some task =>
    rw [Option.bind_some, Turn.begun?]
    cases hr : task.resume with
    | some r => simp [turn, hr]
    | none =>
      cases hf : task.frames with
      | nil => simp [turn, hr, hf]
      | cons f fs =>
        by_cases hlt : f.ip < (f.code m.heap).size <;> simp [turn, hr, hf, hlt, Begun.ofFrame]

/-! ## Tasks between two instructions -/

namespace Task

variable {log : List Begun} {t t' : Task} {b : Begun}

/-- Each frame behind the innermost one waits for the call that it has begun last. -/
def AwaitsCalls (log : List Begun) (t : Task) : Prop := ∀ g ∈ t.frames.tail,
  ∃ b, Begun.lastIn log t.id g.activation = some b ∧ b.op = some .call ∧ b.Holds g

/-- The innermost frame is at the operation on a channel that the task has begun last. -/
def ParkedAt (log : List Begun) (t : Task) : Prop := ∃ f fs b, t.frames = f :: fs ∧
  Begun.last log t.id = some b ∧ b.op.any Opcode.parks = true ∧ b.Holds f

theorem AwaitsCalls.congr (h : t.AwaitsCalls log) (hid : t'.id = t.id)
    (hf : t'.frames = t.frames) : t'.AwaitsCalls log := by
  unfold AwaitsCalls
  rw [hid, hf]
  exact h

theorem ParkedAt.congr (h : t.ParkedAt log) (hid : t'.id = t.id)
    (hf : t'.frames = t.frames) : t'.ParkedAt log := by
  unfold ParkedAt
  rw [hid, hf]
  exact h

/-- What is begun elsewhere does not matter. -/
theorem AwaitsCalls.append (h : t.AwaitsCalls log)
    (hb : b.task ≠ t.id ∨ ∀ g ∈ t.frames.tail, b.frame.activation ≠ g.activation) :
    t.AwaitsCalls (log ++ [b]) := by
  intro g hg
  obtain ⟨c, hlast, hrest⟩ := h g hg
  exact ⟨c, (Begun.lastIn_append_other (hb.imp_right (· g hg))).trans hlast, hrest⟩

theorem ParkedAt.append (h : t.ParkedAt log) (hb : b.task ≠ t.id) : t.ParkedAt (log ++ [b]) := by
  obtain ⟨f, fs, c, hf, hlast, hrest⟩ := h
  exact ⟨f, fs, c, hf, (Begun.last_append_other hb).trans hlast, hrest⟩

end Task

/-! ## Who is in a wait -/

namespace Crew

variable {c c' : Crew} {b : Badge} {id : TaskId} {acts : List Act}

/-- A task is parked, or has not picked up yet what its wait has come to. -/
def Waits (c : Crew) (id : TaskId) : Prop :=
  ∃ x, c.wait id = some x ∧ (x.parked = true ∨ x.resume ≠ none)

theorem Waits.of_eq (h : c'.Waits id) (hw : c'.wait = c.wait) : c.Waits id := by
  unfold Waits
  rwa [← hw]

theorem not_waits_of_idle (number : Nat) (h : c.wait id = some ⟨number, false, none⟩) :
    ¬ c.Waits id := by
  rintro ⟨x, hx, hbusy⟩
  obtain rfl := Option.some.inj (h.symm.trans hx)
  rcases hbusy with h | h
  · cases h
  · exact h rfl

theorem not_waits_of_none (h : c.wait id = none) : ¬ c.Waits id := by
  rintro ⟨x, hx, -⟩
  cases h.symm.trans hx

/-- Nobody begins to wait while another has the turn. -/
theorem Step.waits (h : Step c acts c') (hc : c.Tended) (hw : c'.Waits id) : c.Waits id := by
  cases h with
  | reserve => exact hw.of_eq rfl
  | enlist =>
    obtain ⟨x, hx, hbusy⟩ := hw
    rw [wait_enlist hc] at hx
    dsimp only at hx
    split at hx
    · obtain rfl := Option.some.inj hx
      rcases hbusy with h | h
      · cases h
      · exact absurd rfl h
    · exact ⟨x, hx, hbusy⟩
  | @wake w hlive r =>
    obtain ⟨x, hx, hbusy⟩ := hw
    rw [wait_wake hc hlive r] at hx
    dsimp only at hx
    split at hx
    · rename_i hid
      -- Who is woken has been parked, or the waiter would not be live.
      obtain ⟨y, hy, hparked, -⟩ := (live_iff hc w).mp hlive
      exact hid ▸ ⟨y, hy, .inl hparked⟩
    · exact ⟨x, hx, hbusy⟩
  | resume hr =>
    obtain ⟨x, hx, hbusy⟩ := hw
    rw [wait_resume hr] at hx
    dsimp only at hx
    split at hx
    · obtain rfl := Option.some.inj hx
      rcases hbusy with h | h
      · cases h
      · exact absurd rfl h
    · exact ⟨x, hx, hbusy⟩

theorem Steps.waits (h : Steps c acts c') (hc : c.Tended) (hw : c'.Waits id) : c.Waits id := by
  induction h with
  | refl => exact hw
  | tail h hs ih => exact ih (hs.waits (h.tended hc) hw)

theorem waits_of_retire (hc : c.Tended) (hr : c.running = some b) {st : TaskStatus}
    (hw : (c.retire b st).Waits id) : c.Waits id := by
  obtain ⟨x, hx, hbusy⟩ := hw
  rw [wait_retire hc hr] at hx
  dsimp only at hx
  split at hx
  · cases hx
  · exact ⟨x, hx, hbusy⟩

theorem waits_of_block (hc : c.Tended) (hr : c.running = some b) (hw : (c.block b).Waits id) :
    c.Waits id ∨ id = b.id := by
  obtain ⟨x, hx, hbusy⟩ := hw
  rw [wait_block hc hr] at hx
  dsimp only at hx
  split at hx
  · rename_i hid
    exact .inr hid
  · exact .inl ⟨x, hx, hbusy⟩

theorem not_waits_disband (hr : c.running = none) : ¬ c.disband.Waits id :=
  not_waits_of_none (by rw [wait_disband hr])

end Crew

/-- Only who is blocked at the end of a turn begins to wait. -/
theorem Turn.Over.waits {s : Turn} {o : TurnEnd} {m : Machine} {outcome : Option Outcome}
    {id : TaskId} (h : s.Over o m outcome) (hc : s.crew.Tended) (ho : o ≠ .endless)
    (hw : m.crew.Waits id) : s.crew.Waits id ∨ o = .blocked ∧ id = s.task.id := by
  have hrunning : s.crew.running = some s.task.badge := rfl
  cases h with
  | endless => exact absurd rfl ho
  | blocks =>
    have hblock := Crew.waits_of_block hc hrunning (s.park_crew ▸ hw)
    exact hblock.imp_right fun hid => ⟨rfl, hid⟩
  | yields =>
    rw [s.keep_crew] at hw
    exact .inl (hw.of_eq (Crew.wait_requeue hc hrunning _))
  | retires => exact .inl (Crew.waits_of_retire hc hrunning (s.retire_crew _ ▸ hw))
  | concludes =>
    -- When the program is over nobody waits any more.
    rw [Machine.crew_shutdown, s.retire_crew] at hw
    exact absurd hw (Crew.not_waits_disband rfl)

namespace Machine

variable {m : Machine} {id : TaskId}

theorem dispatch_waits (hc : m.crew.Tended) (hr : m.running = none)
    (hw : m.dispatch.machine.crew.Waits id) : m.crew.Waits id := by
  have hrunning : m.crew.running = none := by rw [crew, hr]; rfl
  cases hq : m.vm.scheduler.queue with
  | nil =>
    rw [dispatch_idle hq, show m.deadlock.machine = m.shutdown from rfl, crew_shutdown] at hw
    exact absurd hw (Crew.not_waits_disband hrunning)
  | cons k queue =>
    obtain ⟨b, hheld, hqueue, hcrew⟩ := dispatch_crew hc hq
    rw [hcrew] at hw
    exact hw.of_eq (Crew.wait_dispatch hc hrunning hheld hqueue)

theorem pause_waits (hc : m.crew.Tended) (hw : m.pause.1.crew.Waits id) : m.crew.Waits id := by
  cases hr : m.running with
  | none => rwa [pause, hr] at hw
  | some task =>
    have hrunning : m.crew.running = some task.badge := by rw [crew, hr]; rfl
    rw [pause_crew hr] at hw
    exact hw.of_eq (Crew.wait_requeue hc hrunning _)

theorem not_waits_load (hc : m.crew.Tended) (hr : m.running = none) (chunk : ChunkId) :
    ¬ (m.load chunk).2.crew.Waits id := by
  have hrunning : m.crew.running = none := by rw [crew, hr]; rfl
  have hwait : m.crew.start.wait = fun id =>
      if id = m.crew.nextId then some ⟨0, false, none⟩ else m.crew.disband.wait id :=
    Crew.wait_enlist (hc.disband hrunning)
  rw [crew_load]
  by_cases hid : id = m.crew.nextId
  · exact Crew.not_waits_of_idle 0 (by rw [hwait]; exact if_pos hid)
  · refine Crew.not_waits_of_none ?_
    rw [hwait, Crew.wait_disband hrunning]
    exact if_neg hid

end Machine

/-! ## During a turn -/

/-- What tasks wait for is what they have begun last: frames for calls, and tasks for operations on
channels. -/
structure Machine.Accounted (log : List Begun) (m : Machine) : Prop where
  calls : ∀ t, m.HasTask t → t.AwaitsCalls log
  parked : ∀ t, m.HasTask t → m.crew.Waits t.id → t.ParkedAt log

namespace Turn

variable {log : List Begun} {s s' : Turn}

/-- A task that has begun is in no call yet. -/
theorem Begins.tail_frames {c : ClosureId} {id : TaskId} {config : VmConfig} {t : Task}
    (h : Begins c id config t) : t.frames.tail = [] := by
  obtain ⟨base, hentries⟩ := h.entries
  have hlength : t.frames.length = 1 := by
    rw [← Task.entries_length, hentries]
    rfl
  exact List.length_eq_zero_iff.mp (by rw [List.length_tail, hlength])

/-- Tasks that do not have the turn are in the same calls as before, or have begun. -/
theorem advance_held (ht : ∀ f ∈ s.hosts, f.Tame) (hc : s.crew.Tended) {k : TaskId} {t : Task}
    (hk : s.advance.2.vm.scheduler.get? k = some t) :
    (∃ k t₀, s.vm.scheduler.get? k = some t₀ ∧ t.id = t₀.id ∧ t.frames = t₀.frames) ∨
      s.vm.scheduler.nextId ≤ t.id ∧ t.frames.tail = [] := by
  cases ha : s.action with
  | none =>
    rw [advance_done ha] at hk
    exact .inl ⟨k, t, hk, rfl, rfl⟩
  | some a =>
    obtain ⟨s₀, x⟩ := a
    obtain ⟨hd₀, hd⟩ := deeds_action ha ht
    rw [advance_action ha, perform_vm] at hk
    rcases (attends_of_deeds (hd₀.trans hd) hc).held k t hk with hnew | ⟨k, t₀, hget, hrests⟩
    · rcases (stirs_action ha).held (hd₀.trans hd) hc hk with
        ⟨k, t₀, written, hget, hrests⟩ | ⟨c, id, hbegins⟩
      · have hheld : (Machine.ofTurn s).HasTask t₀ := .inr ⟨k, hget⟩
        exact absurd (hrests.id ▸ hheld.numbered hc) (Nat.not_lt_of_le hnew)
      · exact .inr ⟨hnew, hbegins.tail_frames⟩
    · exact .inl ⟨k, t₀, hget, hrests.id, hrests.frames⟩

/-- What the running task does now is put down. -/
def Accounted (log : List Begun) (s : Turn) : Prop := (Machine.ofTurn s).Accounted log

/-- Frames that wait for a call have not begun anything else. -/
theorem Accounted.calls_advance (h : s.Accounted log) (hu : s.Upright) :
    s.advance.2.task.id = s.task.id →
    s.advance.2.task.AwaitsCalls (log ++ s.begun?.toList) := by
  intro hid g hg
  rw [hid]
  rcases advance_callers hg with hold | ⟨b, hbegun, hop, hholds⟩
  · obtain ⟨c, hlast, hrest⟩ := h.calls s.task (.inl rfl) g hold
    refine ⟨c, ?_, hrest⟩
    cases hbegun : s.begun? with
    | none =>
      rw [Option.toList_none, List.append_nil]
      exact hlast
    | some b =>
      obtain ⟨f, fs, hf, rfl⟩ := begun?_eq_some hbegun
      rw [Option.toList_some]
      -- What has been begun is in the innermost frame, and no other has the same number.
      refine (Begun.lastIn_append_other (.inr ?_)).trans hlast
      have hapart := hu.running.apart
      rw [hf] at hapart hold
      exact Nat.ne_of_gt ((List.pairwise_cons.mp hapart).1 g hold)
  · obtain ⟨f, fs, hf, rfl⟩ := begun?_eq_some hbegun
    refine ⟨_, ?_, hop, hholds⟩
    rw [hbegun, Option.toList_some, hholds.activation_eq]
    exact Begun.lastIn_append_self log _

/-- What the running task has begun is its own. -/
theorem begun?_other {t : Task} (ht : t.id ≠ s.task.id) : ∀ b ∈ s.begun?, b.task ≠ t.id := by
  intro b hb
  obtain ⟨f, fs, -, rfl⟩ := begun?_eq_some hb
  exact ht.symm

/-- **What the running task does is accounted for.** -/
theorem Accounted.advance (h : s.Accounted log) (hu : s.Upright) (ht : ∀ f ∈ s.hosts, f.Tame)
    (hc : s.crew.Tended) : s.advance.2.Accounted (log ++ s.begun?.toList) := by
  have hdeeds : Deeds s s.advance.2 := deeds_advance ht
  have hc' := tended_of_deeds hdeeds hc
  have hid := (attends_of_deeds hdeeds hc).id
  have hother : ∀ {k t}, s.advance.2.vm.scheduler.get? k = some t → t.id ≠ s.task.id :=
    fun hk heq => held_ne hc' hk (heq.trans hid.symm)
  have hwaits : ∀ {id}, s.advance.2.crew.Waits id → s.crew.Waits id := by
    intro id hw
    obtain ⟨acts, -, hsteps⟩ := steps_of_deeds hdeeds hc
    exact hsteps.waits hc hw
  refine ⟨fun t htask => ?_, fun t htask hw => ?_⟩
  · rcases htask with hr | ⟨k, hk⟩
    · obtain rfl : s.advance.2.task = t := Option.some.inj hr
      exact h.calls_advance hu hid
    · rcases advance_held ht hc hk with ⟨k', t₀, hget, hid₀, hf⟩ | ⟨-, hnone⟩
      · have hold := (h.calls t₀ (.inr ⟨k', hget⟩)).congr hid₀ hf
        cases hbegun : s.begun? with
        | none => simpa using hold
        | some b => exact hold.append (.inl (begun?_other (hother hk) b hbegun))
      · intro g hg
        rw [hnone] at hg
        cases hg
  · rcases htask with hr | ⟨k, hk⟩
    · obtain rfl : s.advance.2.task = t := Option.some.inj hr
      -- Who has the turn has picked up what its wait has come to, and is not parked yet.
      refine absurd hw (Crew.not_waits_of_idle s.advance.2.task.waitEpoch ?_)
      rw [← advance_resume ht]
      exact Crew.wait_running (b := s.advance.2.task.badge) rfl
    · rcases advance_held ht hc hk with ⟨k', t₀, hget, hid₀, hf⟩ | ⟨hnew, -⟩
      · have hold := (h.parked t₀ (.inr ⟨k', hget⟩) (hid₀ ▸ hwaits hw)).congr hid₀ hf
        cases hbegun : s.begun? with
        | none => simpa using hold
        | some b => exact hold.append (begun?_other (hother hk) b hbegun)
      · exact absurd (hwaits hw) (Crew.not_waits_of_none (Crew.wait_fresh hc hnew))

/-- A task that is blocked is parked at what it has begun. -/
theorem parkedAt_of_blocked (hid : s'.task.id = s.task.id) (h : s.advance = (some .blocked, s')) :
    s'.task.ParkedAt (log ++ s.begun?.toList) := by
  obtain ⟨b, g, hbegun, hparks, hframes, hholds⟩ := advance_blocked h
  obtain ⟨f, fs, -, rfl⟩ := begun?_eq_some hbegun
  refine ⟨g, _, _, hframes, ?_, hparks, hholds⟩
  rw [hbegun, Option.toList_some, hid]
  exact Begun.last_append_self log _

end Turn

/-! ## During a run -/

namespace Machine

variable {ok : Machine → Prop} {log : List Begun} {m m' m₀ : Machine}

/-- Nothing has been begun, and nobody has begun to wait. -/
theorem Accounted.quiet (h : m.Accounted log) (ht : ∀ t, m'.HasTask t → m.HasTask t)
    (hw : ∀ t, m'.HasTask t → m'.crew.Waits t.id → m.crew.Waits t.id) : m'.Accounted log :=
  ⟨fun t htask => h.calls t (ht t htask),
    fun t htask hwaits => h.parked t (ht t htask) (hw t htask hwaits)⟩

theorem Accounted.turn (h : m.Accounted log) {task : Task} (hr : m.running = some task) :
    (m.turn task).Accounted log := by
  unfold Turn.Accounted
  rwa [ofTurn_turn hr]

theorem Accounted.over {s : Turn} {o : TurnEnd} {outcome : Option Outcome} (h : s.Accounted log)
    (hover : s.Over o m outcome) (hc : s.crew.Tended) (ho : o ≠ .endless)
    (hblocked : o = .blocked → s.task.ParkedAt log) : m.Accounted log := by
  refine ⟨fun t ht => h.calls t (hover.hasTask ht), fun t ht hw => ?_⟩
  rcases hover.waits hc ho hw with hwaits | ⟨hb, hid⟩
  · exact h.parked t (hover.hasTask ht) hwaits
  · rcases hover.hasTask ht with hr | ⟨k, hk⟩
    · obtain rfl : s.task = t := Option.some.inj hr
      exact hblocked hb
    · exact absurd hid (Turn.held_ne hc hk)

/-- **What a tick does is accounted for.** -/
theorem Accounted.tick (h : m.Accounted log) (hm : m.Fit) (hu : m.Upright)
    (hend : m.tick.outcome ≠ some .endless) :
    m.tick.machine.Accounted (log ++ m.begun?.toList) := by
  refine tick_induct (P := (·.Accounted (log ++ m.begun?.toList))) ?_ ?_ ?_
  · intro hr
    rw [begun?_idle hr, Option.toList_none, List.append_nil]
    exact h.quiet (fun t => dispatch_hasTask hm.tended) fun t _ => dispatch_waits hm.tended hr
  · intro task hr
    rw [begun?_turn hr]
    exact (h.turn hr).advance (hu.turn hr) hm.tame (hm.turn hr)
  · intro task s o hr ha hover hdone
    have hdeeds : Deeds (m.turn task) (m.turn task).advance.2 := Turn.deeds_advance hm.tame
    have htended := tended_of_deeds hdeeds (hm.turn hr)
    have hid := (attends_of_deeds hdeeds (hm.turn hr)).id
    rw [ha] at htended hid
    refine Accounted.over hdone hover htended (mt hover.endless_iff.mpr hend) ?_
    rintro rfl
    rw [begun?_turn hr]
    exact Turn.parkedAt_of_blocked hid ha

theorem Accounted.load (hm : m.Fit) (hr : m.running = none) (chunk : ChunkId) :
    (m.load chunk).2.Accounted log := by
  refine ⟨fun t ht g hg => ?_, fun t _ hw => absurd hw (not_waits_load hm.tended hr chunk)⟩
  obtain ⟨handle, f, rfl, -⟩ := load_hasTask hr ht
  cases hg

/-- **Whatever happens is accounted for**, with all that ticks have begun. -/
theorem Heard.accounted {ms : List Machine} {notices : List Notice}
    (h : Heard ok m₀ ms notices m) (hm : m₀.Fit) (hu : m₀.Upright) (h₀ : m₀.Accounted []) :
    m.Accounted (ms.filterMap begun?) := by
  induction h with
  | refl => exact h₀
  | @tick ms notices m hrun hok hend ih =>
    obtain ⟨_, hrun⟩ := hrun.run
    have hdone := ih.tick (hrun.fit hm) (hrun.upright hm hu) hend
    rw [begun_append]
    exact hdone
  | load hrun hr chunk ih =>
    obtain ⟨_, hrun⟩ := hrun.run
    exact .load (hrun.fit hm) hr chunk
  | pause hrun ih =>
    obtain ⟨_, hrun⟩ := hrun.run
    exact ih.quiet (fun t => pause_hasTask) fun t _ => pause_waits (hrun.fit hm).tended
  | prepare _ hh he hv hr ih =>
    refine ih.quiet (fun t ht => ?_) fun t _ hw => ?_
    · unfold HasTask at ht ⊢
      rwa [hr, hv.scheduler] at ht
    · rwa [crew_prepare he hv hr] at hw

theorem create_accounted (hosts : Array HostFunction) (h : Heap) (id : VmId) (config : VmConfig)
    (dice : Dice) : (create hosts h id config dice).Accounted [] := by
  have hnone : ∀ t, ¬ (create hosts h id config dice).HasTask t := by
    rintro t (hr | ⟨k, hk⟩)
    · cases hr
    · have hempty : (create hosts h id config dice).vm.scheduler.get? k = none :=
        Std.ExtTreeMap.getElem?_empty
      cases hempty.symm.trans hk
  exact ⟨fun t ht => absurd ht (hnone t), fun t ht => absurd ht (hnone t)⟩

end Machine

end TaskVm
