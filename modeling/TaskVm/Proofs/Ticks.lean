import TaskVm.Proofs.Endings
import TaskVm.Proofs.Turns

/-!
# Between turns

How a task gets the turn and where it goes when the turn is over. None of it touches a
channel. What it can do to the net is to end tasks, and with a task its claims are gone.
-/

namespace TaskVm

open Relation

/-! ## Tasks that are gone -/

/-- Some of a crew are there no longer, and nobody's waits have changed. -/
structure Crew.Sheds (c c' : Crew) : Prop where
  nextId : c'.nextId = c.nextId
  wait : ∀ id, c'.wait id = none ∨ c'.wait id = c.wait id

theorem Good.shed {hosts : Array HostFunction} {c c' : Crew} {channels : Array Channel}
    (h : Good hosts c channels) (ht : c'.Tended) (hs : c.Sheds c') {ids : List TaskId}
    (hids : ∀ id, id ∈ ids ↔ c.wait id ≠ none ∧ c'.wait id = none) :
    Good hosts c' channels ∧ Net.Step (c.net channels) (ids.map .ended) (c'.net channels) := by
  have hwait : c'.wait = fun id => if id ∈ ids then none else c.wait id := by
    funext id
    split
    · rename_i hid
      exact ((hids id).mp hid).2
    · rename_i hid
      rcases hs.wait id with hnone | hsame
      · cases hx : c.wait id with
        | none => exact hnone
        | some x => exact absurd ((hids id).mpr ⟨by simp [hx], hnone⟩) hid
      · exact hsame
  -- With those who are gone their waiters go, and nobody else's.
  have hlive : c'.live = fun w => c.live w && !ids.contains w.task := by
    funext w
    rw [Crew.live_eq ht, Crew.live_eq h.tended, hwait]
    unfold Wait.live
    by_cases hw : w.task ∈ ids
    · simp [hw]
    · simp [hw]
  refine ⟨⟨h.tame, ht, fun ch hch w hw => ?_⟩, ?_⟩
  · obtain ⟨hlt, hx⟩ := h.dated ch hch w hw
    refine ⟨hs.nextId ▸ hlt, fun x hx' => ?_⟩
    rcases hs.wait w.task with hnone | hsame
    · rw [hnone] at hx'
      cases hx'
    · exact hx x (hsame ▸ hx')
  · have hnet : c'.net channels = (c.net channels).leave ids := by
      unfold Net.leave Net.prune Crew.net
      dsimp only
      rw [hwait, hlive, hs.nextId, Array.map_map]
      congr 1
      refine congrArg (fun f => channels.map f) ?_
      funext ch
      exact (Channel.prune_prune ch _ _).symm
    rw [hnet]
    exact Net.Step.leave ids

namespace Machine

variable {m m' : Machine}

/-- Who has the turn, wants one or is parked. -/
def members (m : Machine) : List TaskId :=
  (m.running.map (·.id)).toList ++ m.vm.scheduler.tasks.keys

/-- What goes on record of the tasks that one machine has and another has no longer. -/
def endings (m m' : Machine) : List Act :=
  (m.members.filter fun id => !m'.members.contains id).map .ended

theorem mem_members {id : TaskId} : id ∈ m.members ↔ m.crew.wait id ≠ none := by
  rw [Crew.wait_ne_none]
  unfold members Crew.Has crew Scheduler.get?
  dsimp only
  rw [List.mem_append, Std.ExtTreeMap.mem_keys, ← Std.ExtTreeMap.isSome_getElem?_iff_mem]
  refine or_congr ?_ ?_
  · cases m.running <;> simp [Task.badge, eq_comm]
  · rw [ne_eq, Option.map_eq_none_iff, ← ne_eq, Option.isSome_iff_ne_none]

/-- Where tasks are lost, it is enough to know who was there. -/
theorem shed_as {m₁ : Machine} (h : m.Good)
    (hsame : ∀ id, m.crew.wait id ≠ none ↔ m₁.crew.wait id ≠ none) (hh : m'.hosts = m.hosts)
    (hch : m'.heap.channels = m.heap.channels) (ht : m'.crew.Tended) (hs : m.crew.Sheds m'.crew) :
    m'.Good ∧ Net.Step m.net (m₁.endings m') m'.net := by
  unfold Machine.Good Machine.net endings
  rw [hh, hch]
  refine TaskVm.Good.shed h ht hs fun id => ?_
  rw [hsame, List.mem_filter, mem_members, Bool.not_eq_true', List.contains_eq_mem,
    decide_eq_false_iff_not, mem_members, Classical.not_not]

/-- **A machine that only loses tasks** makes one step of the net. -/
theorem shed (h : m.Good) (hh : m'.hosts = m.hosts) (hch : m'.heap.channels = m.heap.channels)
    (ht : m'.crew.Tended) (hs : m.crew.Sheds m'.crew) :
    m'.Good ∧ Net.Step m.net (m.endings m') m'.net :=
  shed_as h (fun _ => Iff.rfl) hh hch ht hs

/-! ## Giving tasks up -/

theorem shutdown_tended (h : m.crew.Tended) (hr : m.running = none) :
    m.shutdown.crew.Tended := by
  have hrunning : m.crew.running = none := by rw [crew, hr]; rfl
  rw [crew_shutdown]
  exact h.disband hrunning

theorem shutdown_good (h : m.Good) (hr : m.running = none) :
    m.shutdown.Good ∧ Net.Step m.net (m.endings m.shutdown) m.shutdown.net := by
  have hrunning : m.crew.running = none := by rw [crew, hr]; rfl
  refine shed h rfl ?_ (shutdown_tended h.tended hr) ⟨?_, fun id => .inl ?_⟩
  · rw [shutdown_heap]
  · rw [crew_shutdown]
    rfl
  · rw [crew_shutdown, Crew.wait_disband hrunning]

/-! ## The end of a turn -/

/-- What becomes of a machine at the end of a turn. -/
structure Ends (s : Turn) (m : Machine) : Prop where
  hosts : m.hosts = s.hosts
  channels : m.heap.channels = s.heap.channels
  tended : m.crew.Tended
  sheds : s.crew.Sheds m.crew

/-- When a task has come to its end, it is gone. -/
theorem retire_ends {s : Turn} (h : s.crew.Tended) {st : TaskStatus}
    (hst : st.isFinished = true) (hmain : s.vm.main ≠ some s.task.id) :
    Ends s (s.retire st) ∧ (s.retire st).crew.wait s.task.id = none := by
  have hrunning : s.crew.running = some s.task.badge := rfl
  have hwait := Crew.wait_retire h hrunning
  refine ⟨⟨rfl, (s.retire_resettles st).channels, ?_, ⟨?_, fun id => ?_⟩⟩, ?_⟩
  · rw [s.retire_crew]
    exact h.retire hrunning hmain hst
  · rw [s.retire_crew]
    rfl
  · rw [s.retire_crew, hwait]
    dsimp only
    split
    · exact .inl rfl
    · exact .inr rfl
  · rw [s.retire_crew, hwait]
    exact if_pos rfl

/-- When the program is over with it, nobody is left. -/
theorem conclude_ends {s : Turn} (h : s.crew.Tended) (st : TaskStatus) :
    Ends s (s.retire st).shutdown ∧ (s.retire st).shutdown.crew.wait s.task.id = none := by
  have hcrew : (s.retire st).shutdown.crew = (s.crew.retire s.task.badge st).disband := by
    rw [crew_shutdown, s.retire_crew]
  have hnobody := Crew.wait_disband (c := s.crew.retire s.task.badge st) rfl
  have hresettles := (s.retire_resettles st).trans (shutdown_resettles _)
  refine ⟨⟨rfl, hresettles.channels, ?_, ⟨?_, fun id => .inl ?_⟩⟩, ?_⟩
  · rw [hcrew]
    exact h.conclude _ _
  · rw [hcrew]
    rfl
  · rw [hcrew, hnobody]
  · rw [hcrew, hnobody]

end Machine

namespace Turn.Over

variable {s : Turn} {o : TurnEnd} {m : Machine} {out : Option Outcome}

/-- Who has come to its end is gone. -/
theorem finishes (h : s.Over o m out) (hs : s.crew.Tended) {st : TaskStatus} {outcome : Outcome}
    (hf : o.Finishes st outcome) : Machine.Ends s m ∧ m.crew.wait s.task.id = none := by
  cases h with
  | yields | blocks | endless => cases hf
  | retires hf' hgoes => exact Machine.retire_ends hs hf'.isFinished fun hmain => hgoes (.inl hmain)
  | concludes hf' => exact Machine.conclude_ends hs _

/-- **The end of a turn** other than by parking. -/
theorem ends (h : s.Over o m out) (hs : s.crew.Tended) (hb : o ≠ .blocked) (he : o ≠ .endless) :
    Machine.Ends s m := by
  have hrunning : s.crew.running = some s.task.badge := rfl
  cases h with
  | blocks => exact absurd rfl hb
  | endless => exact absurd rfl he
  -- Who yields is still there.
  | yields =>
    have hcrew := s.keep_crew (s.vm.scheduler.queue ++ [s.task.id])
    refine ⟨rfl, rfl, ?_, ⟨?_, fun id => .inr ?_⟩⟩
    · rw [hcrew]
      exact hs.requeue hrunning (.inl rfl)
    · rw [hcrew]
      rfl
    · rw [hcrew, Crew.wait_requeue hs hrunning]
  | retires hf hgoes =>
    exact (Machine.retire_ends hs hf.isFinished fun hmain => hgoes (.inl hmain)).1
  | concludes hf => exact (Machine.conclude_ends hs _).1

/-- A turn that ends leaves order behind, unless it never comes to its end. -/
theorem tended (h : s.Over o m out) (hs : s.crew.Tended) (hnone : s.task.resume = none)
    (he : o ≠ .endless) : m.crew.Tended := by
  by_cases hb : o = .blocked
  · subst hb
    cases h with
    | blocks => exact s.park_crew ▸ hs.block rfl hnone
    | retires hf | concludes hf => cases hf
  · exact (h.ends hs hb he).tended

end Turn.Over

namespace Machine

variable {m m' : Machine}

/-! ## The next turn -/

theorem held_eq (m : Machine) (id : TaskId) :
    m.crew.held id = (m.vm.scheduler.get? id).map Task.badge := rfl

/-- In a crew that is tended, the first in the queue is the next to have the turn. -/
theorem takeNext_eq (h : m.crew.Tended) {id : TaskId} {queue : List TaskId}
    (hq : m.vm.scheduler.queue = id :: queue) :
    ∃ t, m.vm.scheduler.get? id = some t ∧ t.id = id ∧ m.vm.scheduler.takeNext m.heap =
      (some t, { m.vm.scheduler with tasks := m.vm.scheduler.tasks.erase t.id, queue },
        m.heap.setStatus t.handle .running) := by
  cases ht : m.vm.scheduler.get? id with
  | none =>
    have hheld := h.queued id (show id ∈ m.vm.scheduler.queue by simp [hq])
    exact absurd (by rw [held_eq, ht]; rfl) hheld
  | some t =>
    have hid : t.id = id := h.keyed id t.badge (by rw [held_eq, ht]; rfl)
    refine ⟨t, rfl, hid, ?_⟩
    rw [Scheduler.get?] at ht
    rw [Scheduler.takeNext, hq, Scheduler.firstHeld, ht]

theorem crew_dispatch (m : Machine) (t : Task) (queue : List TaskId) (profiler : Profiler) :
    { m with
      heap := m.heap.setStatus t.handle .running
      vm := { m.vm with
        scheduler := { m.vm.scheduler with tasks := m.vm.scheduler.tasks.erase t.id, queue }
        profiler }
      running := some t }.crew = m.crew.dispatch t.badge queue := by
  refine Crew.ext ?_ rfl rfl rfl rfl rfl (Heap.handles_setStatus _ _ _) ?_
  · funext id
    show ((m.vm.scheduler.tasks.erase t.id)[id]?).map Task.badge = _
    rw [Scheduler.get?_erase]
    unfold Crew.dispatch
    dsimp only
    split
    · rw [if_pos (by assumption)]
      rfl
    · rw [if_neg (by assumption)]
      rfl
  · have hmark := congrArg Crew.status (crew_setStatus m t.handle .running)
    exact hmark

/-- Nobody wants the turn. -/
theorem dispatch_idle (hq : m.vm.scheduler.queue = []) : m.dispatch = m.deadlock := by
  have hnext : m.vm.scheduler.takeNext m.heap = (none, m.vm.scheduler, m.heap) := by
    rw [Scheduler.takeNext, hq, Scheduler.firstHeld]
    dsimp only
    rw [← hq]
  rw [dispatch, hnext]

/-- The first in the queue gets the turn. -/
theorem dispatch_crew (h : m.crew.Tended) {id : TaskId} {queue : List TaskId}
    (hq : m.vm.scheduler.queue = id :: queue) :
    ∃ b, m.crew.held b.id = some b ∧ m.crew.queue = b.id :: queue ∧
      m.dispatch.machine.crew = m.crew.dispatch b queue := by
  obtain ⟨t, ht, hid, hnext⟩ := takeNext_eq h hq
  have hcrew := crew_dispatch m t queue m.vm.profiler.recordTaskSwitch
  have hqueue : m.crew.queue = t.badge.id :: queue := by
    rw [show t.badge.id = id from hid]
    exact hq
  have hheld : m.crew.held t.badge.id = some t.badge := by
    rw [held_eq, show t.badge.id = id from hid, ht]
    rfl
  rw [dispatch, hnext]
  exact ⟨t.badge, hheld, hqueue, hcrew⟩

/-- No task acts between turns. -/
theorem dispatch_acts (m : Machine) : m.dispatch.acts = [] := by
  unfold dispatch deadlock
  split <;> rfl

/-- Nothing is told of between turns. -/
theorem dispatch_events (m : Machine) : m.dispatch.events = [] := by
  unfold dispatch deadlock
  split <;> rfl

theorem dispatch_tended (h : m.crew.Tended) (hr : m.running = none) :
    m.dispatch.machine.crew.Tended := by
  have hrunning : m.crew.running = none := by rw [crew, hr]; rfl
  cases hq : m.vm.scheduler.queue with
  | nil =>
    rw [dispatch_idle hq]
    exact shutdown_tended h hr
  | cons id queue =>
    obtain ⟨b, hheld, hqueue, hcrew⟩ := dispatch_crew h hq
    rw [hcrew]
    exact h.dispatch hrunning hheld hqueue

/-- **Giving out the turn** leaves the net alone, unless nobody wants it. -/
theorem dispatch_good (h : m.Good) (hr : m.running = none) :
    m.dispatch.machine.Good ∧
      Net.Step m.net (m.endings m.dispatch.machine) m.dispatch.machine.net := by
  have hrunning : m.crew.running = none := by rw [crew, hr]; rfl
  cases hq : m.vm.scheduler.queue with
  | nil =>
    have hdead : m.dispatch.machine = m.shutdown := by
      rw [dispatch_idle hq]
      rfl
    rw [hdead]
    exact shutdown_good h hr
  | cons id queue =>
    obtain ⟨b, hheld, hqueue, hcrew⟩ := dispatch_crew h.tended hq
    refine shed h m.dispatch_resettles.hosts m.dispatch_resettles.channels
      (dispatch_tended h.tended hr) ⟨?_, fun id => .inr ?_⟩
    · rw [hcrew]
      rfl
    · rw [hcrew, Crew.wait_dispatch h.tended hrunning hheld hqueue]

/-! ## Ticks -/

/-- The machine within a tick, when what its task does has been done. -/
def midway (m : Machine) : Machine :=
  match m.running with
  | some task => ofTurn (m.turn task).advance.2
  | none => m

/-- The next tick lines a task up in vain. -/
def strands (m : Machine) : Bool := m.running.any fun task => (m.turn task).strands

theorem endings_nil (h : ∀ id, m.crew.wait id ≠ none → m'.crew.wait id ≠ none) :
    m.endings m' = [] := by
  unfold endings
  rw [List.map_eq_nil_iff, List.filter_eq_nil_iff]
  intro id hid
  simp only [Bool.not_eq_true', List.contains_eq_mem, decide_eq_false_iff_not, Classical.not_not]
  exact mem_members.mpr (h id (mem_members.mp hid))

/-- A tick between turns. -/
theorem tick_between (hr : m.running = none) : m.tick = m.dispatch := by rw [tick, hr]

/-- A tick within a turn. -/
theorem tick_goes {task : Task} {s : Turn} (hr : m.running = some task)
    (h : (m.turn task).advance = (none, s)) :
    m.tick = { machine := ofTurn s, events := s.events, acts := s.acts } := by
  rw [tick, hr]
  dsimp only
  rw [h]

/-- A tick at the end of a turn. -/
theorem tick_ends {task : Task} {s : Turn} {o : TurnEnd} (hr : m.running = some task)
    (h : (m.turn task).advance = (some o, s)) :
    m.tick = {
      machine := (endTurn { ofTurn s with running := none } s.task o).1
      events := s.events
      acts := s.acts
      scene := s.heap
      outcome := (endTurn { ofTurn s with running := none } s.task o).2 } := by
  rw [tick, hr]
  dsimp only
  rw [h]

theorem tick_acts {task : Task} (hr : m.running = some task) :
    m.tick.acts = (m.turn task).advance.2.acts := by
  cases ha : (m.turn task).advance with
  | mk o s =>
    cases o with
    | none => rw [tick_goes hr ha]
    | some o => rw [tick_ends hr ha]

theorem tick_events {task : Task} (hr : m.running = some task) :
    m.tick.events = (m.turn task).advance.2.events := by
  cases ha : (m.turn task).advance with
  | mk o s =>
    cases o with
    | none => rw [tick_goes hr ha]
    | some o => rw [tick_ends hr ha]

theorem tick_over {task : Task} {s : Turn} {o : TurnEnd} (hr : m.running = some task)
    (h : (m.turn task).advance = (some o, s)) : s.Over o m.tick.machine m.tick.outcome := by
  rw [tick_ends hr h]
  exact s.over_endTurn o

/-- **After a tick** that holds which holds when the next task has been given the turn, or when the
running task has done something, and which the end of a turn leaves alone. -/
theorem tick_induct {P : Machine → Prop} (hdispatch : m.running = none → P m.dispatch.machine)
    (hadvance : ∀ task, m.running = some task → P (ofTurn (m.turn task).advance.2))
    (hover : ∀ task s o, m.running = some task → (m.turn task).advance = (some o, s) →
      s.Over o m.tick.machine m.tick.outcome → P (ofTurn s) → P m.tick.machine) :
    P m.tick.machine := by
  cases hr : m.running with
  | none =>
    rw [tick_between hr]
    exact hdispatch hr
  | some task =>
    have hdone := hadvance task hr
    cases ha : (m.turn task).advance with
    | mk o s =>
      rw [ha] at hdone
      cases o with
      | none =>
        rw [tick_goes hr ha]
        exact hdone
      | some o => exact hover task s o hr ha (tick_over hr ha) hdone

/-- A turn that ends with parking. -/
theorem parked_good {s s₁ s₂ : Turn} {op : Operation} (hs : s.Good) (hacts : s.acts = [])
    (hc : Changes s s₁) (hnone : s.task.resume = none) (hw : Waits op s₁ s₂) :
    s₂.park.Good ∧ Net.Run s.net s₂.acts s₂.park.net ∧
      ∀ id, s₂.park.crew.wait id ≠ none ↔ (ofTurn s₂).crew.wait id ≠ none := by
  obtain ⟨hgood, acts, hacts₁, hrun⟩ := follows_of_changes hc hs
  have hnone₁ : s₁.task.resume = none := by
    rw [← hnone]
    exact congrArg Badge.resume (badge_of_changes hc hs)
  refine ⟨(hw.parked hgood hnone₁).1, ?_, fun id => ?_⟩
  · rw [hw.acts, hacts₁, hacts]
    exact hrun.trans (hw.step hgood hnone₁).run
  · rw [Turn.park_crew, Crew.wait_block (hw.crew ▸ hgood.tended) rfl]
    dsimp only
    split
    · rename_i hid
      rw [hid]
      exact ⟨fun _ => by rw [Crew.wait_running rfl]; simp, fun _ => by simp⟩
    · rfl

/-- **A tick is a run of the net.** -/
theorem tick_good (h : m.Good) (hroom : m.strands = false)
    (hend : m.tick.outcome ≠ some .endless) :
    m.tick.machine.Good ∧
      Net.Run m.net (m.tick.acts ++ m.midway.endings m.tick.machine) m.tick.machine.net := by
  cases hr : m.running with
  | none =>
    obtain ⟨hgood, hstep⟩ := dispatch_good h hr
    have hmid : m.midway = m := by rw [midway, hr]
    rw [tick_between hr, hmid, dispatch_acts]
    exact ⟨hgood, hstep.run⟩
  | some task =>
    have hs : (m.turn task).Good := by
      have hgood := h
      rw [← ofTurn_turn hr] at hgood
      exact hgood
    have hnet : (m.turn task).net = m.net := congrArg Machine.net (ofTurn_turn hr)
    have hadv := Turn.advances hs (by
      rw [strands, hr] at hroom
      exact hroom)
    have hmid : m.midway = ofTurn (m.turn task).advance.2 := by rw [midway, hr]
    have hgoes := fun s (h : (m.turn task).advance = (none, s)) => tick_goes hr h
    have hends := fun o s (h : (m.turn task).advance = (some o, s)) => tick_ends hr h
    generalize hx : (m.turn task).advance = x at hadv hmid hgoes hends
    obtain ⟨o, s⟩ := x
    rw [hmid]
    -- A turn that does not park is followed all the way. One that does is a step of its own.
    cases hadv with
    | goes hf hb =>
      obtain ⟨hgood, acts, hacts, hrun⟩ := hf hs
      have hacts : s.acts = acts := hacts
      rw [hnet, ← hacts] at hrun
      cases o with
      | none =>
        rw [hgoes s rfl]
        refine ⟨hgood, ?_⟩
        show Net.Run _ (s.acts ++ (ofTurn s).endings (ofTurn s)) _
        rw [endings_nil fun _ h => h, List.append_nil]
        exact hrun
      | some o =>
        rw [hends o s rfl] at hend ⊢
        have he : o ≠ .endless := by
          rintro rfl
          exact hend rfl
        have hover := (s.over_endTurn o).ends hgood.tended (fun h => hb (congrArg some h)) he
        obtain ⟨hgood', hstep⟩ := shed (m := ofTurn s) hgood hover.hosts hover.channels
          hover.tended hover.sheds
        exact ⟨hgood', hrun.trans hstep.run⟩
    | @waits s₁ s' op hc hnone hw =>
      obtain ⟨hgood', hrun', hsame⟩ := parked_good hs rfl hc hnone hw
      rw [hnet] at hrun'
      rw [hends _ s rfl]
      refine ⟨hgood', ?_⟩
      show Net.Run _ (s.acts ++ (ofTurn s).endings s.park) _
      rw [endings_nil fun id hid => (hsame id).mpr hid, List.append_nil]
      exact hrun'
    | @fails s₁ s₂ op hc hnone hw events failure =>
      obtain ⟨hgood', hrun', hsame⟩ := parked_good hs rfl hc hnone hw
      rw [hnet] at hrun'
      -- The task is gone before anyone can have met its waiters.
      obtain ⟨hover, hgone⟩ := (s₂.over_endTurn (.failed failure)).finishes
        (hw.crew ▸ (follows_of_changes hc hs).1.tended) (.failed failure)
      have hsheds : s₂.park.crew.Sheds
          (endTurn { ofTurn s₂ with running := none } s₂.task (.failed failure)).1.crew := by
        refine ⟨hover.sheds.nextId, fun id => ?_⟩
        rw [Turn.park_crew, Crew.wait_block (hw.crew ▸ (follows_of_changes hc hs).1.tended) rfl]
        dsimp only
        split
        · rename_i hid
          exact .inl (hid ▸ hgone)
        · exact hover.sheds.wait id
      obtain ⟨hgood'', hstep⟩ := shed_as hgood' hsame hover.hosts hover.channels hover.tended hsheds
      rw [hends _ _ rfl]
      exact ⟨hgood'', hrun'.trans hstep.run⟩

end Machine

end TaskVm
