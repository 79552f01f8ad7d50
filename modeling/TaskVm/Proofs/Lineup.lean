import TaskVm.Proofs.Deeds
import TaskVm.Proofs.Rota
import Mathlib.Data.List.Induction
import Mathlib.Data.List.Nodup

/-!
# Turns and the queue

What a machine does to its crew are the few things of the rota, whatever the program. The
queue is served from the front. A task that is put back because its turn was taken from it is
the next to have one, so that with such turns left out the order in which tasks have their turns
is the order in which they queued up.
-/

namespace TaskVm

open Exec Relation

/-! ## Turns and moves -/

theorem Act.not_isWake_of_isPrivate {a : Act} (h : a.isPrivate = true) : a.isWake = false := by
  cases a <;> first | rfl | cases h

/-- **What a turn does** to the crew is steps, with the same wake-ups on record. -/
theorem DeedIn.steps {s s' : Turn} (h : Deed s s') (hs : s.crew.Tended) :
    ∃ acts, s'.acts = s.acts ++ acts ∧ Crew.Steps s.crew (acts.filter Act.isWake) s'.crew := by
  -- What touches no badge and wakes nobody takes no step.
  have hsame : ∀ {s' : Turn} (acts : List Act), s'.acts = s.acts ++ acts → s'.crew = s.crew →
      (∀ a ∈ acts, a.isWake = false) →
      ∃ acts, s'.acts = s.acts ++ acts ∧ Crew.Steps s.crew (acts.filter Act.isWake) s'.crew := by
    intro s' acts ha hc hn
    refine ⟨acts, ha, ?_⟩
    rw [hc, List.filter_eq_nil_iff.mpr fun a ha => by simp [hn a ha]]
    exact .refl
  cases h with
  | change h =>
    obtain ⟨-, acts, ha, hp⟩ := h.channels
    have hn : acts.filter Act.isWake = [] := List.filter_eq_nil_iff.mpr fun a ha => by
      simp [Act.not_isWake_of_isPrivate (hp a ha)]
    refine ⟨acts, ha, ?_⟩
    rw [hn]
    rcases ChangeIn.crew hs.keyed h with hc | hc | hc <;> rw [hc]
    · exact .refl
    · exact Crew.Step.reserve.steps
    · exact Crew.Step.enlist.steps
  | wake w r =>
    cases hw : s.crew.live w with
    | true =>
      refine ⟨[.woken w r], ?_, ?_⟩
      · rw [Turn.wake_acts, if_pos hw]
      · rw [Turn.wake_crew]
        exact (Crew.Step.wake hw r).steps
    | false =>
      refine hsame [] ?_ ?_ (by simp)
      · rw [Turn.wake_acts, if_neg (by simp [hw]), List.append_nil]
      · rw [Turn.wake_crew, Crew.wake_dead hw]
  | @resume r hr =>
    refine ⟨[.resumed s.task.id r], rfl, ?_⟩
    exact (Crew.Step.resume (c := s.crew) (b := s.task.badge) rfl).steps
  | channel id c => exact hsame [] (List.append_nil _).symm rfl (by simp)
  | @traffic a ha =>
    refine hsame [a] rfl rfl fun b hb => ?_
    rw [List.mem_singleton.mp hb]
    cases a <;> first | rfl | cases ha
  | unwind hh v =>
    obtain ⟨left, ha⟩ := Turn.unwind_acts hh v
    refine hsame _ ha ?_ (by simp [Act.isWake])
    obtain ⟨acts, events, cells, frames, openUpvalues, iterations, stack, hs'⟩ :=
      Turn.unwind_frame hh v
    rw [hs']
    exact Turn.crew_eq rfl rfl rfl rfl rfl

theorem steps_of_deeds {s s' : Turn} (h : Deeds s s') (hs : s.crew.Tended) :
    ∃ acts, s'.acts = s.acts ++ acts ∧ Crew.Steps s.crew (acts.filter Act.isWake) s'.crew := by
  induction h with
  | refl => exact ⟨[], (List.append_nil _).symm, .refl⟩
  | tail h hd ih =>
    obtain ⟨acts, ha, hsteps⟩ := ih
    obtain ⟨acts', ha', hsteps'⟩ := hd.steps (tended_of_deeds h hs)
    refine ⟨acts ++ acts', by rw [ha', ha, List.append_assoc], ?_⟩
    rw [List.filter_append]
    exact hsteps.trans hsteps'

/-- The end of a turn, as the crew sees it. -/
theorem Turn.Over.crew {s : Turn} {o : TurnEnd} {m : Machine} {outcome : Option Outcome}
    (h : s.Over o m outcome) (hnone : s.task.resume = none) (he : o ≠ .endless) :
    s.crew.Over m.crew := by
  have hrunning : s.crew.running = some s.task.badge := rfl
  cases h with
  | endless => exact absurd rfl he
  | blocks => exact s.park_crew ▸ .blocks hrunning hnone
  | yields => exact s.keep_crew _ ▸ .yields hrunning
  | retires hf hgoes =>
    exact s.retire_crew _ ▸ .retires hrunning (fun hmain => hgoes (.inl hmain)) hf.isFinished
  | concludes hf =>
    rw [Machine.crew_shutdown, s.retire_crew]
    exact .concludes hrunning hf.isFinished

namespace Machine

variable {ok : Machine → Prop} {m m' m₀ : Machine}

theorem crew_blank (m : Machine) : m.crew.Blank := by
  intro k hk
  show (m.heap.handles.getD k default).status = .runnable
  rw [Array.getD_eq_getD_getElem?, Array.getElem?_eq_none hk]
  rfl

theorem filter_endings (m m' : Machine) : (m.endings m').filter Act.isWake = [] := by
  rw [endings, List.filter_eq_nil_iff]
  intro a ha
  obtain ⟨id, -, rfl⟩ := List.mem_map.mp ha
  simp [Act.isWake]

/-- A tick within a turn: steps, and then what becomes of the turn. -/
theorem tick_works (hm : m.Fit) {task : Task} (hr : m.running = some task)
    (hend : m.tick.outcome ≠ some .endless) :
    ∃ c, Crew.Steps m.crew (m.tick.acts.filter Act.isWake) c ∧ c.Over m.tick.machine.crew := by
  have hs : (m.turn task).crew = m.crew := congrArg crew (ofTurn_turn hr)
  obtain ⟨acts, hacts, hsteps⟩ := steps_of_deeds (Turn.deeds_advance hm.tame) (hm.turn hr)
  have hnone := Turn.advance_resume (s := m.turn task) hm.tame
  have hacts : (m.turn task).advance.2.acts = acts := hacts
  rw [hs] at hsteps
  cases ha : (m.turn task).advance with
  | mk o s =>
    rw [ha] at hsteps hnone hacts
    cases o with
    | none =>
      rw [tick_goes hr ha, hacts]
      exact ⟨_, hsteps, .goesOn⟩
    | some o =>
      rw [tick_ends hr ha] at hend ⊢
      rw [hacts]
      refine ⟨_, hsteps, (s.over_endTurn o).crew hnone ?_⟩
      rintro rfl
      exact hend rfl

/-- **Every move** of a machine is one of its crew, with the same wake-ups on record. -/
theorem Move.crew {acts : List Act} (h : Move ok m acts m') (hm : m.Fit) :
    m.crew.Move (acts.filter Act.isWake) m'.crew := by
  cases h with
  | tick hok hend =>
    rw [List.filter_append, filter_endings, List.append_nil]
    cases hr : m.running with
    | some task =>
      obtain ⟨c, hsteps, hover⟩ := tick_works hm hr hend
      exact .works (by rw [Machine.crew, hr]; exact Option.some_ne_none _) hsteps hover
    | none =>
      have hrunning : m.crew.running = none := by rw [Machine.crew, hr]; rfl
      rw [tick_between hr, dispatch_acts]
      cases hq : m.vm.scheduler.queue with
      | nil =>
        rw [dispatch_idle hq]
        exact crew_shutdown m ▸ .deadlock hrunning
      | cons id queue =>
        obtain ⟨b, hheld, hqueue, hcrew⟩ := dispatch_crew hm.tended hq
        exact hcrew ▸ .dispatch hrunning hheld hqueue
  | pause =>
    cases hr : m.running with
    | none =>
      rw [show m.pause.1 = m by rw [Machine.pause, hr]]
      exact .prepare
    | some task =>
      have hrunning : m.crew.running = some task.badge := by rw [Machine.crew, hr]; rfl
      exact pause_crew hr ▸ .pause hrunning
  | load hr chunk =>
    rw [filter_endings]
    exact crew_load m chunk ▸ .load (by rw [Machine.crew, hr]; rfl)
  | prepare hh he hv hr => exact crew_prepare he hv hr ▸ .prepare

/-! ## The line -/

/-- Whose turn is on. -/
def onTurn (m : Machine) : List TaskId := (m.running.map (·.id)).toList

theorem onTurn_running {task : Task} (hr : m.running = some task) : m.onTurn = [task.id] := by
  rw [onTurn, hr]
  rfl

/-- What becomes of turns. -/
inductive Shift where
  | begins (task : TaskId)
  /-- The turn is taken back, to be given again. -/
  | pauses (task : TaskId)

/-- The turns that have not been taken back, in order. -/
def Shift.turns (log : List Shift) : List TaskId :=
  log.foldl (fun turns shift =>
    match shift with
    | begins id => turns ++ [id]
    | pauses _ => turns.dropLast) []

/-- A program goes on, with a record of who has had turns. -/
inductive Serves (m₀ : Machine) : List Shift → Machine → Prop where
  | refl : Serves m₀ [] m₀
  | begins {log : List Shift} {m : Machine} (h : Serves m₀ log m) (hr : m.running = none)
      {task : Task} (ht : m.tick.machine.running = some task) :
      Serves m₀ (log ++ [.begins task.id]) m.tick.machine
  | works {log : List Shift} {m : Machine} (h : Serves m₀ log m) (hr : m.running ≠ none)
      (hend : m.tick.outcome ≠ some .endless) (hgo : m.tick.machine.vm.main ≠ none) :
      Serves m₀ log m.tick.machine
  | pauses {log : List Shift} {m : Machine} (h : Serves m₀ log m) {task : Task}
      (hr : m.running = some task) : Serves m₀ (log ++ [.pauses task.id]) m.pause.1
  | prepare {log : List Shift} {m m' : Machine} (h : Serves m₀ log m)
      (hh : ∀ f ∈ m'.hosts, f.Tame) (he : m.heap.Extends m'.heap) (hv : m.vm.Alike m'.vm)
      (hr : m'.running = m.running) : Serves m₀ log m'

@[simp] theorem Shift.turns_begins (log : List Shift) (id : TaskId) :
    turns (log ++ [.begins id]) = turns log ++ [id] := by
  simp [turns]

@[simp] theorem Shift.turns_pauses (log : List Shift) (id : TaskId) :
    turns (log ++ [.pauses id]) = (turns log).dropLast := by
  simp [turns]

theorem Shift.turns_map (ids : List TaskId) : turns (ids.map .begins) = ids := by
  induction ids using List.reverseRecOn with
  | nil => rfl
  | append_singleton ids id ih => rw [List.map_append, List.map_singleton, turns_begins, ih]

/-- Who has had turns, and who is in line. -/
structure InLine (queue : List TaskId) (log : List Shift) (m : Machine) : Prop where
  /-- Nobody has come in between. -/
  line : ∃ later, Shift.turns log ++ m.vm.scheduler.queue = queue ++ later
  running : ∀ t, m.running = some t → (Shift.turns log).getLast? = some t.id
  /-- A turn that has been taken back is the next. -/
  paused : ∀ id, log.getLast? = some (.pauses id) →
    m.running = none ∧ m.vm.scheduler.queue.head? = some id

theorem crew_running (m : Machine) : m.crew.running = m.running.map Task.badge := rfl

theorem Serves.fit (hm : m₀.Fit) {log : List Shift} (h : Serves m₀ log m) : m.Fit := by
  induction h with
  | refl => exact hm
  | @begins log m h hr task ht ih =>
    refine tick_fit ih ?_
    rw [tick_between hr]
    unfold Machine.dispatch deadlock
    split <;> simp
  | works h hr hend hgo ih => exact tick_fit ih hend
  | @pauses log m h task hr ih => exact (show Move (fun _ => True) m [] _ from .pause).fit ih
  | @prepare log m m' h hh he hv hr ih =>
    exact (show Move (fun _ => True) m [] m' from .prepare hh he hv hr).fit ih

section

variable {queue : List TaskId} {log : List Shift} {task : Task}

/-- Who gets the turn has been the first in the queue. -/
theorem InLine.begins (h : InLine queue log m) (hm : m.Fit) (hr : m.running = none)
    (ht : m.tick.machine.running = some task) :
    InLine queue (log ++ [.begins task.id]) m.tick.machine := by
  obtain ⟨later, hline⟩ := h.line
  rw [tick_between hr] at ht ⊢
  -- With nobody in the queue no turn begins.
  cases hq : m.vm.scheduler.queue with
  | nil =>
    rw [dispatch_idle hq, show m.deadlock.machine.running = none from hr] at ht
    cases ht
  | cons id rest =>
    obtain ⟨b, -, hqueue, hcrew⟩ := dispatch_crew hm.tended hq
    obtain ⟨hid, -⟩ := List.cons.inj (hq.symm.trans hqueue)
    have hrest : m.dispatch.machine.vm.scheduler.queue = rest := congrArg Crew.queue hcrew
    have hrunning : m.dispatch.machine.running.map Task.badge = some b :=
      congrArg Crew.running hcrew
    have htask : task.id = id := by
      rw [ht] at hrunning
      rw [hid, ← Option.some.inj hrunning]
      rfl
    refine ⟨⟨later, ?_⟩, fun t hrun => ?_, fun i hi => by simp at hi⟩
    · rw [Shift.turns_begins, hrest, List.append_assoc, ← hline, htask, hq]
      rfl
    · obtain rfl : task = t := Option.some.inj (ht.symm.trans hrun)
      rw [Shift.turns_begins, List.getLast?_concat]

/-- Whoever has the turn can only make others line up behind. -/
theorem InLine.works (h : InLine queue log m) (hm : m.Fit) (hr : m.running = some task)
    (hend : m.tick.outcome ≠ some .endless) (hgo : m.tick.machine.vm.main ≠ none) :
    InLine queue log m.tick.machine := by
  obtain ⟨later, hline⟩ := h.line
  obtain ⟨c, hsteps, hover⟩ := tick_works hm hr hend
  obtain ⟨⟨more, hmore⟩, hids⟩ := hsteps.line
  obtain ⟨⟨last, hlast⟩, hsame⟩ := hover.line hgo
  have hqueue : m.tick.machine.vm.scheduler.queue = m.vm.scheduler.queue ++ (more ++ last) := by
    rw [← List.append_assoc]
    exact hlast.trans (congrArg (· ++ last) hmore)
  refine ⟨⟨later ++ (more ++ last), ?_⟩, fun t ht => ?_, fun id hid => ?_⟩
  · rw [hqueue, ← List.append_assoc, hline, List.append_assoc]
  · have hbadge : m.tick.machine.crew.running = some t.badge := by rw [crew_running, ht]; rfl
    have hid := hids.symm.trans (congrArg (Option.map Badge.id) (hsame _ hbadge))
    rw [crew_running, hr] at hid
    rw [h.running task hr]
    exact hid
  · have hidle := (h.paused id hid).1
    rw [hr] at hidle
    cases hidle

/-- Whoever is paused is the first in the queue again. -/
theorem InLine.pauses (h : InLine queue log m) (hr : m.running = some task) :
    InLine queue (log ++ [.pauses task.id]) m.pause.1 := by
  obtain ⟨later, hline⟩ := h.line
  have hqueue : m.pause.1.vm.scheduler.queue = task.id :: m.vm.scheduler.queue :=
    congrArg Crew.queue (pause_crew hr)
  have hidle : m.pause.1.running = none := by rw [Machine.pause, hr]
  refine ⟨⟨later, ?_⟩, fun t ht => ?_, fun id hid => ?_⟩
  · obtain ⟨turns, hturns⟩ := List.getLast?_eq_some_iff.mp (h.running task hr)
    rw [Shift.turns_pauses, hqueue, ← hline, hturns, List.dropLast_concat, List.append_assoc]
    rfl
  · rw [hidle] at ht
    cases ht
  · rw [List.getLast?_concat] at hid
    cases hid
    exact ⟨hidle, by rw [hqueue]; rfl⟩

theorem InLine.prepare (h : InLine queue log m) (hv : m.vm.Alike m'.vm)
    (hr : m'.running = m.running) : InLine queue log m' := by
  obtain ⟨hline, hturn, hpaused⟩ := h
  rw [← hv.scheduler] at hline hpaused
  rw [← hr] at hturn hpaused
  exact ⟨hline, hturn, hpaused⟩

end

/-- When a program starts to be looked at, only the turn that is on has been given out. -/
theorem InLine.start (m : Machine) :
    InLine (m.onTurn ++ m.vm.scheduler.queue) (m.onTurn.map .begins) m := by
  refine ⟨⟨[], by rw [Shift.turns_map, List.append_nil]⟩, fun t ht => ?_, fun id hid => ?_⟩
  · rw [Shift.turns_map, onTurn_running ht]
    rfl
  · rw [List.getLast?_map] at hid
    obtain ⟨i, -, hi⟩ := Option.map_eq_some_iff.mp hid
    cases hi

/-- **The line moves on.** The turns that have been given out and kept, and then the queue, are
the turn there was and the queue there was with others behind. -/
theorem Serves.in_line (hm : m₀.Fit) {log : List Shift} (h : Serves m₀ log m) :
    InLine (m₀.onTurn ++ m₀.vm.scheduler.queue) (m₀.onTurn.map .begins ++ log) m := by
  induction h with
  | refl => exact (List.append_nil _).symm ▸ .start m₀
  | begins h hidle ht ih => exact List.append_assoc _ _ _ ▸ ih.begins (h.fit hm) hidle ht
  | works h hrun hend hgo ih =>
    obtain ⟨task, htask⟩ := Option.ne_none_iff_exists'.mp hrun
    exact ih.works (h.fit hm) htask hend hgo
  | pauses h hrun ih => exact List.append_assoc _ _ _ ▸ ih.pauses hrun
  | prepare h hh he hv hsame ih => exact ih.prepare hv hsame

/-! ## Every run -/

/-- Whoever is held wants a turn or waits, and whoever wants a turn is in the queue, once.
Handles before the first are none of the machine's. -/
structure InOrder (m : Machine) (first : HandleId) : Prop where
  own : ∀ (id : TaskId) (k : HandleId), m.vm.handles[id]? = some k → first ≤ k
  once : m.vm.scheduler.queue.Nodup
  queued : ∀ id, id ∈ m.vm.scheduler.queue ↔
    ∃ t, m.vm.scheduler.get? id = some t ∧ (m.heap.handle t.handle).status = .runnable
  held : ∀ id t, m.vm.scheduler.get? id = some t → t.id = id ∧ m.vm.handles[id]? = some t.handle ∧
    ((m.heap.handle t.handle).status = .runnable ∨ (m.heap.handle t.handle).status = .blocked)
  /-- Only one task runs, and it is neither held nor queued. -/
  turn : ∀ k, first ≤ k →
    ((m.heap.handle k).status = .running ↔ ∃ t, m.running = some t ∧ t.handle = k)
  away : ∀ t, m.running = some t → m.vm.handles[t.id]? = some t.handle ∧
    m.vm.scheduler.get? t.id = none ∧ t.id ∉ m.vm.scheduler.queue

/-- The task of a handle is held nowhere. -/
structure Gone (m : Machine) (k : HandleId) : Prop where
  held : ∀ id t, m.vm.scheduler.get? id = some t → t.handle ≠ k
  running : ∀ t, m.running = some t → t.handle ≠ k
  queued : ∀ id : TaskId, m.vm.handles[id]? = some k → id ∉ m.vm.scheduler.queue

/-- What may have become of a parked task: its wait goes on, or one wake-up has ended it and has
queued it. When it is no longer held the program has been given up. -/
inductive Parks (m : Machine) (t : Task) (acts : List Act) (m' : Machine) : Prop where
  | waits (hn : acts.filter (·.wakes t.id) = [])
      (hs : (m'.heap.handle t.handle).status = .blocked)
      (hheld : (∀ i, m'.vm.scheduler.get? i ≠ none → m.vm.scheduler.nextId ≤ i) ∨
        ∃ t', m'.vm.scheduler.get? t.id = some t' ∧ t'.handle = t.handle ∧
          t'.waitEpoch = t.waitEpoch ∧ t'.resume = none ∧ t.id ∉ m'.vm.scheduler.queue)
  | wakes {w : Waiter} {r : Resume} (hw : acts.filter (·.wakes t.id) = [.woken w r])
      (he : w.epoch = t.waitEpoch) (hs : (m'.heap.handle t.handle).status = .runnable)
      (hheld : (∀ i, m'.vm.scheduler.get? i ≠ none → m.vm.scheduler.nextId ≤ i) ∨
        ∃ t', m'.vm.scheduler.get? t.id = some t' ∧ t'.handle = t.handle ∧
          t'.waitEpoch = t.waitEpoch + 1 ∧ t'.resume = some r ∧
          m'.vm.scheduler.queue.count t.id = 1)

theorem Move.settles {acts : List Act} (h : Move ok m acts m') (hm : m.Fit) :
    m.crew.Settles m'.crew :=
  (h.crew hm).settles hm.tended (crew_blank m)

theorem Run.settles {hist : List Act} (h : Run ok m₀ hist m) (hm : m₀.Fit) :
    m₀.crew.Settles m.crew := by
  induction h with
  | refl => exact .refl (crew_blank m₀)
  | tail h hmove ih => exact ih.trans (hmove.settles (h.fit hm))

theorem in_order (hm : m.Fit) {c₀ : Crew} (hs : c₀.Settles m.crew)
    (hb : c₀.Blank) (he : ∀ id, c₀.roster id = none) : m.InOrder c₀.handles := by
  obtain ⟨-, haway, hknown, hruns, -, -, hbusy, hparked, hready, hqueued, hdistinct, -, -⟩ :=
    hm.tended
  have hheld : ∀ {id t}, m.vm.scheduler.get? id = some t → m.crew.held id = some t.badge :=
    fun h => by rw [held_eq, h]; rfl
  have hrunning : ∀ {t}, m.running = some t → m.crew.running = some t.badge :=
    fun h => by rw [crew_running, h]; rfl
  have hqueue : m.crew.queue = m.vm.scheduler.queue := rfl
  constructor
  case own =>
    intro id k hk
    rcases hs.fresh id k hk with hold | hnew
    · rw [he] at hold
      cases hold
    · exact hnew
  case once => exact hdistinct
  case queued =>
    refine fun id => ⟨fun hq => ?_, fun ⟨t, ht, hst⟩ => ?_⟩
    · obtain ⟨t, ht⟩ : ∃ t, m.vm.scheduler.get? id = some t := by
        refine Option.ne_none_iff_exists'.mp fun hnone => hqueued id hq ?_
        rw [held_eq, hnone]
        rfl
      refine ⟨t, ht, (hready id t.badge (hheld ht) fun hblocked => ?_).1⟩
      exact (hparked id t.badge (hheld ht) hblocked).2 hq
    · refine (hready id t.badge (hheld ht) ?_).2
      show (m.heap.handle t.handle).status ≠ .blocked
      rw [hst]
      simp
  case held =>
    refine fun id t ht => ⟨hm.tended.keyed id _ (hheld ht), hknown id _ (hheld ht), ?_⟩
    by_cases hblocked : (m.heap.handle t.handle).status = .blocked
    · exact .inr hblocked
    · exact .inl (hready id _ (hheld ht) hblocked).1
  case turn =>
    refine fun k hk => ⟨fun hrun => ?_, ?_⟩
    -- The crew started blank, so a handle that is running was made so on the way.
    · rcases hs.running k hrun with ⟨b, hb, hbk⟩ | ⟨hold, -⟩
      · rw [crew_running] at hb
        obtain ⟨t, ht, rfl⟩ := Option.map_eq_some_iff.mp hb
        exact ⟨t, ht, hbk⟩
      · rw [hb k hk] at hold
        cases hold
    · rintro ⟨t, ht, rfl⟩
      exact hbusy _ (hrunning ht)
  case away =>
    intro t ht
    have hnone := haway _ (hrunning ht)
    refine ⟨hruns _ (hrunning ht), ?_, fun hq => hqueued _ hq hnone⟩
    rw [held_eq] at hnone
    exact Option.map_eq_none_iff.mp hnone

theorem gone_of_finished (hm : m.Fit) {k : HandleId}
    (hk : (m.heap.handle k).status.isFinished = true) : m.Gone k := by
  obtain ⟨-, -, hknown, hruns, -, hapart, hbusy, hparked, hready, hqueued, -, -, -⟩ := hm.tended
  have hno : ∀ id b, m.crew.held id = some b → b.handle ≠ k := by
    rintro id b hb rfl
    replace hk : (m.crew.status b.handle).isFinished = true := hk
    by_cases hblocked : m.crew.status b.handle = .blocked
    · rw [hblocked] at hk
      cases hk
    · rw [(hready id b hb hblocked).1] at hk
      cases hk
  refine ⟨fun id t ht => hno id t.badge (by rw [held_eq, ht]; rfl), ?_, fun id hid hq => ?_⟩
  · rintro t ht rfl
    have hst : (m.heap.handle t.handle).status = .running :=
      hbusy t.badge (by rw [crew_running, ht]; rfl)
    rw [hst] at hk
    cases hk
  · obtain ⟨b, hb⟩ := Option.ne_none_iff_exists'.mp (hqueued id hq)
    exact hno id b hb (Option.some.inj ((hknown id b hb).symm.trans hid))

theorem Move.parks {acts : List Act} (h : Move ok m acts m') (hm : m.Fit) {id : TaskId} {t : Task}
    (ht : m.vm.scheduler.get? id = some t)
    (hs : (m.heap.handle t.handle).status = .blocked) : m.Parks t acts m' := by
  have hheld : m.crew.held id = some t.badge := by rw [held_eq, ht]; rfl
  obtain rfl : t.id = id := hm.tended.keyed id _ hheld
  obtain ⟨x, hx, hend⟩ := (h.crew hm).bides (b := t.badge) hm.tended hheld hs
  have hm' := (h.fit hm).tended
  have hgone : (∀ i, m'.crew.held i ≠ none → m.crew.nextId ≤ i) →
      ∀ i, m'.vm.scheduler.get? i ≠ none → m.vm.scheduler.nextId ≤ i := by
    refine fun hgone i hi => hgone i ?_
    rw [held_eq]
    exact fun hnone => hi (Option.map_eq_none_iff.mp hnone)
  have hsome : ∀ {b}, m'.crew.held t.id = some b →
      ∃ t', m'.vm.scheduler.get? t.id = some t' ∧ t'.badge = b := by
    intro b hb
    rw [held_eq] at hb
    exact Option.map_eq_some_iff.mp hb
  -- The badges tell what became of the task, and the task itself is read off its badge.
  cases hx with
  | parked hn hst hb =>
    subst hb
    rw [Act.filter_wakes] at hn
    refine .waits hn hst (hend.imp hgone fun hb => ?_)
    obtain ⟨t', ht', hbadge⟩ := hsome hb
    have hquiet := hm'.parked _ _ hb hst
    exact ⟨t', ht', congrArg Badge.handle hbadge, congrArg Badge.epoch hbadge,
      (congrArg Badge.resume hbadge).trans hquiet.1, hquiet.2⟩
  | @roused w r hw hb =>
    subst hb
    have hwake := hw.wake
    rw [Act.filter_wakes] at hwake
    refine .wakes hwake hw.epoch hw.status (hend.imp hgone fun hb => ?_)
    obtain ⟨t', ht', hbadge⟩ := hsome hb
    have hqueued := (hm'.ready _ _ hb (by rw [hw.status]; simp)).2
    exact ⟨t', ht', congrArg Badge.handle hbadge, congrArg Badge.epoch hbadge,
      congrArg Badge.resume hbadge, List.count_eq_one_of_mem hm'.once hqueued⟩

/-- **The scheduler keeps its books**, whatever programs do. Between any two ticks everyone is
where their status says; who has come to an end stays so and is held nowhere; a parked task is
queued by the one wake-up of its wait; and after the turn that is on, if any, turns are given out
in the order of the queue, where a task whose turn was taken back goes first. -/
theorem Run.keeps_books {hosts : Array HostFunction} (ht : ∀ f ∈ hosts, f.Tame) {h : Heap}
    {id : VmId} {config : VmConfig} {dice : Dice} {hist : List Act}
    (hr : Run ok (create hosts h id config dice) hist m) :
    m.InOrder h.handles.size ∧
    (∀ k, (m.heap.handle k).status.isFinished = true → ∀ hist' m', Run ok m hist' m' →
      (m'.heap.handle k).status = (m.heap.handle k).status ∧ m'.Gone k) ∧
    (∀ i t, m.vm.scheduler.get? i = some t → (m.heap.handle t.handle).status = .blocked →
      ∀ acts m', Move ok m acts m' → m.Parks t acts m') ∧
    (∀ log m', Serves m log m' →
      (∃ later, Shift.turns (m.onTurn.map .begins ++ log) ++ m'.vm.scheduler.queue =
        m.onTurn ++ m.vm.scheduler.queue ++ later) ∧
      (∀ i, log.getLast? = some (.pauses i) → m'.vm.scheduler.queue.head? = some i) ∧
      ∀ turns : List TaskId, log = turns.map .begins → ∀ k < m.vm.scheduler.queue.length,
        k < turns.length → turns[k]? = m.vm.scheduler.queue[k]?) := by
  have hnew := create_fit ht h id config dice
  have hm := hr.fit hnew
  have hhandles : (create hosts h id config dice).crew.handles = h.handles.size := by
    rw [crew, create_heap]
  have hroster : ∀ k, (create hosts h id config dice).crew.roster k = none := by
    intro k
    show ({} : Std.ExtTreeMap TaskId HandleId)[k]? = none
    simp
  refine ⟨hhandles ▸ in_order hm (hr.settles hnew) (crew_blank _) hroster, ?_, ?_, ?_⟩
  · intro k hk hist' m' hrun
    have hsame := (hrun.settles hm).finished k hk
    exact ⟨hsame, gone_of_finished (hrun.fit hm) ((congrArg TaskStatus.isFinished hsame).trans hk)⟩
  · exact fun i t ht hs acts m' hmove => hmove.parks hm ht hs
  · intro log m' hserves
    obtain ⟨⟨later, hline⟩, -, hpaused⟩ := hserves.in_line hm
    refine ⟨⟨later, hline⟩, fun i hi => (hpaused i ?_).2, ?_⟩
    · rw [List.getLast?_append, hi]
      rfl
    rintro turns rfl k hk hturns
    rw [← List.map_append, Shift.turns_map, List.append_assoc, List.append_assoc,
      List.append_cancel_left_eq] at hline
    have hat := congrArg (·[k]?) hline
    simpa only [List.getElem?_append_left hk, List.getElem?_append_left hturns] using hat

/-- The main task spawns three that send on one channel, and receives from it once. -/
def busy : Heap where
  channels := #[.ofCapacity 0]
  closures := #[{ template := 0 }]
  templates := #[{ name := "sender", chunk := 1 }]
  chunks := #[
    { code := assemble [(.constant, [0, 0]), (.spawn, [0]), (.constant, [0, 0]), (.spawn, [0]),
        (.constant, [0, 0]), (.spawn, [0]), (.constant, [0, 1]), (.channelRecv, []), (.ret, [])]
      constants := #[.closure 0, .channel 0] },
    { code := assemble [(.constant, [0, 0]), (.pushTrue, []), (.channelSend, []), (.ret, [])]
      constants := #[.channel 0] }]

/-- When the main task has spawned the three it still has its turn. Later the first has sent and
the second waits to, so that the third and then the main task are to have their turns. -/
theorem busy_in_order : ∃ hist m, Run (fun _ => True) (create #[] busy 0 {} {}) hist m ∧
    (m.vm.taskStatus? m.heap <$> [0, 1, 2, 3]) =
      [some .runnable, some .completed, some .blocked, some .runnable] ∧
    m.InOrder 0 ∧
    (∀ (turns : List TaskId) m', Serves m (turns.map .begins) m' → ∀ k < 2, k < turns.length →
      turns[k]? = [3, 0][k]?) ∧
    ∃ hist₁ m₁, Run (fun _ => True) (create #[] busy 0 {} {}) hist₁ m₁ ∧ m₁.onTurn = [0] ∧
      ∀ (turns : List TaskId) m', Serves m₁ (turns.map .begins) m' → ∀ k < 3, k < turns.length →
        turns[k]? = [1, 2, 3][k]? := by
  have hspawned : ((tickFor (fun _ => true) 7 ((create #[] busy 0 {} {}).load 0).2 []).any fun r =>
      decide (r.2.vm.scheduler.queue = [1, 2, 3]) && decide (r.2.onTurn = [0])) = true := by
    decide +kernel
  have hsent : ((tickFor (fun _ => true) 18 ((create #[] busy 0 {} {}).load 0).2 []).any fun r =>
      decide ((r.2.vm.taskStatus? r.2.heap <$> [0, 1, 2, 3]) =
        [some .runnable, some .completed, some .blocked, some .runnable]) &&
      decide (r.2.vm.scheduler.queue = [3, 0])) = true := by
    decide +kernel
  obtain ⟨⟨hist, m⟩, hticks, hp⟩ := (Option.any_eq_true _ _).mp hsent
  obtain ⟨⟨hist₁, m₁⟩, hticks₁, hp₁⟩ := (Option.any_eq_true _ _).mp hspawned
  simp only [Bool.and_eq_true, decide_eq_true_eq] at hp hp₁
  obtain ⟨hstages, hqueue⟩ := hp
  obtain ⟨hqueue₁, hturn₁⟩ := hp₁
  have hr := (run_of_tickFor (Run.refl.tail (.load rfl 0)) hticks).mono fun _ _ => trivial
  have hr₁ := (run_of_tickFor (Run.refl.tail (.load rfl 0)) hticks₁).mono fun _ _ => trivial
  obtain ⟨horder, -, -, hserves⟩ := Run.keeps_books (by simp) hr
  obtain ⟨-, -, -, hserves₁⟩ := Run.keeps_books (by simp) hr₁
  refine ⟨hist, m, hr, hstages, horder, fun turns m' h => ?_, hist₁, m₁, hr₁, hturn₁,
    fun turns m' h => ?_⟩
  · have hturns := (hserves _ m' h).2.2 turns rfl
    rwa [hqueue] at hturns
  · have hturns := (hserves₁ _ m' h).2.2 turns rfl
    rwa [hqueue₁] at hturns

end Machine

end TaskVm
