import TaskVm.Hook.Recorder
import TaskVm.Proofs.Deeds
import TaskVm.Proofs.Switches

/-!
# Pausing is transparent

A debugger may pause a program before any instruction, and have it run again, as often as it
likes. In between the paused task is back in the queue, with another stage, and the machine is
at rest. All the same the program comes to the same end in the same state as without any pause,
and between the pauses the debugger sees the same.

The reason is that pausing is undone by the next tick. The running task is not among those
held and is at the running stage, so that putting it at the head of the queue and giving it the
turn again restores the machine, up to the count of turns. No tick depends on that count.
-/

namespace TaskVm

open Exec Relation

variable {σ : Type} {ok : Machine → Prop} {m m' m'' : Machine}

/-! ## What a hook is asked and told -/

/-- A hook is asked whether to go on, with its answer, or told of an event. -/
inductive Call where
  | offered (task : TaskId) (ip : Nat) (info : DebugInfo) (go : Bool)
  | told (heap : Heap) (event : Event)

namespace Call

/-- The instruction that was not let pass. -/
def refused? : Call → Option (TaskId × Nat)
  | offered task ip _ false => some (task, ip)
  | _ => none

/-- Instructions that were not let pass are offered again right away. -/
def Reoffered : List Call → Prop
  | [] => True
  | offered task ip info false :: calls =>
    (∃ go rest, calls = offered task ip info go :: rest) ∧ Reoffered calls
  | _ :: calls => Reoffered calls

/-- The calls that do not pause. -/
def heeded (calls : List Call) : List Call := calls.filter fun c => c.refused?.isNone

theorem heeded_append {calls : List Call} (h : ∀ c ∈ calls, c.refused? = none)
    (rest : List Call) : heeded (calls ++ rest) = calls ++ heeded rest := by
  have hall : calls.filter (fun c => c.refused?.isNone) = calls :=
    List.filter_eq_self.mpr fun c hc => by rw [h c hc]; rfl
  rw [heeded, List.filter_append, hall]
  rfl

theorem reoffered_append : ∀ {calls : List Call}, (∀ c ∈ calls, c.refused? = none) →
    ∀ {rest : List Call}, Reoffered rest → Reoffered (calls ++ rest)
  | [], _, _, hr => hr
  | .told _ _ :: _, hn, _, hr => reoffered_append (fun c hc => hn c (.tail _ hc)) hr
  | .offered _ _ _ true :: _, hn, _, hr => reoffered_append (fun c hc => hn c (.tail _ hc)) hr
  | .offered _ _ _ false :: _, hn, _, _ => nomatch hn _ (.head _)

end Call

namespace Hook

/-- A hook that decides as another one does and keeps a log. -/
def logged (hook : Hook σ) : Hook (σ × List Call) where
  offer s task ip info :=
    let (go, s') := hook.offer s.1 task ip info
    (go, s', s.2 ++ [.offered task ip info go])
  notify s h e := (hook.notify s.1 h e, s.2 ++ [.told h e])

/-- A hook that never pauses. -/
def patient : Hook Unit where
  offer _ _ _ _ := (true, ())
  notify _ _ _ := ()

end Hook

theorem Hook.notifyAll_logged (hook : Hook σ) (h : Heap) : ∀ (events : List Event) (s : σ)
    (log : List Call), hook.logged.notifyAll (s, log) h events =
      (hook.notifyAll s h events, log ++ events.map (.told h))
  | [], s, log => by rw [List.map_nil, List.append_nil]; rfl
  | e :: events, s, log => by
    refine (notifyAll_logged hook h events (hook.notify s h e) (log ++ [.told h e])).trans ?_
    rw [List.append_assoc]
    rfl

namespace Machine

/-- The question that the next tick begins with, if it executes an instruction. -/
def question (m : Machine) (go : Bool) : List Call :=
  match m.offer? with
  | some (task, ip, info) => [.offered task ip info go]
  | none => []

/-- What a hook is asked and told about the next tick. -/
def calls (m : Machine) : List Call :=
  m.question true ++ m.tick.events.map (.told m.tick.scene)

theorem ask_logged (hook : Hook σ) (s : σ) (log : List Call) (m : Machine) :
    ask (some hook.logged) (s, log) m = ((ask (some hook) s m).1, (ask (some hook) s m).2,
      log ++ m.question (ask (some hook) s m).1) := by
  unfold ask question
  cases ho : m.offer? with
  | none =>
    dsimp only
    rw [List.append_nil]
  | some q => rfl

/-- An instruction is refused only where one is offered. -/
theorem offer_of_refused {hook : Hook σ} {s : σ} (h : (ask (some hook) s m).1 = false) :
    ∃ task ip info, m.offer? = some (task, ip, info) := by
  unfold ask at h
  dsimp only at h
  split at h
  · rename_i task ip info ho
    exact ⟨task, ip, info, ho⟩
  · cases h

theorem tell_logged (hook : Hook σ) (s : σ) (log : List Call) (t : Tick) :
    tell (some hook.logged) (s, log) t =
      (tell (some hook) s t, log ++ t.events.map (.told t.scene)) :=
  hook.notifyAll_logged t.scene t.events s log

/-- An offer is made for the running task, at the place it has come to. -/
theorem offer_eq_some {task : TaskId} {ip : Nat} {info : DebugInfo}
    (h : m.offer? = some (task, ip, info)) :
    m.running ≠ none ∧ m.pause.2 = .paused task ip := by
  unfold offer? at h
  split at h
  · cases h
  · rename_i t ht
    split at h
    · rename_i f fs hnone hf
      split at h
      · injection h with h
        injection h with hid h
        injection h with hip
        refine ⟨by rw [ht]; nofun, ?_⟩
        rw [pause, ht, ← hid, ← hip]
        dsimp only
        rw [Task.ip, hf]
      · cases h
    · cases h

/-! ## Pausing and taking up again -/

end Machine

/-- A task that is at a stage already may be moved away from it and back. -/
theorem Heap.setStatus_back {h : Heap} {id : HandleId} {st : TaskStatus}
    (hst : (h.handle id).status = st) (away : TaskStatus) :
    (h.setStatus id away).setStatus id st = h := by
  have hhandles : (h.handles.modify id fun t => { t with status := away }).modify id
      (fun t => { t with status := st }) = h.handles := by
    refine Array.ext_getElem? fun k => ?_
    rw [Array.getElem?_modify, Array.getElem?_modify]
    by_cases hk : id = k
    · subst hk
      rw [if_pos rfl, if_pos rfl]
      cases hid : h.handles[id]? with
      | none => rfl
      | some t =>
        rw [Heap.handle, Array.getD_eq_getD_getElem?, hid] at hst
        rw [← hst]
        rfl
    · rw [if_neg hk, if_neg hk]
  exact congrArg (fun handles => { h with handles }) hhandles

/-- A running task that is put at the head of the queue is the next one to run, and nothing
else has changed then. -/
theorem Scheduler.takeNext_requeueFront {s : Scheduler} {h : Heap} {t : Task}
    (haway : s.get? t.id = none) (hbusy : (h.handle t.handle).status = .running) :
    (s.requeueFront h t).1.takeNext (s.requeueFront h t).2 = (some t, s, h) := by
  have hfirst : firstHeld (s.tasks.insert t.id t) (t.id :: s.queue) = some (t, s.queue) := by
    rw [firstHeld, getElem?_insert_ite, if_pos rfl]
  have htasks : (s.tasks.insert t.id t).erase t.id = s.tasks := by
    refine Std.ExtTreeMap.ext_getElem? fun k => ?_
    refine (Scheduler.get?_erase (s.put t) t.id k).trans ?_
    rw [Scheduler.get?_put_eq]
    split
    · rename_i hk
      exact hk ▸ haway.symm
    · rfl
  unfold requeueFront takeNext
  dsimp only [put]
  rw [hfirst]
  dsimp only
  rw [htasks, Heap.setStatus_back hbusy]

namespace Machine

/-- **Pausing is undone by the next tick**, but for the count of turns. -/
theorem tick_pause (h : m.Fit) (hne : m.running ≠ none) :
    ∃ k, m.pause.1.tick = { machine := m.recount k } := by
  obtain ⟨task, hr⟩ := Option.ne_none_iff_exists'.mp hne
  have hrunning : m.crew.running = some task.badge := by rw [crew, hr]; rfl
  have haway : m.vm.scheduler.get? task.id = none :=
    Option.map_eq_none_iff.mp (h.tended.away task.badge hrunning)
  have hnext := Scheduler.takeNext_requeueFront haway (h.tended.busy task.badge hrunning)
  obtain ⟨k, hk⟩ : ∃ k, m.vm.profiler.recordTaskSwitch =
      { m.vm.profiler with taskSwitches := k } := by
    unfold Profiler.recordTaskSwitch
    split
    · exact ⟨_, rfl⟩
    · exact ⟨_, rfl⟩
  refine ⟨k, ?_⟩
  have hmachine : { m with
      vm := { m.vm with profiler := m.vm.profiler.recordTaskSwitch } } = m.recount k := by
    rw [hk]
    rfl
  rw [tick, show m.pause.1.running = none by rw [pause, hr]]
  dsimp only
  rw [dispatch, pause, hr]
  dsimp only
  rw [hnext, ← hmachine, hr]

theorem twin_tick_pause (h : m.Fit) (hr : m.running ≠ none) : m.pause.1.tick.machine.Twin m := by
  obtain ⟨k, hk⟩ := tick_pause h hr
  rw [hk]
  exact (twin_recount m k).symm

/-- A paused machine is at rest. -/
theorem offer_pause (hr : m.running ≠ none) : m.pause.1.offer? = none := by
  obtain ⟨task, htask⟩ := Option.ne_none_iff_exists'.mp hr
  rw [pause, htask]
  rfl

end Machine

/-! ## Programs under way -/

/-- No deed unloads a program or makes the native cache be built from scratch. -/
theorem DeedIn.program {s s' : Turn} (h : Deed s s') :
    s'.vm.main = s.vm.main ∧ (s.vm.warmedUp = true → s'.vm.warmedUp = true) := by
  cases h with
  | change h =>
    cases h with
    | vm hv => exact ⟨hv.alike.main, hv.alike.warm⟩
    | @writeCell cell hc v =>
      obtain ⟨cells, tasks, stack, touched, hs'⟩ := writeCell_frame s cell v
      rw [hs']
      exact ⟨rfl, fun h => h⟩
    | _ => exact ⟨rfl, fun h => h⟩
  | unwind hh v =>
    obtain ⟨acts, events, cells, frames, openUpvalues, iterations, stack, hs'⟩ :=
      Turn.unwind_frame hh v
    rw [hs']
    exact ⟨rfl, fun h => h⟩
  | _ => exact ⟨rfl, fun h => h⟩

theorem program_of_deeds {s s' : Turn} (h : Deeds s s') :
    s'.vm.main = s.vm.main ∧ (s.vm.warmedUp = true → s'.vm.warmedUp = true) := by
  induction h with
  | refl => exact ⟨rfl, fun h => h⟩
  | tail _ hd ih => exact ⟨hd.program.1.trans ih.1, fun h => hd.program.2 (ih.2 h)⟩

namespace Machine

/-- There is a program, and the machine is in order. -/
structure Loaded (m : Machine) : Prop where
  fit : m.Fit
  main : m.vm.main ≠ none

/-- The program is running. -/
structure Underway (m : Machine) : Prop extends Loaded m where
  warm : m.vm.warmedUp = true

theorem Underway.tick (h : m.Underway) (hgoes : m.tick.outcome = none) :
    m.tick.machine.Underway := by
  have hfit : m.tick.machine.Fit := tick_fit h.fit (by rw [hgoes]; nofun)
  suffices hp : m.tick.machine.vm.main = m.vm.main ∧
      (m.vm.warmedUp = true → m.tick.machine.vm.warmedUp = true) from
    ⟨⟨hfit, hp.1 ▸ h.main⟩, hp.2 h.warm⟩
  cases hr : m.running with
  | none =>
    rw [tick_between hr] at hgoes ⊢
    unfold dispatch at hgoes ⊢
    split at hgoes
    · cases hgoes
    · exact ⟨rfl, fun h => h⟩
  | some task =>
    have hdeeds := program_of_deeds (Turn.deeds_advance (s := m.turn task) h.fit.tame)
    cases ha : (m.turn task).advance with
    | mk o s =>
      rw [ha] at hdeeds
      cases o with
      | none =>
        rw [tick_goes hr ha]
        exact hdeeds
      | some o =>
        rw [tick_ends hr ha] at hgoes ⊢
        have hover := s.over_endTurn o
        exact ⟨(hover.main hgoes).trans hdeeds.1,
          fun h => hover.resettles.warmedUp.trans (hdeeds.2 h)⟩

theorem Underway.pause (h : m.Underway) : m.pause.1.Underway := by
  have hmove : Move (fun _ => True) m [] m.pause.1 := .pause
  refine ⟨⟨hmove.fit h.fit, ?_⟩, ?_⟩
  · have hmain : m.pause.1.vm.main = m.vm.main := by
      unfold Machine.pause
      split <;> rfl
    exact hmain ▸ h.main
  · exact m.pause_resettles.warmedUp.trans h.warm

/-- Only a hook pauses a run. -/
theorem outcome_tick (m : Machine) (task : TaskId) (ip : Nat) :
    m.tick.outcome ≠ some (.paused task ip) := by
  cases hr : m.running with
  | none =>
    rw [Machine.tick, hr]
    dsimp only
    unfold dispatch
    split <;> rintro ⟨⟩
  | some t =>
    cases ha : (m.turn t).advance with
    | mk o s =>
      cases o with
      | none =>
        rw [tick_goes hr ha]
        rintro ⟨⟩
      | some o =>
        rw [tick_ends hr ha]
        exact (s.over_endTurn o).not_paused task ip

/-! ## What is left of a program -/

/-- What a program does from here on if it is run again after each pause: what hooks are asked
and told, how it ends, and the machine it leaves behind. -/
inductive Course : Machine → List Call → Outcome → Machine → Prop where
  | ended {m : Machine} {o : Outcome} (h : m.tick.outcome = some o) :
      Course m m.calls o m.tick.machine
  | goes {m m' : Machine} {calls : List Call} {o : Outcome} (h : m.tick.outcome = none)
      (hc : Course m.tick.machine calls o m') : Course m (m.calls ++ calls) o m'
  | resumed {m m' : Machine} {calls : List Call} {o : Outcome} {task : TaskId} {ip : Nat}
      {info : DebugInfo} (h : m.offer? = some (task, ip, info))
      (hc : Course m.pause.1 calls o m') :
      Course m (.offered task ip info false :: calls) o m'

/-- A tick as such does not pause. -/
theorem refused_calls (m : Machine) : ∀ c ∈ m.calls, c.refused? = none := by
  intro c hc
  rcases List.mem_append.mp hc with hc | hc
  · unfold question at hc
    split at hc
    · rw [List.mem_singleton.mp hc]
      rfl
    · cases hc
  · obtain ⟨e, -, rfl⟩ := List.mem_map.mp hc
    rfl

theorem Twin.calls (h : m.Twin m') : m'.calls = m.calls := by
  have ht := h.tick
  unfold Machine.calls question
  rw [h.offer, ht.events, ht.scene]

/-- Before a paused task goes on there is nothing to ask or to tell. -/
theorem calls_pause (h : m.Fit) (hr : m.running ≠ none) : m.pause.1.calls = [] := by
  obtain ⟨k, hk⟩ := tick_pause h hr
  unfold Machine.calls question
  rw [offer_pause hr, hk]
  rfl

theorem Course.first {calls : List Call} {o : Outcome} (hc : Course m calls o m')
    {task : TaskId} {ip : Nat} {info : DebugInfo} (ho : m.offer? = some (task, ip, info)) :
    ∃ go rest, calls = .offered task ip info go :: rest := by
  have hq : ∀ go, m.question go = [.offered task ip info go] := by
    intro go
    rw [question, ho]
  cases hc with
  | ended h => exact ⟨true, _, by rw [Machine.calls, hq]; rfl⟩
  | goes h hc => exact ⟨true, _, by rw [Machine.calls, hq]; rfl⟩
  | resumed h hc =>
    rw [ho] at h
    injection h with h
    injection h with hid h
    injection h with hip hinfo
    subst hid hip hinfo
    exact ⟨false, _, rfl⟩

/-- **What was refused is offered again first**, when a paused program goes on. -/
theorem Course.first_of_pause (h : m.Fit) {calls : List Call} {o : Outcome}
    (hc : Course m.pause.1 calls o m') {task : TaskId} {ip : Nat} {info : DebugInfo}
    (ho : m.offer? = some (task, ip, info)) :
    ∃ go rest, calls = .offered task ip info go :: rest := by
  obtain ⟨hne, -⟩ := offer_eq_some ho
  obtain ⟨k, hk⟩ := tick_pause h hne
  generalize hp : m.pause.1 = p at hc
  cases hc with
  | ended hend =>
    rw [← hp, hk] at hend
    cases hend
  | goes hgoes hc =>
    rw [← hp, hk] at hc
    rw [← hp, calls_pause h hne]
    exact hc.first ho
  | resumed hoffer hc =>
    rw [← hp, offer_pause hne] at hoffer
    cases hoffer

theorem Course.reoffered {calls : List Call} {o : Outcome} (hc : Course m calls o m') :
    m.Underway → Call.Reoffered calls := by
  induction hc with
  | @ended m o h =>
    intro _
    have hr : Call.Reoffered (m.calls ++ []) := Call.reoffered_append m.refused_calls trivial
    rwa [List.append_nil] at hr
  | @goes m m' calls o h hc ih =>
    exact fun hm => Call.reoffered_append m.refused_calls (ih (hm.tick h))
  | resumed h hc ih => exact fun hm => ⟨hc.first_of_pause hm.fit h, ih hm.pause⟩

/-! ## Going on without pauses -/

/-- One step of a run whose hook keeps a log. -/
theorem runFor_logged (hook : Hook σ) (s : σ) (log : List Call) (fuel : Nat) (m : Machine) :
    m.runFor (some hook.logged) (fuel + 1) (s, log) =
      match ask (some hook) s m with
      | (false, s) => some (m.pause.2, m.pause.1, s, log ++ m.question false)
      | (true, s) =>
        match m.tick.outcome with
        | some o => some (o, m.tick.machine, tell (some hook) s m.tick, log ++ m.calls)
        | none => m.tick.machine.runFor (some hook.logged) fuel
            (tell (some hook) s m.tick, log ++ m.calls) := by
  rw [runFor, ask_logged]
  cases ha : ask (some hook) s m with
  | mk go s' =>
    cases go with
    | false => rfl
    | true =>
      dsimp only
      rw [tell_logged, List.append_assoc]
      rfl

theorem ask_patient (m : Machine) : ask (some Hook.patient) () m = (true, ()) := by
  unfold ask
  dsimp only
  split <;> rfl

theorem runFor_patient (log : List Call) (fuel : Nat) (m : Machine) :
    m.runFor (some Hook.patient.logged) (fuel + 1) ((), log) =
      match m.tick.outcome with
      | some o => some (o, m.tick.machine, (), log ++ m.calls)
      | none => m.tick.machine.runFor (some Hook.patient.logged) fuel ((), log ++ m.calls) := by
  rw [runFor_logged, ask_patient]

/-- A machine, or the same with the turn taken back from its running task. -/
def Lags (m y : Machine) : Prop :=
  m.Twin y ∨ ∃ x : Machine, x.Underway ∧ x.running ≠ none ∧ m = x.pause.1 ∧ x.Twin y

/-- **Whatever a program does with pauses it does without**, and gets as far. A machine that
lags behind catches up with its next tick. -/
theorem Course.patient {calls : List Call} {o : Outcome} (hc : Course m calls o m') :
    m.Underway → ∀ (y : Machine) (log : List Call), m.Lags y →
    ∃ fuel m'', y.runFor (some Hook.patient.logged) fuel ((), log) =
      some (o, m'', (), log ++ Call.heeded calls) ∧ m'.Twin m'' := by
  induction hc with
  | @ended m o h =>
    intro hm y log hlags
    rcases hlags with htwin | ⟨x, hx, hr, rfl, -⟩
    · have ht := htwin.tick
      have hcalls : Call.heeded m.calls = y.calls := by
        have happend := Call.heeded_append m.refused_calls []
        rw [List.append_nil] at happend
        rw [happend, htwin.calls]
        exact List.append_nil _
      refine ⟨1, y.tick.machine, ?_, ht.machine⟩
      rw [runFor_patient, ht.outcome, h, hcalls]
    -- A machine that lags behind only takes up its task, and that is no end.
    · obtain ⟨k, hk⟩ := tick_pause hx.fit hr
      rw [hk] at h
      cases h
  | @goes m m' calls o h hc ih =>
    intro hm y log hlags
    rcases hlags with htwin | ⟨x, hx, hr, rfl, htwin⟩
    · have ht := htwin.tick
      obtain ⟨fuel, m'', hrun, hend⟩ := ih (hm.tick h) _ (log ++ y.calls) (.inl ht.machine)
      refine ⟨fuel + 1, m'', ?_, hend⟩
      rw [runFor_patient, ht.outcome, h, Call.heeded_append m.refused_calls, ← htwin.calls,
        ← List.append_assoc]
      exact hrun
    -- It has caught up then, without the patient machine having moved.
    · rw [calls_pause hx.fit hr, List.nil_append]
      exact ih (hm.tick h) y log (.inl ((twin_tick_pause hx.fit hr).trans htwin))
  | @resumed m m' calls o task ip info h hc ih =>
    intro hm y log hlags
    rcases hlags with htwin | ⟨x, hx, hr, rfl, -⟩
    · obtain ⟨hr, -⟩ := offer_eq_some h
      exact ih hm.pause y log (.inr ⟨m, hm, hr, rfl, htwin⟩)
    · rw [offer_pause hr] at h
      cases h

/-! ## Pauses in a row -/

/-- A program is paused at the given places one after the other, each time that it is run, and
nothing is done in between. -/
inductive Paused (hook : Hook σ) :
    Machine → σ → List (TaskId × Nat) → Machine → σ → Prop where
  | never {m : Machine} {s : σ} : Paused hook m s [] m s
  | next {m m₁ m' : Machine} {s s₁ s' : σ} {fuel : Nat} {task : TaskId} {ip : Nat}
      {pauses : List (TaskId × Nat)}
      (h : m.run (some hook) fuel s = some (.paused task ip, m₁, s₁))
      (hp : Paused hook m₁ s₁ pauses m' s') : Paused hook m s ((task, ip) :: pauses) m' s'

/-- A machine whose natives have been looked up. -/
def warmed (m : Machine) : Machine := { m with vm := m.vm.warmUp }

theorem Loaded.warmed (h : m.Loaded) : m.warmed.Underway := by
  have halike := Vm.warmUp_alike m.vm
  have hmove : Move (fun _ => True) m [] m.warmed :=
    .prepare h.fit.tame (Heap.Extends.refl _) halike rfl
  refine ⟨⟨hmove.fit h.fit, ?_⟩, ?_⟩
  · show m.vm.warmUp.main ≠ none
    rw [halike.main]
    exact h.main
  · show m.vm.warmUp.warmedUp = true
    unfold Vm.warmUp
    split
    · assumption
    · rfl

theorem Loaded.run_eq (h : m.Loaded) (hook : Option (Hook σ)) (fuel : Nat) (s : σ) :
    m.run hook fuel s = m.warmed.runFor hook fuel s := by
  obtain ⟨id, hid⟩ := Option.ne_none_iff_exists'.mp h.main
  rw [run, hid]
  rfl

theorem Underway.warmed_eq (h : m.Underway) : m.warmed = m := by
  rw [Machine.warmed, Vm.warmUp, if_pos h.warm]

/-- Running a program is a part of its course, and a log of it can be kept. -/
theorem runFor_course {hook : Hook σ} {o : Outcome} : ∀ {fuel : Nat} {m m' : Machine} {s s' : σ},
    m.Underway → m.runFor (some hook) fuel s = some (o, m', s') → ∀ log, ∃ calls,
    m.runFor (some hook.logged) fuel (s, log) = some (o, m', s', log ++ calls) ∧
    (((∀ task ip, o ≠ .paused task ip) ∧ calls.filterMap Call.refused? = [] ∧
        Course m calls o m') ∨
      ∃ task ip, o = .paused task ip ∧ calls.filterMap Call.refused? = [(task, ip)] ∧
        m'.Underway ∧ ∀ rest o' m'', Course m' rest o' m'' → Course m (calls ++ rest) o' m'')
  | 0, _, _, _, _, _, h => nomatch h
  | fuel + 1, m, m', s, s', hm, h => by
    intro log
    rw [runFor] at h
    rw [runFor_logged]
    -- A question comes before each tick.
    cases ha : ask (some hook) s m with
    | mk go s₁ =>
      rw [ha] at h
      cases go with
      -- Refusing pauses where the instruction is, and the rest of the course begins there.
      | false =>
        obtain ⟨task, ip, info, ho⟩ := offer_of_refused (by rw [ha])
        obtain ⟨-, hpause⟩ := offer_eq_some ho
        injection h with h
        injection h with hout h
        injection h with hmach hs
        subst hout hmach hs
        refine ⟨m.question false, rfl, .inr ⟨task, ip, hpause, ?_, hm.pause, ?_⟩⟩
        · rw [question, ho]
          rfl
        · intro rest o' m'' hc
          rw [question, ho]
          exact .resumed ho hc
      | true =>
        dsimp only at h ⊢
        cases hend : m.tick.outcome with
        | some o' =>
          rw [hend] at h
          injection h with h
          injection h with hout h
          injection h with hmach hs
          subst hout hmach hs
          refine ⟨m.calls, rfl, .inl ⟨fun task ip ho => ?_, ?_, .ended hend⟩⟩
          · exact m.outcome_tick task ip (by rw [hend, ho])
          · exact List.filterMap_eq_nil_iff.mpr m.refused_calls
        | none =>
          rw [hend] at h
          have hnone := List.filterMap_eq_nil_iff.mpr m.refused_calls
          obtain ⟨calls, hrun, hcourse⟩ := runFor_course (hm.tick hend) h (log ++ m.calls)
          rw [List.append_assoc] at hrun
          refine ⟨m.calls ++ calls, hrun, ?_⟩
          rw [List.filterMap_append, hnone, List.nil_append]
          rcases hcourse with ⟨ho, hrefused, hc⟩ | ⟨task, ip, ho, hrefused, hm', hc⟩
          · exact .inl ⟨ho, hrefused, .goes hend hc⟩
          · refine .inr ⟨task, ip, ho, hrefused, hm', fun rest o' m'' hrest => ?_⟩
            rw [List.append_assoc]
            exact .goes hend (hc rest o' m'' hrest)

/-- Pauses are part of a program's course. -/
theorem Paused.course {hook : Hook σ} {s s' : σ} {pauses : List (TaskId × Nat)}
    (hp : Paused hook m s pauses m' s') : m.Loaded → m'.Loaded ∧ ∀ log, ∃ calls,
    Paused hook.logged m (s, log) pauses m' (s', log ++ calls) ∧
    calls.filterMap Call.refused? = pauses ∧
    ∀ rest o m'', Course m'.warmed rest o m'' → Course m.warmed (calls ++ rest) o m'' := by
  induction hp with
  | never =>
    refine fun hm => ⟨hm, fun log => ⟨[], ?_, rfl, fun rest o m'' hc => hc⟩⟩
    rw [List.append_nil]
    exact .never
  | @next m m₁ m' s s₁ s' fuel task ip pauses h hp ih =>
    intro hm
    rw [hm.run_eq] at h
    have hcourse := runFor_course hm.warmed h
    refine ⟨?_, fun log => ?_⟩
    · obtain ⟨-, -, ⟨hnp, -⟩ | ⟨-, -, -, -, hm₁, -⟩⟩ := hcourse []
      · exact absurd rfl (hnp task ip)
      · exact (ih hm₁.toLoaded).1
    · obtain ⟨calls, hrun, ⟨hnp, -⟩ | ⟨task', ip', ho, hrefused, hm₁, hc⟩⟩ := hcourse log
      · exact absurd rfl (hnp task ip)
      · injection ho with htask hip
        subst htask hip
        obtain ⟨rest, hpaused, hrest, hc'⟩ := (ih hm₁.toLoaded).2 (log ++ calls)
        rw [List.append_assoc] at hpaused
        refine ⟨calls ++ rest, .next ((hm.run_eq _ _ _).trans hrun) hpaused, ?_, ?_⟩
        · rw [List.filterMap_append, hrefused, hrest]
          rfl
        · intro last o m'' hlast
          rw [List.append_assoc]
          refine hc _ o m'' ?_
          rw [← hm₁.warmed_eq]
          exact hc' last o m'' hlast

/-! ## Coming to an end -/

/-- Without pauses the program comes to an end. -/
inductive Halts : Machine → Prop where
  | now {m : Machine} {o : Outcome} (h : m.tick.outcome = some o) : Halts m
  | later {m : Machine} (h : m.tick.outcome = none) (hh : Halts m.tick.machine) : Halts m

theorem halts_of_patient : ∀ {fuel : Nat} {m : Machine} {r : Outcome × Machine × Unit},
    m.runFor (some Hook.patient) fuel () = some r → Halts m
  | 0, _, _, h => nomatch h
  | fuel + 1, m, r, h => by
    rw [runFor, ask_patient] at h
    dsimp only at h
    cases hend : m.tick.outcome with
    | some o => exact .now hend
    | none =>
      rw [hend] at h
      exact .later hend (halts_of_patient h)

/-- No hook notices that a machine which lags behind catches up. -/
theorem runFor_pause (h : m.Fit) (hr : m.running ≠ none) (hook : Hook σ) (fuel : Nat) (s : σ) :
    m.pause.1.runFor (some hook) (fuel + 1) s =
      m.pause.1.tick.machine.runFor (some hook) fuel s := by
  obtain ⟨k, hk⟩ := tick_pause h hr
  rw [runFor, ask, offer_pause hr, hk]
  rfl

theorem Halts.returns_of_twin {y : Machine} (hh : Halts y) (hook : Hook σ) : ∀ {m : Machine},
    m.Twin y → ∀ s, ∃ fuel r, m.runFor (some hook) fuel s = some r := by
  induction hh with
  | @now y o h =>
    intro m htwin s
    have hend := htwin.tick.outcome.symm.trans h
    cases ha : ask (some hook) s m with
    | mk go s₁ =>
      cases go with
      | false => exact ⟨1, _, by rw [runFor, ha]⟩
      | true => exact ⟨1, _, by rw [runFor, ha]; dsimp only; rw [hend]⟩
  | @later y h hh ih =>
    intro m htwin s
    have hgoes := htwin.tick.outcome.symm.trans h
    cases ha : ask (some hook) s m with
    | mk go s₁ =>
      cases go with
      | false => exact ⟨1, _, by rw [runFor, ha]⟩
      | true =>
        obtain ⟨fuel, r, hrun⟩ := ih htwin.tick.machine (tell (some hook) s₁ m.tick)
        refine ⟨fuel + 1, r, ?_⟩
        rw [runFor, ha]
        dsimp only
        rw [hgoes]
        exact hrun

/-- **No pause keeps a program from coming back.** -/
theorem Halts.returns {y : Machine} (hh : Halts y) (hlags : m.Lags y) (hook : Hook σ) (s : σ) :
    ∃ fuel r, m.runFor (some hook) fuel s = some r := by
  rcases hlags with htwin | ⟨x, hx, hr, rfl, htwin⟩
  · exact hh.returns_of_twin hook htwin s
  · obtain ⟨fuel, r, hrun⟩ :=
      hh.returns_of_twin hook ((twin_tick_pause hx.fit hr).trans htwin) s
    exact ⟨fuel + 1, r, (runFor_pause hx.fit hr hook fuel s).trans hrun⟩

/-- A program that is paused is behind one that still comes to its end. -/
theorem Halts.of_paused {hook : Hook σ} {task : TaskId} {ip : Nat} {m₁ : Machine} {s₁ : σ} :
    ∀ {fuel : Nat} {m y : Machine} {s : σ}, Halts y → m.Underway → m.Lags y →
    m.runFor (some hook) fuel s = some (.paused task ip, m₁, s₁) →
    ∃ y₁, m₁.Lags y₁ ∧ Halts y₁
  | 0, _, _, _, _, _, _, h => by cases h
  | fuel + 1, m, y, s, hh, hm, hlags, h => by
    rcases hlags with htwin | ⟨x, hx, hr, rfl, htwin⟩
    · rw [runFor] at h
      cases ha : ask (some hook) s m with
      | mk go s' =>
        rw [ha] at h
        cases go with
        | false =>
          obtain ⟨_, _, _, ho⟩ := offer_of_refused (by rw [ha])
          obtain ⟨hr, -⟩ := offer_eq_some ho
          injection h with h
          injection h with _ h
          injection h with hmach
          exact ⟨y, .inr ⟨m, hm, hr, hmach.symm, htwin⟩, hh⟩
        | true =>
          dsimp only at h
          cases hend : m.tick.outcome with
          | some o =>
            rw [hend] at h
            injection h with h
            injection h with ho
            exact absurd (ho ▸ hend) (m.outcome_tick task ip)
          | none =>
            rw [hend] at h
            cases hh with
            | now hy => cases hend.symm.trans (htwin.tick.outcome.symm.trans hy)
            -- Both machines tick.
            | later hy hh => exact hh.of_paused (hm.tick hend) (.inl htwin.tick.machine) h
    · have htick : x.pause.1.tick.machine.Underway := by
        refine hm.tick ?_
        obtain ⟨k, hk⟩ := tick_pause hx.fit hr
        rw [hk]
      rw [runFor_pause hx.fit hr] at h
      exact hh.of_paused htick (.inl ((twin_tick_pause hx.fit hr).trans htwin)) h

theorem Halts.of_pauses {hook : Hook σ} {s s' : σ} {pauses : List (TaskId × Nat)}
    (hp : Paused hook m s pauses m' s') : m.Loaded → ∀ y, m.warmed.Lags y → Halts y →
    ∃ y', m'.warmed.Lags y' ∧ Halts y' := by
  induction hp with
  | never => exact fun _ y hlags hh => ⟨y, hlags, hh⟩
  | @next m m₁ m' s s₁ s' fuel task ip pauses h hp ih =>
    intro hm y hlags hh
    rw [hm.run_eq] at h
    obtain ⟨-, -, ⟨hnp, -⟩ | ⟨-, -, -, -, hm₁, -⟩⟩ := runFor_course hm.warmed h []
    · exact absurd rfl (hnp task ip)
    · obtain ⟨y₁, hlags₁, hh₁⟩ := hh.of_paused hm.warmed hlags h
      exact ih hm₁.toLoaded y₁ (by rwa [hm₁.warmed_eq]) hh₁

/-- **Pausing is transparent.** Let a program be paused any number of times, and be run again
each time with nothing done in between. The last run comes back if the program comes to an end
without pauses. When it is not paused any more, a hook that never pauses makes the program come
to the same end in one run, and the machine it leaves behind differs in the count of turns at
most: heap, globals, output, the stages of tasks and the count of instructions are the same.
What the hook is asked and told is the same except for the instructions it did not let pass, and
each of these is the first that is offered when the program goes on. -/
theorem Run.pauses_transparent {hosts : Array HostFunction} (ht : ∀ f ∈ hosts, f.Tame) {h : Heap}
    {id : VmId} {config : VmConfig} {dice : Dice} {hist : List Act}
    (hr : Run ok (create hosts h id config dice) hist m) {hook : Hook σ} {s s₁ : σ}
    {pauses : List (TaskId × Nat)} {m₁ : Machine} (hp : Paused hook m s pauses m₁ s₁) :
    (∀ fuel o m' s', m₁.run (some hook) fuel s₁ = some (o, m', s') →
      (∀ task ip, o ≠ .paused task ip) → ∃ log₁ log fuel' m'',
        Paused hook.logged m (s, []) pauses m₁ (s₁, log₁) ∧
        m₁.run (some hook.logged) fuel (s₁, log₁) = some (o, m', s', log) ∧
        log.filterMap Call.refused? = pauses ∧ Call.Reoffered log ∧
        m.run (some Hook.patient.logged) fuel' ((), []) = some (o, m'', (), Call.heeded log) ∧
        m'.Twin m'') ∧
    ∀ fuel r, m.run (some Hook.patient) fuel () = some r →
      ∃ fuel' r', m₁.run (some hook) fuel' s₁ = some r' := by
  by_cases hmain : m.vm.main = none
  · -- without a program there is nothing to run
    have hidle : ∀ {τ : Type} (hook : Option (Hook τ)) fuel s,
        m.run hook fuel s = some (.complete .nil, m, s) := by
      intro τ hook fuel s
      rw [run, hmain]
    cases hp with
    | never =>
      refine ⟨fun fuel o m' s' hend _ => ?_, fun _ _ _ => ⟨0, _, hidle _ _ _⟩⟩
      rw [hidle] at hend
      injection hend with hend
      injection hend with ho hend
      injection hend with hmach hs
      subst ho hmach hs
      exact ⟨[], [], 0, m, .never, hidle _ _ _, rfl, trivial, hidle _ _ _, Twin.refl m⟩
    | next hpaused _ =>
      rw [hidle] at hpaused
      cases hpaused
  · have hm : m.Loaded := ⟨hr.fit (create_fit ht h id config dice), hmain⟩
    obtain ⟨hm₁, hcourse⟩ := hp.course hm
    refine ⟨fun fuel o m' s' hend ho => ?_, fun fuel r hpatient => ?_⟩
    · obtain ⟨log₁, hpaused, hrefused₁, hc₁⟩ := hcourse []
      rw [hm₁.run_eq] at hend
      obtain ⟨calls, hlast, ⟨-, hrefused, hc⟩ | ⟨task, ip, hp, -⟩⟩ :=
        runFor_course hm₁.warmed hend log₁
      -- All runs together are one course, and that has a patient run beside it.
      · have hwhole := hc₁ calls o m' hc
        obtain ⟨fuel', m'', hpatient, htwin⟩ :=
          hwhole.patient hm.warmed m.warmed [] (.inl (Twin.refl _))
        rw [List.nil_append] at hpaused hpatient
        refine ⟨log₁, log₁ ++ calls, fuel', m'', hpaused, ?_, ?_, hwhole.reoffered hm.warmed, ?_,
          htwin⟩
        · rw [hm₁.run_eq]
          exact hlast
        · rw [List.filterMap_append, hrefused₁, hrefused, List.append_nil]
        · rw [hm.run_eq]
          exact hpatient
      · exact absurd hp (ho task ip)
    · rw [hm.run_eq] at hpatient
      obtain ⟨y, hlags, hhalts⟩ :=
        Halts.of_pauses hp hm m.warmed (.inl (Twin.refl _)) (halts_of_patient hpatient)
      obtain ⟨fuel', r', hrun⟩ := hhalts.returns hlags hook s₁
      exact ⟨fuel', r', (hm₁.run_eq _ _ _).trans hrun⟩

/-- A program that prints something and returns something else. -/
def negation : Heap where
  chunks := #[{ code := assemble [(.pushTrue, []), (.dup, []), (.print, []), (.not, []),
    (.ret, [])] }]

/-- A debugger with breakpoints before the printing and after it. -/
def watched : Recorder Value := { breakpoints := [(0, 2), (0, 3)] }

/-- Both breakpoints are met, and yet the program prints and returns what it does without. -/
theorem negation_pauses : ∃ hist m m₁ s₁ fuel m' s' fuel' log m'',
    Run (fun _ => True) (create #[] negation 0 {} {}) hist m ∧
    Paused (Recorder.hook fun _ v => v) m watched [(0, 2), (0, 3)] m₁ s₁ ∧
    m₁.run (some (Recorder.hook fun _ v => v)) fuel s₁ = some (.complete (.bool false), m', s') ∧
    m.run (some Hook.patient.logged) fuel' ((), []) = some (.complete (.bool false), m'', (), log) ∧
    m'.Twin m'' ∧ m'.heap.sinks = #[#["true"]] ∧ m''.heap.sinks = #[#["true"]] := by
  let hook : Hook (Recorder Value) := Recorder.hook fun _ v => v
  let m := ((create #[] negation 0 {} {}).load 0).2
  have hrun : ((m.run (some hook) 9 watched).any fun r =>
      decide (r.1 = .paused 0 2) && (r.2.1.run (some hook) 9 r.2.2).any fun r =>
        decide (r.1 = .paused 0 3) && (r.2.1.run (some hook) 9 r.2.2).any fun r =>
          decide (r.1 = .complete (.bool false)) && decide (r.2.1.heap.sinks = #[#["true"]])) =
      true := by
    decide +kernel
  obtain ⟨⟨o, m₁, s₁⟩, h₁, hrun⟩ := (Option.any_eq_true _ _).mp hrun
  obtain ⟨ho, hrun⟩ := Bool.and_eq_true_iff.mp hrun
  obtain ⟨⟨o₂, m₂, s₂⟩, h₂, hrun⟩ := (Option.any_eq_true _ _).mp hrun
  obtain ⟨ho₂, hrun⟩ := Bool.and_eq_true_iff.mp hrun
  obtain ⟨⟨o', m', s'⟩, h', hrun⟩ := (Option.any_eq_true _ _).mp hrun
  obtain ⟨ho', hsinks⟩ := Bool.and_eq_true_iff.mp hrun
  have ho : o = .paused 0 2 := of_decide_eq_true ho
  have ho₂ : o₂ = .paused 0 3 := of_decide_eq_true ho₂
  have ho' : o' = .complete (.bool false) := of_decide_eq_true ho'
  have hprinted : m'.heap.sinks = #[#["true"]] := of_decide_eq_true hsinks
  subst ho ho₂ ho'
  have hr : Run (fun _ => True) (create #[] negation 0 {} {}) _ m := Run.refl.tail (.load rfl 0)
  have hp : Paused hook m watched [(0, 2), (0, 3)] m₂ s₂ := .next h₁ (.next h₂ .never)
  obtain ⟨log₁, log, fuel', m'', -, -, -, -, hpatient, htwin⟩ :=
    (Run.pauses_transparent (by simp) hr hp).1 9 _ m' s' h' nofun
  refine ⟨_, m, m₂, s₂, 9, m', s', fuel', _, m'', hr, hp, h', hpatient, htwin, hprinted, ?_⟩
  obtain ⟨k, rfl⟩ := htwin
  exact hprinted

end Machine

end TaskVm
