import TaskVm.Proofs.CallEvents

/-!
# Errors from events

When an instruction fails, a debugger is told of the error once, and before anything is done about
it: frames are left, a handler is entered or the task comes to its end only then. Nothing else is
told to be an error.

There is another way to come to an error. A task that is parked on a channel fails when the channel
is closed, and throws the error when it has its turn again. Of this a debugger is not told, so runs
in which it happens are left out.
-/

namespace TaskVm

open Exec Relation

/-- The error that is told of, with its task. -/
def Event.error? : Event → Option (TaskId × RuntimeError)
  | .raised task e => some (task, e)
  | _ => none

/-- The error that a debugger has come to know of. -/
def Notice.error? : Notice → Option (TaskId × RuntimeError)
  | .loaded _ => none
  | .told e => e.error?

theorem Notice.errors_told (es : List Event) :
    (es.map Notice.told).filterMap error? = es.filterMap Event.error? := List.filterMap_map

namespace Turn

variable {doing : Opcode → Prop} {s s₀ s' : Turn} {x : Exec Flow} {e : RuntimeError}

/-- More has been told, but of no error. -/
def Untroubled (s s' : Turn) : Prop :=
  ∃ es, s'.events = s.events ++ es ∧ ∀ e ∈ es, e.error? = none

theorem Untroubled.of_eq (h : s'.events = s.events) : s.Untroubled s' :=
  ⟨[], by rw [h, List.append_nil], nofun⟩

theorem Untroubled.of_one {e : Event} (h : s'.events = s.events ++ [e]) (he : e.error? = none) :
    s.Untroubled s' := ⟨_, h, fun _ he' => List.mem_singleton.mp he' ▸ he⟩

/-- No error is told of while nothing has failed. -/
theorem Stirs.untroubled (h : s.Stirs doing s') : s.Untroubled s' := by
  cases h with
  | calm h => exact .of_eq h.events
  | protects _ h => exact .of_eq h.events
  | reserves h => exact .of_eq h.events
  | enters _ _ _ h => exact .of_one h.events rfl
  | spawns _ h => exact .of_one h.events rfl
  | leaves h =>
    obtain ⟨f, callers, v, -, -, hevents⟩ := h.left
    exact .of_one hevents rfl

/-- Nor while a throw looks for its handler. -/
theorem Unwinds.untroubled (h : s.Unwinds s') : s.Untroubled s' := by
  obtain ⟨n, v, hevents, -⟩ := h.left
  refine ⟨_, hevents, fun e he => ?_⟩
  obtain ⟨f, -, rfl⟩ := List.mem_map.mp he
  rfl

theorem Untroubled.errors (h : s.Untroubled s') :
    s'.events.filterMap Event.error? = s.events.filterMap Event.error? := by
  obtain ⟨es, hevents, hes⟩ := h
  rw [hevents, List.filterMap_append, List.filterMap_eq_nil_iff.mpr hes, List.append_nil]

/-- The error that the running task comes to next. The operation that it has been parked on has
failed, or what it does next fails. -/
def error? (s : Turn) : Option RuntimeError :=
  match s.task.resume with
  | some (.error e) => some e
  | _ => s.action.bind fun a =>
    match a.2 a.1 with
    | .error (.raised e) _ => some e
    | _ => none

/-- The task does not come to know next that what it has been parked on has failed. -/
def prompt (s : Turn) : Bool :=
  match s.task.resume with
  | some (.error _) => false
  | _ => true

/-- An error has been told of, after nothing but calls and returns, and what comes of it comes
after that: a handler is looked for, or the task fails because nobody survives the error. -/
structure Reports (s : Turn) (e : RuntimeError) : Prop where
  reported : ∃ s' calls, s'.events = calls ++ [.raised s.task.id e] ∧
    (∀ c ∈ calls, c.error? = none) ∧
    s.advance =
      if e.isFatal then (some (.failed ⟨e, s'.task.trace s'.heap⟩), s') else s'.unwind (.error e)

theorem error?_of_prompt (h : s.prompt = true) : s.error? = s.action.bind fun a =>
    match a.2 a.1 with
    | .error (.raised e) _ => some e
    | _ => none := by
  unfold prompt at h
  unfold error?
  split at h
  · cases h
  · rfl

theorem follow_untroubled (s : Turn) (flow : Flow) : s.Untroubled (s.follow flow).2 := by
  cases flow with
  | thrown v => exact (s.unwind_unwinds v).untroubled
  | _ => exact .of_eq rfl

/-- **An error is told of before anything is done about it**, and it is the only one. -/
theorem advance_reports (h : s.prompt = true) (hs : s.events = []) :
    s.advance.2.events.filterMap Event.error? = (s.error?.map (s.task.id, ·)).toList ∧
      ∀ e, s.error? = some e → s.Reports e := by
  have hnone : s.events.filterMap Event.error? = [] := by rw [hs]; rfl
  rw [error?_of_prompt h]
  cases ha : s.action with
  | none =>
    rw [advance_done ha]
    exact ⟨hnone, by rintro _ ⟨⟩⟩
  | some a =>
    obtain ⟨s₀, x⟩ := a
    have hstirs := stirs_action ha
    have hquiet := hstirs.untroubled
    rw [advance_action ha, Option.bind_some, perform]
    dsimp only
    cases hx : x s₀ with
    | ok flow s' =>
      rw [endState_ok hx] at hquiet
      refine ⟨?_, by rintro _ ⟨⟩⟩
      exact (follow_untroubled s' flow).errors.trans (hquiet.errors.trans hnone)
    | error fault s' =>
      rw [endState_error hx] at hquiet
      cases fault with
      | endless => exact ⟨hquiet.errors.trans hnone, by rintro _ ⟨⟩⟩
      | raised e =>
        obtain ⟨calls, hevents, hcalls⟩ := hquiet
        rw [hs, List.nil_append] at hevents
        have hid : s'.task.id = s.task.id := (endState_error hx ▸ hstirs).id
        -- The report stands right behind the calls of this step, before the handler is looked for,
        -- so an error that is caught is reported as well.
        let s'' : Turn := { s' with events := calls ++ [.raised s.task.id e] }
        have hrecover : s'.recover (.raised e) =
            if e.isFatal then (some (.failed ⟨e, s''.task.trace s''.heap⟩), s'')
            else s''.unwind (.error e) := by
          rw [recover, hevents, hid]
        have hreported : s''.events.filterMap Event.error? = [(s.task.id, e)] := by
          show (calls ++ [Event.raised s.task.id e]).filterMap Event.error? = _
          rw [List.filterMap_append, List.filterMap_eq_nil_iff.mpr hcalls]
          rfl
        refine ⟨?_, fun e' he' => ?_⟩
        · show (s'.recover (.raised e)).2.events.filterMap Event.error? = _
          rw [hrecover]
          split
          · exact hreported
          · exact (s''.unwind_unwinds _).untroubled.errors.trans hreported
        · obtain rfl : e = e' := Option.some.inj he'
          refine ⟨s'', calls, rfl, hcalls, ?_⟩
          rw [advance_action ha, perform, hx]
          exact hrecover

end Turn

namespace Machine

variable {ok : Machine → Prop} {m m' m₀ : Machine} {ms : List Machine} {log : List Notice}

/-- The errors that the next tick comes to, with their task. There is at most one. -/
def errors (m : Machine) : List (TaskId × RuntimeError) :=
  match m.running with
  | some task => ((m.turn task).error?.map (task.id, ·)).toList
  | none => []

/-- No task comes to know with the next tick that what it has been parked on has failed. -/
def prompt (m : Machine) : Bool := m.running.all fun task => (m.turn task).prompt

/-- **A tick tells of its error**, and of no other. -/
theorem tick_reports (h : m.prompt = true) :
    m.tick.events.filterMap Event.error? = m.errors ∧
      ∀ task e, m.running = some task → (m.turn task).error? = some e →
        (m.turn task).Reports e := by
  cases hr : m.running with
  | none =>
    rw [tick_between hr, dispatch_events, errors, hr]
    exact ⟨rfl, by rintro _ _ ⟨⟩⟩
  | some task =>
    have hprompt : (m.turn task).prompt = true := by
      unfold prompt at h
      rwa [hr] at h
    obtain ⟨hall, hfirst⟩ := Turn.advance_reports hprompt rfl
    rw [tick_events hr, errors, hr]
    refine ⟨hall, fun task' e htask he => ?_⟩
    obtain rfl : task = task' := Option.some.inj htask
    exact hfirst e he

/-- **Errors can be told from events.** A debugger is told of all errors that tasks have come to, of
each of them once, in the order they have come in, and of nothing else as an error. Each is told
before anything is done about it. -/
theorem Heard.reports_errors (hrun : Heard (prompt · = true) m₀ ms log m) :
    log.filterMap Notice.error? = ms.flatMap errors ∧
    ∀ m ∈ ms, m.tick.events.filterMap Event.error? = m.errors ∧
      ∀ task e, m.running = some task → (m.turn task).error? = some e →
        (m.turn task).Reports e := by
  induction hrun with
  | refl => exact ⟨rfl, fun m hm => absurd hm List.not_mem_nil⟩
  | @tick ms log m _ hok _ ih =>
    have htick := tick_reports hok
    refine ⟨?_, fun m' hm' => ?_⟩
    · rw [List.filterMap_append, List.flatMap_append, ih.1, Notice.errors_told, htick.1,
        List.flatMap_singleton]
    · rcases List.mem_append.mp hm' with hm' | hm'
      · exact ih.2 m' hm'
      · exact List.mem_singleton.mp hm' ▸ htick
  | load _ hr chunk ih =>
    refine ⟨?_, ih.2⟩
    rw [List.filterMap_append, ih.1]
    exact List.append_nil _
  | pause _ ih => exact ih
  | prepare _ _ _ _ _ ih => exact ih

/-- A variable is looked up that there is not. -/
def lookup : Heap where
  chunks := #[
    { code := assemble [(.tryBegin, [0, 4]), (.getGlobal, [0, 0]), (.tryEnd, []), (.ret, [])]
      constants := #[.string "x"] }]

/-- The lookup fails, and the handler is entered when this has been told. -/
theorem lookup_reported : ∃ ms log m₁ task, Heard (prompt · = true) (create #[] lookup 0 {} {})
    ms log m₁ ∧ log.filterMap Notice.error? = [(0, .undefinedVariable "x")] ∧
    log.filterMap Notice.error? = ms.flatMap errors ∧
    ∃ m ∈ ms, m.running = some task ∧ (m.turn task).error? = some (.undefinedVariable "x") ∧
      (m.turn task).Reports (.undefinedVariable "x") := by
  have hrun : ((hearFor prompt 3 ((create #[] lookup 0 {} {}).load 0).2 [] [.loaded 0]).any
      fun r => decide (r.2.1.filterMap Notice.error? = [(0, .undefinedVariable "x")]) &&
        r.1.any fun m => m.running.any fun task =>
          decide ((m.turn task).error? = some (.undefinedVariable "x"))) = true := by
    decide +kernel
  obtain ⟨⟨ms, log, m₁⟩, hticks, hp⟩ := (Option.any_eq_true _ _).mp hrun
  obtain ⟨hlog, hp⟩ := Bool.and_eq_true_iff.mp hp
  obtain ⟨m, hm, hp⟩ := List.any_eq_true.mp hp
  obtain ⟨task, htask, he⟩ := (Option.any_eq_true _ _).mp hp
  have hheard := heard_of_hearFor (Heard.refl.load rfl 0) hticks
  obtain ⟨hall, hfirst⟩ := Heard.reports_errors hheard
  exact ⟨ms, log, m₁, task, hheard, of_decide_eq_true hlog, hall, m, hm, htask,
    of_decide_eq_true he, (hfirst m hm).2 task _ htask (of_decide_eq_true he)⟩

/-- A channel is closed while a task is parked on it that wants to send. -/
def spurned : Heap where
  closures := #[{ template := 0 }]
  templates := #[{ name := "sender", chunk := 1 }]
  channels := #[.ofCapacity 0]
  chunks := #[
    { code := assemble [(.constant, [0, 0]), (.spawn, [0]), (.yield, []), (.constant, [0, 1]),
        (.channelClose, []), (.yield, []), (.pushNil, []), (.ret, [])]
      constants := #[.closure 0, .channel 0] },
    { code := assemble [(.constant, [0, 0]), (.pushNil, []), (.channelSend, []), (.ret, [])]
      constants := #[.channel 0] }]

/-- The sender comes to know of it and fails, and nothing is told. -/
theorem spurned_unreported : ∃ ms log m,
    Heard (fun _ => True) (create #[] spurned 0 {} {}) ms log m ∧
    ms.flatMap errors = [(1, .channelClosed)] ∧ log.filterMap Notice.error? = [] := by
  have hrun : ((hearFor (fun _ => true) 15 ((create #[] spurned 0 {} {}).load 0).2 []
      [.loaded 0]).any fun r => decide (r.1.flatMap errors = [(1, .channelClosed)]) &&
        decide (r.2.1.filterMap Notice.error? = [])) = true := by
    decide +kernel
  obtain ⟨⟨ms, log, m⟩, hticks, hp⟩ := (Option.any_eq_true _ _).mp hrun
  obtain ⟨herrors, hlog⟩ := Bool.and_eq_true_iff.mp hp
  have hheard : Heard (fun _ => true = true) (create #[] spurned 0 {} {}) ms log m :=
    heard_of_hearFor (Heard.refl.load rfl 0) hticks
  exact ⟨ms, log, m, hheard.mono fun _ _ => trivial, of_decide_eq_true herrors,
    of_decide_eq_true hlog⟩

end Machine

end TaskVm
