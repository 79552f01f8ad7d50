import TaskVm.Proofs.Balance
import TaskVm.Proofs.ErrorEvents

/-!
# Limits

No task has more frames than there may be, and no task has more operands, but for the one that a
throw leaves on a stack that is full: a handler begins with it.

Operands are not checked everywhere. The locals of a main chunk are there without a check, and so
is what a wait has come to. With one operand too many, a handler may begin with a call that ends
without a return, or with a handler of its own, and neither is checked. What goes by in these ways
is left out here.
-/

namespace TaskVm

open Exec Relation

/-- A task is about to execute the first instruction of its innermost handler, with the thrown
value on top of the operands that the handler goes back to. -/
def Task.AtHandler (t : Task) : Prop := ∃ hd rest, t.handlers = hd :: rest ∧
  t.frames.length = hd.frameDepth ∧ t.ip = hd.target ∧ t.stack.size = hd.stackDepth + 1

/-- All frames but the first one have room for what they return. -/
def Task.Returns (room : Nat) (t : Task) : Prop := ∀ e ∈ t.entries.dropLast, e.2 < room

/-- A task is within its limits, and so is what its handlers and its frames go back to. -/
structure Task.Within (config : VmConfig) (t : Task) : Prop where
  frames : t.frames.length ≤ config.maxFrames
  stack : t.stack.size ≤ config.stackCapacity ∨
    t.stack.size = config.stackCapacity + 1 ∧ t.AtHandler
  handlers : ∀ hd ∈ t.handlers, hd.stackDepth ≤ config.stackCapacity
  returns : t.Returns config.stackCapacity

theorem Task.Returns.of_single {room : Nat} {t : Task} {e : ClosureId × Nat}
    (h : t.entries = [e]) : t.Returns room := by
  rw [Task.Returns, h]
  nofun

/-- Frames may be left. -/
theorem Task.Returns.drop {room n : Nat} {t t' : Task} (h : t.Returns room)
    (he : t'.entries = t.entries.drop n) : t'.Returns room := by
  intro e hmem
  rw [he, List.dropLast_eq_take, List.length_drop, Nat.sub_right_comm, ← List.drop_take,
    ← List.dropLast_eq_take] at hmem
  exact h e (List.mem_of_mem_drop hmem)

/-- What others do to a task is of no concern to its limits. -/
theorem Task.Within.rests {config : VmConfig} {written : Nat → Prop} {t t' : Task}
    (h : t.Within config) (hr : t.Rests written t') : t'.Within config where
  frames := by rw [hr.frames]; exact h.frames
  stack := by
    rw [hr.size]
    refine h.stack.imp_right fun ⟨hsize, hd, rest, hh, hframes, hip, hdepth⟩ => ⟨hsize, ?_⟩
    refine ⟨hd, rest, hr.handlers.trans hh, ?_, ?_, hr.size.trans hdepth⟩
    · rw [hr.frames, hframes]
    · rw [← hip, Task.ip, hr.frames, Task.ip]
  handlers := by rw [hr.handlers]; exact h.handlers
  returns := h.returns.drop (n := 0) hr.entries

namespace Turn

variable {doing : Opcode → Prop} {limits : VmConfig} {s s₀ s' : Turn} {x : Exec Flow}
  {c : ClosureId}

theorem Begins.within {id : TaskId} {t : Task} (h : Begins c id limits t) : t.Within limits := by
  obtain ⟨base, hentries⟩ := h.entries
  refine ⟨?_, .inl h.room, ?_, .of_single hentries⟩
  · rw [← Task.entries_length, hentries]
    exact h.frames
  · rw [h.handlers]
    nofun

theorem Stirs.config (h : s.Stirs doing s') : s'.vm.config = s.vm.config := by
  cases h with
  | calm h | reserves h | leaves h => exact h.config
  | enters _ _ _ h | spawns _ h | protects _ h => exact h.config

/-- Frames are entered only where there may be one more. -/
theorem Stirs.frames_le (h : s.Stirs doing s')
    (hs : s.task.frames.length ≤ s.vm.config.maxFrames) :
    s'.task.frames.length ≤ s.vm.config.maxFrames := by
  have hsame : s'.task.entries = s.task.entries →
      s'.task.frames.length ≤ s.vm.config.maxFrames := fun hf => by
    rw [← Task.entries_length, hf, Task.entries_length]
    exact hs
  cases h with
  | calm h | reserves h => exact hsame h.entries
  | spawns _ h | protects _ h => exact hsame h.entries
  | enters _ _ _ h =>
    rw [← Task.entries_length, h.entries, List.length_cons, Task.entries_length]
    exact h.frames
  | leaves h =>
    obtain ⟨f, callers, v, hf, hentries, -⟩ := h.left
    rw [← Task.entries_length, hentries, List.length_map]
    rw [hf, List.length_cons] at hs
    exact Nat.le_of_succ_le hs

/-- A frame that is entered leaves room for a result, which takes the place of the closure. -/
theorem Stirs.returns (h : s.Stirs doing s') {room : Nat} (hs : s.task.Returns room)
    (hcall : doing .call → s.task.stack.size ≤ room) : s'.task.Returns room := by
  cases h with
  | calm h | reserves h => exact hs.drop (n := 0) h.entries
  | spawns _ h | protects _ h => exact hs.drop (n := 0) h.entries
  | @enters c base hd _ hb h =>
    intro e he
    rw [h.entries] at he
    cases hold : s.task.entries with
    | nil =>
      rw [hold] at he
      cases he
    | cons =>
      rw [hold, List.dropLast_cons_cons] at he
      rcases List.mem_cons.mp he with rfl | he
      · exact Nat.lt_of_lt_of_le hb (hcall hd)
      · exact hs e (hold ▸ he)
  | leaves h =>
    obtain ⟨f, callers, v, hf, hentries, -⟩ := h.left
    refine hs.drop (n := 1) ?_
    rw [hentries, Task.entries, hf]
    rfl

/-- A handler that is registered is for the operands there are. -/
theorem Stirs.handlers_le (h : s.Stirs doing s') {room : Nat}
    (hs : ∀ hd ∈ s.task.handlers, hd.stackDepth ≤ room)
    (htry : doing .tryBegin → s.task.stack.size ≤ room) :
    ∀ hd ∈ s'.task.handlers, hd.stackDepth ≤ room := by
  intro hd hhd
  cases h with
  | calm h | reserves h | leaves h => exact hs hd (h.handlers.subset hhd)
  | enters _ _ _ h | spawns _ h => exact hs hd (h.handlers.subset hhd)
  | protects ht h =>
    obtain ⟨new, hnew, hdepth⟩ := h.handlers
    rw [hnew] at hhd
    rcases List.mem_cons.mp hhd with rfl | hold
    · exact hdepth ▸ htry ht
    · exact hs hd hold

/-! ## What goes by without a check -/

/-- The result that the running task picks up has room on its stack, and a call or a handler does
not begin with more operands than there may be. -/
def checked (s : Turn) : Bool :=
  match s.task.resume with
  | some r => (endState (resumeWith r) s).task.stack.size ≤ s.vm.config.stackCapacity
  | none =>
    match fetch s with
    | .ok .call _ | .ok .tryBegin _ => s.task.stack.size ≤ s.vm.config.stackCapacity
    | _ => true

/-- The turn goes on, or the task is to have another one. -/
def stays : Option TurnEnd → Bool
  | none | some .blocked | some .yielded => true
  | _ => false

/-- What is true of the running task before anything is thrown. -/
structure Fits (limits : VmConfig) (s : Turn) : Prop where
  upright : s.Upright
  frames : s.task.frames.length ≤ limits.maxFrames
  handlers : ∀ hd ∈ s.task.handlers, hd.stackDepth ≤ limits.stackCapacity
  returns : s.task.Returns limits.stackCapacity

/-- **A throw that is caught** leaves at most one operand too many, at the beginning of a
handler. -/
theorem Fits.unwind (h : s.Fits limits) (v : Value) (hstays : stays (s.unwind v).1 = true) :
    (s.unwind v).2.task.Within limits := by
  cases hh : s.task.handlers with
  | nil =>
    unfold Turn.unwind at hstays
    rw [hh] at hstays
    cases hstays
  | cons hd rest =>
    obtain ⟨hhandlers, -⟩ := s.unwind_handlers v
    obtain ⟨-, f, callers, hf, -, hframes⟩ := Turn.unwind_resumes h.upright.running hh v
    have hreg := (h.upright.running.registered hd (hh ▸ List.mem_cons_self)).depth
    have hroom := h.handlers hd (hh ▸ List.mem_cons_self)
    have hlength : (s.unwind v).2.task.frames.length = hd.frameDepth := by
      have hdrop := congrArg List.length hf
      rw [List.length_drop, List.length_cons] at hdrop
      rw [hframes, List.length_cons, ← hdrop]
      omega
    have hstack : (s.unwind v).2.task.stack.size = min hd.stackDepth s.task.stack.size + 1 := by
      rw [(Turn.unwind_stacks hh v).1, Array.size_push, Array.take_eq_extract,
        Array.size_extract, Nat.sub_zero]
    obtain ⟨n, _, -, hentries⟩ := (s.unwind_unwinds v).left
    refine ⟨?_, ?_, ?_, h.returns.drop hentries⟩
    · rw [hlength]
      exact Nat.le_trans hreg.2 h.frames
    · by_cases hfull : (s.unwind v).2.task.stack.size ≤ limits.stackCapacity
      · exact .inl hfull
      · refine .inr ⟨by omega, hd, rest, hhandlers.trans hh, hlength, ?_, by omega⟩
        rw [Task.ip, hframes]
    · rw [hhandlers]
      exact h.handlers

/-- What is left after an action, if it has left no more operands than there may be where it has
not failed. -/
theorem Fits.perform (h : (endState x s).Fits limits)
    (hok : ∀ flow s', x s = .ok flow s' → (∃ v, flow = .done v) ∨
      s'.task.stack.size ≤ limits.stackCapacity)
    (hstays : stays (s.perform x).1 = true) : (s.perform x).2.task.Within limits := by
  unfold Turn.perform at hstays ⊢
  cases hx : x s with
  | ok flow s' =>
    rw [endState_ok hx] at h
    rw [hx] at hstays
    rcases hok flow s' hx with ⟨v, rfl⟩ | hroom
    · cases hstays
    · have hin : s'.task.Within limits := ⟨h.frames, .inl hroom, h.handlers, h.returns⟩
      cases flow with
      | thrown v => exact h.unwind v hstays
      | next | block | yield => exact hin
      | done v => cases hstays
  | error fault s' =>
    rw [endState_error hx] at h
    rw [hx] at hstays
    cases fault with
    | endless => cases hstays
    | raised e =>
      dsimp only [recover] at hstays ⊢
      split at hstays
      · cases hstays
      · rename_i hfatal
        rw [if_neg hfatal]
        have hraised : Fits limits { s' with events := s'.events ++ [.raised s'.task.id e] } :=
          ⟨⟨h.upright.running, h.upright.held⟩, h.frames, h.handlers, h.returns⟩
        exact hraised.unwind _ hstays

/-- An instruction that has not failed has passed the check. -/
theorem step_room {flow : Flow} (h : step s = .ok flow s') :
    s'.task.stack.size ≤ s'.vm.config.stackCapacity := by
  obtain ⟨flow', s₁, -, h⟩ := bind_eq_ok.mp h
  rw [get_bind_apply] at h
  split at h
  · cases h
  · rename_i hroom
    obtain ⟨-, rfl⟩ := EStateM.Result.ok.inj h
    exact Nat.le_of_not_lt hroom

/-- What code returns at its end has room where there is a caller. -/
theorem leaveFrame_room {room : Nat} {v : Value} {flow : Flow} (hs : s.task.Returns room)
    (h : leaveFrame v s = .ok flow s') {f : Frame} {callers : List Frame}
    (hf : s.task.frames = f :: callers) :
    (∃ w, flow = .done w) ∨ s'.task.stack.size ≤ room := by
  cases callers with
  | nil =>
    unfold leaveFrame at h
    rw [get_bind_apply, hf] at h
    obtain ⟨rfl, -⟩ := EStateM.Result.ok.inj h
    exact .inl ⟨v, rfl⟩
  | cons g fs =>
    have hnext : flow = .next := by
      unfold leaveFrame at h
      rw [get_bind_apply, hf] at h
      exact (EStateM.Result.ok.inj h).1.symm
    obtain ⟨-, -, -, -, hstack⟩ := leaveFrame_next (hnext ▸ h) hf
    have hbase : f.stackBase < room := hs f.entry (by
      rw [Task.entries, hf]
      exact List.mem_cons_self)
    right
    rw [hstack, Array.size_push, Array.take_eq_extract, Array.size_extract]
    omega

/-- What an action leaves has room, where it has not failed. -/
theorem checked_room (ha : s.action = some (s₀, x)) (hc : s.checked = true)
    (hs : s.task.Returns s.vm.config.stackCapacity) {flow : Flow} (hx : x s₀ = .ok flow s') :
    (∃ v, flow = .done v) ∨ s'.task.stack.size ≤ s.vm.config.stackCapacity := by
  have hconfig := (stirs_action ha).config
  rw [endState_ok hx] at hconfig
  obtain ⟨r, hr, rfl, rfl⟩ | ⟨rfl, -, f, fs, hf, ⟨-, rfl⟩ | ⟨-, rfl⟩⟩ := action_cases ha
  · unfold checked at hc
    rw [hr] at hc
    refine .inr (Nat.le_trans (Nat.le_of_eq ?_) (of_decide_eq_true hc))
    cases r <;> cases hx <;> rfl
  · exact leaveFrame_room hs hx hf
  · exact .inr (hconfig ▸ step_room hx)

/-- Calls and handlers begin with as many operands as there may be. -/
theorem checked_begin {op : Opcode} {s₁ : Turn} (hr : s.task.resume = none)
    (h : fetch s = .ok op s₁) (hop : op = .call ∨ op = .tryBegin) (hc : s.checked = true) :
    s.task.stack.size ≤ s.vm.config.stackCapacity := by
  unfold checked at hc
  rw [hr, h] at hc
  rcases hop with rfl | rfl <;> exact of_decide_eq_true hc

/-- **What the running task does keeps it within its limits**, as long as it has another turn. -/
theorem advance_within (hu : s.Upright) (hw : s.task.Within s.vm.config)
    (ht : ∀ f ∈ s.hosts, f.Tame) (hc : s.checked = true) (hstays : stays s.advance.1 = true) :
    s.advance.2.task.Within s.vm.config := by
  cases ha : s.action with
  | none =>
    rw [advance_done ha] at hstays
    cases hstays
  | some a =>
    obtain ⟨s₀, x⟩ := a
    obtain ⟨hd₀, hd⟩ := deeds_action ha ht
    have hstirs := stirs_action ha
    have hfits : (endState x s₀).Fits s.vm.config :=
      ⟨upright_of_deeds (hd₀.trans hd) hu, hstirs.frames_le hw.frames,
        hstirs.handlers_le hw.handlers fun ⟨hr, s₁, h⟩ => checked_begin hr h (.inr rfl) hc,
        hstirs.returns hw.returns fun ⟨hr, s₁, h⟩ => checked_begin hr h (.inl rfl) hc⟩
    rw [advance_action ha] at hstays ⊢
    exact hfits.perform (fun flow s' hx => checked_room ha hc hw.returns hx) hstays

/-- Nothing is done to the machine once the running task has done its part. -/
theorem perform_vm (s : Turn) (x : Exec Flow) : (s.perform x).2.vm = (endState x s).vm := by
  unfold Turn.perform
  cases hx : x s with
  | ok flow s' =>
    rw [endState_ok hx]
    cases flow with
    | thrown v => exact (s'.unwind_unwinds v).vm
    | _ => rfl
  | error fault s' =>
    rw [endState_error hx]
    cases fault with
    | endless => rfl
    | raised e =>
      dsimp only [recover]
      split
      · rfl
      · exact (unwind_unwinds _ _).vm

/-- Limits are never changed, and other tasks keep to theirs. -/
theorem advance_others (htended : s.crew.Tended) (ht : ∀ f ∈ s.hosts, f.Tame)
    (hw : ∀ k t, s.vm.scheduler.get? k = some t → t.Within s.vm.config) :
    s.advance.2.vm.config = s.vm.config ∧
      ∀ k t, s.advance.2.vm.scheduler.get? k = some t → t.Within s.vm.config := by
  cases ha : s.action with
  | none =>
    rw [advance_done ha]
    exact ⟨rfl, hw⟩
  | some a =>
    obtain ⟨s₀, x⟩ := a
    obtain ⟨hd₀, hd⟩ := deeds_action ha ht
    have hstirs := stirs_action ha
    rw [advance_action ha, perform_vm]
    refine ⟨hstirs.config, fun k t hk => ?_⟩
    rcases hstirs.held (hd₀.trans hd) htended hk with ⟨k, t₀, _, hget, hrests⟩ | ⟨c, id, hbegins⟩
    · exact (hw k t₀ hget).rests hrests
    · exact hbegins.within

end Turn

/-! ## What would be too much -/

namespace Turn

variable {s s' : Turn} {c : ClosureId} {argc : Nat}

/-- A closure is called with as many arguments as it takes, and there may be no further frame, or
its locals have no room. -/
structure Crowds (c : ClosureId) (argc : Nat) (s : Turn) : Prop where
  room : ∃ params s', bindArguments (s.heap.closureTemplate c) argc s = .ok params s' ∧
    params ≤ s'.task.stack.size ∧
    (s'.vm.config.maxFrames ≤ s'.task.frames.length ∨ s'.vm.config.stackCapacity <
      s'.task.stack.size - params + (s'.heap.closureTemplate c).frameSlots)

/-- A turn of a task that is about to begin on a closure. -/
def nursery (s : Turn) (c : ClosureId) (args : List Value) : Turn :=
  { s with
    heap := (s.heap.newHandle { id := s.vm.scheduler.nextId,
                                name := (s.heap.closureTemplate c).name }).2
    vm := { s.vm with scheduler := s.vm.scheduler.takeId.2 }
    task := { id := s.vm.scheduler.nextId, handle := s.heap.handles.size, stack := args.toArray } }

theorem Crowds.overflows (h : s.Crowds c argc) :
    ∃ depth s', callClosure c argc s = .error (.raised (.stackOverflow depth)) s' := by
  obtain ⟨params, s', hbind, hparams, hroom⟩ := h.room
  rw [callClosure, get_bind_apply, bind_ok hbind, get_bind_apply]
  dsimp only
  by_cases hframes : s'.vm.config.maxFrames ≤ s'.task.frames.length
  · rw [if_pos hframes]
    exact ⟨_, _, rfl⟩
  · rw [if_neg hframes, if_neg (Nat.not_lt_of_le hparams)]
    have hover : s'.vm.config.stackCapacity < s'.task.stack.size - params +
        (Frame.enter s'.heap c (s'.task.stack.size - params)
          s'.task.iterations.length).localCount := hroom.resolve_left hframes
    rw [if_pos hover]
    exact ⟨_, _, rfl⟩

/-- A task that cannot begin makes the instruction fail that should have started it. -/
theorem Crowds.spawn_overflows {args : List Value} (h : (s.nursery c args).Crowds c args.length) :
    ∃ depth s', spawn (.closure c) args s = .error (.raised (.stackOverflow depth)) s' := by
  obtain ⟨depth, s', hcall⟩ := h.overflows
  have hspawn : spawn (.closure c) args s = (do
      let child ← withTask (s.nursery c args).task (callClosure c args.length)
      start child
      pure (Value.task child.handle)) { s.nursery c args with task := s.task } := rfl
  have hchild : withTask (s.nursery c args).task (callClosure c args.length)
      { s.nursery c args with task := s.task } = .error (.raised (.stackOverflow depth))
        { s' with task := s.task, tidy := s.tidy, touched := s.touched } := by
    rw [withTask, hcall]
    rfl
  exact ⟨depth, _, hspawn.trans (bind_error hchild)⟩

end Turn

/-! ## Ticks -/

namespace Machine

variable {m m' m₀ : Machine} {limits : VmConfig}

/-- All tasks are within the limits. -/
structure Limited (limits : VmConfig) (m : Machine) : Prop where
  config : m.vm.config = limits
  tasks : ∀ t, m.HasTask t → t.Within limits

/-- What the next tick puts on a stack without a check has room. -/
def checked (m : Machine) : Bool := m.running.all fun task => (m.turn task).checked

theorem Limited.tick (h : m.Limited limits) (hm : m.Fit) (hu : m.Upright)
    (hc : m.checked = true) : m.tick.machine.Limited limits := by
  cases hr : m.running with
  | none =>
    rw [tick_between hr]
    exact ⟨m.dispatch_resettles.config.trans h.config,
      fun t ht => h.tasks t (dispatch_hasTask hm.tended ht)⟩
  | some task =>
    have hchecked : (m.turn task).checked = true := by
      unfold checked at hc
      rwa [hr] at hc
    have hown := Turn.advance_within (hu.turn hr) (h.config.symm ▸ h.tasks task (.inl hr)) hm.tame
      hchecked
    obtain ⟨hconfig, hheld⟩ := Turn.advance_others (hm.turn hr) hm.tame
      fun k t hk => h.config.symm ▸ h.tasks t (.inr ⟨k, hk⟩)
    replace hconfig := hconfig.trans h.config
    rw [show (m.turn task).vm.config = limits from h.config] at hown hheld
    cases ha : (m.turn task).advance with
    | mk o s =>
      rw [ha] at hown hconfig hheld
      cases o with
      | none =>
        rw [tick_goes hr ha]
        refine ⟨hconfig, fun t ht => ?_⟩
        rcases ht with hrun | ⟨k, hk⟩
        · exact Option.some.inj hrun ▸ hown rfl
        · exact hheld k t hk
      | some o =>
        rw [tick_ends hr ha]
        refine ⟨(s.over_endTurn o).resettles.config.trans hconfig, fun t ht => ?_⟩
        rcases (s.over_endTurn o).held ht with ⟨rfl, rfl | rfl⟩ | ⟨k, hk⟩
        · exact hown rfl
        · exact hown rfl
        · exact hheld k t hk

/-- What the next tick would do is too much: an instruction leaves too many operands, or it calls a
closure or starts a task on one for which there is no room. -/
inductive Overflows (m : Machine) (task : Task) : Prop where
  | operands {flow : Flow} {s : Turn} (hr : m.running = some task) (hready : task.resume = none)
      (h : instruction (m.turn task) = .ok flow s)
      (hover : s.vm.config.stackCapacity < s.task.stack.size) : Overflows m task
  | call {s s₁ s₂ : Turn} {argc : Nat} {c : ClosureId} (h : m.Executes task .call s)
      (hargc : readByte s = .ok argc s₁) (hpop : pop s₁ = .ok (.closure c) s₂)
      (hover : s₂.Crowds c argc) : Overflows m task
  | spawn {s s₁ s₂ s₃ : Turn} {argc : Nat} {c : ClosureId} {args : List Value}
      (h : m.Executes task .spawn s) (hargc : readByte s = .ok argc s₁)
      (hpop : pop s₁ = .ok (.closure c) s₂) (hargs : popMany argc s₂ = .ok args s₃)
      (hover : (s₃.nursery c args).Crowds c args.length) : Overflows m task

/-- A step that fails is an error of the running task. -/
theorem error?_of_step {task : Task} {e : RuntimeError} {s : Turn}
    (ha : (m.turn task).action = some (m.turn task, step)) (hready : task.resume = none)
    (h : step (m.turn task) = .error (.raised e) s) : (m.turn task).error? = some e := by
  have hprompt : (m.turn task).prompt = true := by
    unfold Turn.prompt
    rw [show (m.turn task).task.resume = none from hready]
  rw [Turn.error?_of_prompt hprompt, ha, Option.bind_some]
  dsimp only
  rw [h]

theorem Executes.error? {task : Task} {op : Opcode} {s : Turn} (h : m.Executes task op s)
    {e : RuntimeError} {s' : Turn} (he : execute op s = .error (.raised e) s') :
    (m.turn task).error? = some e := by
  have hstep : step (m.turn task) = .error (.raised e) s' :=
    bind_error (h.instruction_eq.trans he)
  exact error?_of_step h.action_eq h.ready hstep

/-- **Too much is a stack overflow.** -/
theorem Overflows.error? {task : Task} (h : m.Overflows task) :
    ∃ depth, (m.turn task).error? = some (.stackOverflow depth) := by
  cases h with
  | @operands flow s hr hready h hover =>
    obtain ⟨op, s₁, hfetch, -⟩ := bind_eq_ok.mp h
    have hstep : step (m.turn task) =
        .error (.raised (.stackOverflow s.task.frames.length)) s := by
      rw [step, bind_ok h, get_bind_apply, if_pos hover]
      rfl
    exact ⟨_, error?_of_step (action_of_fetch hready hfetch) hready hstep⟩
  | call h hargc hpop hover =>
    obtain ⟨depth, s', hcall⟩ := hover.overflows
    exact ⟨depth, h.error? ((bind_ok hargc).trans ((bind_ok hpop).trans (bind_error hcall)))⟩
  | spawn h hargc hpop hargs hover =>
    obtain ⟨depth, s', hspawn⟩ := hover.spawn_overflows
    exact ⟨depth, h.error? ((bind_ok hargc).trans
      ((bind_ok hpop).trans ((bind_ok hargs).trans (bind_error hspawn))))⟩

/-! ## Runs -/

/-- What may happen to a machine. Whatever is put on a stack without a check has room. -/
inductive Bounded (m₀ : Machine) : Machine → Prop where
  | refl : Bounded m₀ m₀
  | tick {m : Machine} (h : Bounded m₀ m) (hc : m.checked = true)
      (hend : m.tick.outcome ≠ some .endless) : Bounded m₀ m.tick.machine
  | load {m : Machine} (h : Bounded m₀ m) (hr : m.running = none) (chunk : ChunkId)
      (hroom : (mainTemplate m.heap chunk).frameSlots ≤ m.vm.config.stackCapacity) :
      Bounded m₀ (m.load chunk).2
  | pause {m : Machine} (h : Bounded m₀ m) : Bounded m₀ m.pause.1
  /-- Whatever else the embedder does is no concern of tasks. -/
  | prepare {m m' : Machine} (h : Bounded m₀ m) (hh : ∀ f ∈ m'.hosts, f.Tame)
      (he : m.heap.Extends m'.heap) (hv : m.vm.Alike m'.vm) (hr : m'.running = m.running) :
      Bounded m₀ m'

theorem Bounded.run (h : Bounded m₀ m) : ∃ hist, Run (checked · = true) m₀ hist m := by
  induction h with
  | refl => exact ⟨_, .refl⟩
  | tick _ hc hend ih =>
    obtain ⟨hist, hrun⟩ := ih
    exact ⟨_, hrun.tail (.tick hc hend)⟩
  | load _ hr chunk _ ih =>
    obtain ⟨hist, hrun⟩ := ih
    exact ⟨_, hrun.tail (.load hr chunk)⟩
  | pause _ ih =>
    obtain ⟨hist, hrun⟩ := ih
    exact ⟨_, hrun.tail .pause⟩
  | prepare _ hh he hv hr ih =>
    obtain ⟨hist, hrun⟩ := ih
    exact ⟨_, hrun.tail (.prepare hh he hv hr)⟩

/-- The main task of a program begins within its limits, if its locals have room. -/
theorem Limited.load (h : m.Limited limits) (hr : m.running = none) {chunk : ChunkId}
    (hmax : 1 ≤ limits.maxFrames)
    (hroom : (mainTemplate m.heap chunk).frameSlots ≤ m.vm.config.stackCapacity) :
    (m.load chunk).2.Limited limits where
  config := h.config
  tasks t ht := by
    obtain ⟨handle, f, rfl, -, hcount, -⟩ := load_hasTask hr ht
    refine ⟨hmax, .inl ?_, nofun, .of_single rfl⟩
    show (#[] ++ Array.replicate f.localCount Value.nil).size ≤ _
    rw [Array.empty_append, Array.size_replicate, hcount, ← h.config]
    exact hroom

theorem Bounded.limited (h : Bounded m₀ m) (hm : m₀.Fit) (hu : m₀.Upright)
    (hmax : 1 ≤ limits.maxFrames) (h₀ : m₀.Limited limits) : m.Limited limits := by
  induction h with
  | refl => exact h₀
  | tick hrun hc _ ih =>
    obtain ⟨_, hrun⟩ := hrun.run
    exact ih.tick (hrun.fit hm) (hrun.upright hm hu) hc
  | load _ hr chunk hroom ih => exact ih.load hr hmax hroom
  | @pause m _ ih =>
    exact ⟨m.pause_resettles.config.trans ih.config, fun t ht => ih.tasks t (pause_hasTask ht)⟩
  | prepare _ hh he hv hr ih =>
    refine ⟨hv.config.trans ih.config, fun t ht => ih.tasks t ?_⟩
    unfold HasTask at ht ⊢
    rwa [hr, hv.scheduler] at ht

/-- **Limits hold** at any time, of all tasks: there are no more frames than there may be, and no
more operands, but for the one that a task has at the first instruction of a handler. What would
be too much is a stack overflow. -/
theorem Bounded.limits_hold {hosts : Array HostFunction} (ht : ∀ f ∈ hosts, f.Tame) {h : Heap}
    {id : VmId} {config : VmConfig} {dice : Dice} (hmax : 1 ≤ config.maxFrames)
    (hrun : Bounded (create hosts h id config dice) m) :
    m.vm.config = config ∧
    (∀ t, m.HasTask t → t.frames.length ≤ config.maxFrames ∧
      (t.stack.size ≤ config.stackCapacity ∨
        t.stack.size = config.stackCapacity + 1 ∧ t.AtHandler)) ∧
    ∀ task, m.Overflows task → ∃ depth, (m.turn task).error? = some (.stackOverflow depth) := by
  have hnone : ∀ t, ¬ (create hosts h id config dice).HasTask t := by
    rintro t (hr | ⟨k, hk⟩)
    · cases hr
    · have hempty : (create hosts h id config dice).vm.scheduler.get? k = none :=
        Std.ExtTreeMap.getElem?_empty
      rw [hempty] at hk
      cases hk
  have hm := hrun.limited (create_fit ht h id config dice) (create_upright hosts h id config dice)
    hmax ⟨rfl, fun t ht => absurd ht (hnone t)⟩
  exact ⟨hm.config, fun t ht => ⟨(hm.tasks t ht).frames, (hm.tasks t ht).stack⟩,
    fun task hover => hover.error?⟩

/-- Tick a number of times. -/
def ticks (n : Nat) (m : Machine) : Machine := n.repeat (·.tick.machine) m

theorem Bounded.ticks (h : Bounded m₀ m) : ∀ {n : Nat}, (∀ k < n, (m.ticks k).checked = true ∧
    (m.ticks k).tick.outcome ≠ some .endless) → Bounded m₀ (m.ticks n)
  | 0, _ => h
  | n + 1, hn =>
    have ⟨hc, hend⟩ := hn n (Nat.lt_succ_self n)
    (h.ticks fun k hk => hn k (Nat.lt_succ_of_lt hk)).tick hc hend

/-- There is room for one operand and for one frame. A second operand is pushed where there is a
handler. -/
def brimming : Heap × VmConfig where
  fst := {
    chunks := #[
      { code := assemble [(.pushNil, []), (.tryBegin, [0, 1]), (.pushNil, []), (.pop, []),
          (.ret, [])] }] }
  snd := { maxFrames := 1, stackCapacity := 1 }

/-- The second operand is too much, and the handler begins with the error for it. -/
theorem brimming_overflows : ∃ m task task', Bounded (create #[] brimming.1 0 brimming.2 {}) m ∧
    m.running = some task ∧ m.Overflows task ∧
    (∃ depth, (m.turn task).error? = some (.stackOverflow depth)) ∧
    m.tick.machine.running = some task' ∧ task'.frames.length ≤ brimming.2.maxFrames ∧
    task'.stack.size = brimming.2.stackCapacity + 1 ∧ task'.AtHandler := by
  have hload : Bounded (create #[] brimming.1 0 brimming.2 {})
      (load (create #[] brimming.1 0 brimming.2 {}) 0).2 := Bounded.refl.load rfl 0 (by decide)
  generalize hm : (load (create #[] brimming.1 0 brimming.2 {}) 0).2 = m at hload
  have hticks : ∀ k < 4, (m.ticks k).checked = true ∧
      (m.ticks k).tick.outcome ≠ some .endless := by
    rw [← hm]
    decide +kernel
  have hbefore : ((m.ticks 3).running.any fun task => task.resume.isNone &&
      passes instruction ((m.ticks 3).turn task) fun _ s =>
        s.vm.config.stackCapacity < s.task.stack.size) = true := by
    rw [← hm]
    decide +kernel
  have hafter : ((m.ticks 4).running.any fun task =>
      decide (task.stack.size = brimming.2.stackCapacity + 1)) = true := by
    rw [← hm]
    decide +kernel
  obtain ⟨task, htask, hp⟩ := (Option.any_eq_true _ _).mp hbefore
  obtain ⟨hready, hover⟩ := Bool.and_eq_true_iff.mp hp
  obtain ⟨task', htask', hsize⟩ := (Option.any_eq_true _ _).mp hafter
  have hrun := hload.ticks fun k hk => hticks k (Nat.lt_succ_of_lt hk)
  obtain ⟨-, -, herror⟩ := Bounded.limits_hold (by simp) (by decide) hrun
  obtain ⟨-, hlimits, -⟩ := Bounded.limits_hold (by simp) (by decide) (hload.ticks hticks)
  obtain ⟨hframes, hstack⟩ := hlimits task' (.inl htask')
  obtain ⟨flow, s, hi, hover⟩ := of_passes hover
  have hmuch : (m.ticks 3).Overflows task :=
    .operands htask (Option.isNone_iff_eq_none.mp hready) hi (of_decide_eq_true hover)
  have hsize := of_decide_eq_true hsize
  exact ⟨m.ticks 3, task, task', hrun, htask, hmuch, herror task hmuch, htask', hframes, hsize,
    (hstack.resolve_left (by omega)).2⟩

/-- A receive waits in a select on a stack for two operands, with one below. -/
def flooded : Heap × VmConfig where
  fst := {
    closures := #[{ template := 0 }]
    templates := #[{ name := "sender", chunk := 1 }]
    channels := #[.ofCapacity 0]
    chunks := #[
      { code := assemble [(.constant, [0, 0]), (.spawn, [0]), (.pop, []), (.pushNil, []),
          (.constant, [0, 1]), (.select, [1, 0, 0]), (.pop, []), (.pop, []), (.ret, [])]
        constants := #[.closure 0, .channel 0] },
      { code := assemble [(.constant, [0, 0]), (.pushNil, []), (.channelSend, []), (.ret, [])]
        constants := #[.channel 0] }] }
  snd := { stackCapacity := 2 }

/-- The value comes with the index of its case, and the task goes on with three operands. -/
theorem flooded_over : ∃ hist m task op s,
    1 ≤ flooded.2.maxFrames ∧ Run (fun _ => True) (create #[] flooded.1 0 flooded.2 {}) hist m ∧
    m.Executes task op s ∧
    flooded.2.stackCapacity < task.stack.size ∧ ¬ task.AtHandler := by
  have hrun : ((tickFor (fun _ => true) 14
      ((create #[] flooded.1 0 flooded.2 {}).load 0).2 []).any fun r => r.2.opcode?.any fun x =>
        decide (x.1.stack.size = 3 ∧ x.1.handlers = [])) = true := by
    decide +kernel
  obtain ⟨⟨hist, m⟩, hticks, hp⟩ := (Option.any_eq_true _ _).mp hrun
  obtain ⟨⟨task, op, s⟩, hop, hp⟩ := (Option.any_eq_true _ _).mp hp
  obtain ⟨hsize, hhandlers⟩ := of_decide_eq_true hp
  have hloaded : Run (fun _ => true = true) (create #[] flooded.1 0 flooded.2 {}) [] _ :=
    Run.refl.tail (.load rfl 0)
  refine ⟨hist, m, task, op, s, by decide,
    (run_of_tickFor hloaded hticks).mono fun _ _ => trivial, executes_of_opcode? hop, ?_, ?_⟩
  · rw [hsize]
    decide
  · rintro ⟨hd, rest, hh, -⟩
    exact List.cons_ne_nil _ _ (hh.symm.trans hhandlers)

/-- There is room for one operand. A second one is pushed where there is a handler, which sets up
the next handler at once. -/
def heaped : Heap × VmConfig where
  fst := {
    chunks := #[
      { code := assemble [(.pushNil, []), (.tryBegin, [0, 1]), (.pushNil, []), (.tryBegin, [0, 0]),
          (.pop, []), (.pop, []), (.pop, []), (.ret, [])] }] }
  snd := { stackCapacity := 1 }

/-- **A handler keeps what is too much.** What it begins with is one operand more than there is
room for, and a handler that is set up there goes back to just that. The error that it begins with
comes on top, so there are two more. -/
theorem heaped_over : ∃ hist m task op s,
    1 ≤ heaped.2.maxFrames ∧ Run (fun _ => True) (create #[] heaped.1 0 heaped.2 {}) hist m ∧
    m.Executes task op s ∧ heaped.2.stackCapacity + 1 < task.stack.size := by
  have hrun : ((tickFor (fun _ => true) 5
      ((create #[] heaped.1 0 heaped.2 {}).load 0).2 []).any fun r => r.2.opcode?.any fun x =>
        decide (x.1.stack.size = 3)) = true := by
    decide +kernel
  obtain ⟨⟨hist, m⟩, hticks, hp⟩ := (Option.any_eq_true _ _).mp hrun
  obtain ⟨⟨task, op, s⟩, hop, hp⟩ := (Option.any_eq_true _ _).mp hp
  have hsize : task.stack.size = 3 := of_decide_eq_true hp
  have hloaded : Run (fun _ => true = true) (create #[] heaped.1 0 heaped.2 {}) [] _ :=
    Run.refl.tail (.load rfl 0)
  refine ⟨hist, m, task, op, s, by decide,
    (run_of_tickFor hloaded hticks).mono fun _ _ => trivial, executes_of_opcode? hop, ?_⟩
  rw [hsize]
  decide

end Machine

end TaskVm
