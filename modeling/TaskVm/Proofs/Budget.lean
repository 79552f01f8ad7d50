import TaskVm.Host
import TaskVm.Proofs.Confinement
import TaskVm.Proofs.Executing
import TaskVm.Proofs.Pausing

/-!
# The instruction budget

A machine with a limit on instructions comes to the end of any program. Not everything that a
task does is an instruction, though: results are picked up, frames are left where their code ends,
and turns are given out. What is no instruction makes something smaller that only instructions make
larger, the running task first and the queue before it, so there are only so many such ticks
between two instructions.

The error that ends the run is fatal, as all errors are that nobody may survive, and it is raised
and never a value. So no handler gets it.
-/

namespace TaskVm

open Exec

/-! ## One thing after the other -/

namespace Exec

variable {R : Region} {limit : Option Nat} {count : Nat} {s s' : Turn}

/-- What is left of a step when its opcode has been read and counted. -/
def finish (op : Opcode) : Exec Flow := do
  let flow ← execute op
  let s ← get
  if s.vm.config.stackCapacity < s.task.stack.size then
    raise (.stackOverflow s.task.frames.length)
  else pure flow

theorem bind_eq_of_eq {α β : Type} {x y : Exec α} {f : α → Exec β} (h : x s = y s') :
    (x >>= f) s = (y >>= f) s' := by
  show EStateM.bind x f s = EStateM.bind y f s'
  rw [EStateM.bind, EStateM.bind, h]

theorem safe_finish (op : Opcode) : Safe (R.Encloses limit count) (HoldsFlow R) (finish op) := by
  refine safe_bind (safe_execute op) fun flow hflow => safe_get_bind fun s _ => ?_
  split
  · exact safe_raise _
  · exact safe_pure hflow

theorem fetch_error {f : Frame} {fs : List Frame} (hf : s.task.frames = f :: fs) {e : Fault}
    (h : fetch s = .error e s') : ∃ ip reason, e = .raised (.invalidBytecode ip reason) := by
  rw [fetch, bind_ok (frame_ok s hf), get_bind_apply] at h
  cases hb : (f.code s.heap)[f.ip]? with
  | none =>
    simp only [hb] at h
    cases h
    exact ⟨_, _, rfl⟩
  | some b =>
    simp only [hb] at h
    cases hop : Opcode.ofByte? b with
    | none =>
      simp only [hop] at h
      cases h
      exact ⟨_, _, rfl⟩
    | some op =>
      simp only [hop] at h
      cases h

/-- Within the limit, instructions are counted. The one that is too many is not executed. -/
theorem countInstruction_limited (op : Opcode) {n : Nat}
    (hl : s.vm.config.instructionLimit = some n) :
    if n < s.vm.instructions + 1 then
      ∃ s', countInstruction op s = .error (.raised (.executionLimit n)) s'
    else ∃ s', countInstruction op s = .ok ⟨⟩ s' := by
  unfold countInstruction
  rw [modify_bind_apply, get_bind_apply]
  dsimp only
  simp only [hl]
  by_cases hover : n < s.vm.instructions + 1
  · rw [if_pos hover, if_pos hover]
    exact ⟨_, rfl⟩
  · rw [if_neg hover, if_neg hover]
    exact ⟨_, rfl⟩

/-- Leaving a frame leaves one frame less, and nothing else that a scheduler sees. -/
theorem leaveFrame_cases {f : Frame} {callers : List Frame} (hf : s.task.frames = f :: callers)
    (v : Value) : ∃ s', (leaveFrame v s = .ok .next s' ∨ leaveFrame v s = .ok (.done v) s') ∧
      s'.vm = s.vm ∧ s'.task.frames = callers ∧ s'.task.resume = s.task.resume := by
  unfold leaveFrame
  rw [get_bind_apply, hf]
  dsimp only
  cases callers with
  | nil => exact ⟨_, .inr rfl, rfl, rfl, rfl⟩
  | cons g gs => exact ⟨_, .inl rfl, rfl, rfl, rfl⟩

end Exec

/-- How much a task may do without executing an instruction. -/
def Task.weight (t : Task) : Nat := t.frames.length + if t.resume.isSome then 1 else 0

namespace Turn

variable {s s₁ s' : Turn} {x y : Exec Flow} {v : Value}

/-- Only what a computation comes to matters. -/
theorem perform_eq (h : x s = y s₁) : s.perform x = s₁.perform y := by
  unfold perform
  rw [h]

theorem throws?_eq (h : x s = y s₁) : s.throws? x = s₁.throws? y := by
  unfold throws?
  rw [h]

/-- A fatal error passes by all handlers. -/
theorem perform_fatal {e : RuntimeError} (h : x s = .error (.raised e) s') (he : e.isFatal = true) :
    ∃ trace, (s.perform x).1 = some (.failed ⟨e, trace⟩) := by
  rw [perform, h]
  dsimp only
  rw [recover, if_pos he]
  exact ⟨_, rfl⟩

/-- What a task does other than executing an instruction concerns no other task. If it goes on
afterwards, then with less to do. -/
structure Quiet (s : Turn) (r : Option TurnEnd × Turn) : Prop where
  vm : r.2.vm = s.vm
  lighter : r.1 = none → r.2.task.weight < s.task.weight
  stays : r.1 ≠ some .blocked ∧ r.1 ≠ some .yielded

/-- Unwinding leaves some frames, or ends the task. -/
theorem unwind_sheds (s : Turn) (v : Value) : (s.unwind v).2.vm = s.vm ∧
    (s.unwind v).2.task.weight ≤ s.task.weight ∧
    (s.unwind v).1 ≠ some .blocked ∧ (s.unwind v).1 ≠ some .yielded := by
  unfold unwind
  split
  · exact ⟨rfl, Nat.le_refl _, nofun, nofun⟩
  · rename_i handler _ _
    have hdrop : ∀ k, (s.task.frames.drop k).length ≤ s.task.frames.length := fun k => by
      rw [List.length_drop]
      omega
    dsimp only
    split
    · rename_i f callers hf
      have hf : s.task.frames.drop (s.task.frames.length - handler.frameDepth) = f :: callers := hf
      refine ⟨rfl, Nat.add_le_add_right ?_ _, nofun, nofun⟩
      have hle := hdrop (s.task.frames.length - handler.frameDepth)
      rw [hf] at hle
      exact hle
    · exact ⟨rfl, Nat.add_le_add_right (hdrop _) _, nofun, nofun⟩

/-- Picking up a result. -/
theorem resume_quiet {r : Resume} (hr : s.task.resume = some r) (acts : List Act) :
    s.Quiet (Turn.perform { s with acts, task := { s.task with resume := none } }
      (resumeWith r)) := by
  have hweight : s.task.weight = s.task.frames.length + 1 := by rw [Task.weight, hr]; rfl
  cases r with
  | value v => exact ⟨rfl, fun _ => by rw [hweight]; exact Nat.lt_succ_self _, nofun, nofun⟩
  | selected index v =>
    exact ⟨rfl, fun _ => by rw [hweight]; exact Nat.lt_succ_self _, nofun, nofun⟩
  | error e =>
    obtain ⟨hvm, hle, hstays⟩ := unwind_sheds
      { s with acts, task := { s.task with resume := none } } (.error e)
    exact ⟨hvm, fun _ => by rw [hweight]; exact Nat.lt_succ_of_le hle, hstays⟩

/-- Leaving a frame whose code has come to its end. -/
theorem leave_quiet {f : Frame} {callers : List Frame} (hf : s.task.frames = f :: callers) :
    s.Quiet (s.perform (leaveFrame .nil)) := by
  obtain ⟨s', hleave, hvm, hframes, hresume⟩ := leaveFrame_cases hf .nil
  unfold perform
  rcases hleave with hleave | hleave
  · rw [hleave]
    refine ⟨hvm, fun _ => ?_, nofun, nofun⟩
    show s'.task.weight < s.task.weight
    rw [Task.weight, Task.weight, hframes, hresume, hf, List.length_cons]
    omega
  · rw [hleave]
    exact ⟨hvm, nofun, nofun, nofun⟩

end Turn

namespace Machine

/-! ## What a tick is -/

/-- The next tick executes an instruction. -/
def executes (m : Machine) : Bool := m.opcode?.isSome

/-- The next tick reads an opcode. -/
def reads (m : Machine) : Bool := m.running.any fun task => task.resume.isNone &&
  match fetch (m.turn task) with
  | .ok _ _ => true
  | .error _ _ => false

/-- The error that the next tick raises, if it raises one. -/
def raises? (m : Machine) : Option RuntimeError :=
  m.running.bind fun task => (m.turn task).action.bind fun a =>
    match a.2 a.1 with
    | .error (.raised e) _ => some e
    | _ => none

variable {R : Region} {n count : Nat} {m m' : Machine} {task : Task}

/-- A machine that is enclosed in a region, and the limit that it has. -/
structure Enclosed (R : Region) (n : Nat) (m : Machine) : Prop where
  hosts : ∀ f ∈ m.hosts, f.Keeps R
  heap : R.Clean m.heap
  globals : m.vm.globals.All R.Holds
  tasks : ∀ t, m.HasTask t → R.HoldsTask t
  limit : m.vm.config.instructionLimit = some n

theorem Enclosed.turn (h : m.Enclosed R n) (hr : m.running = some task) :
    R.Encloses (some n) m.vm.instructions (m.turn task) :=
  ⟨h.hosts, h.heap, h.globals, h.tasks task (.inl hr),
    fun id t ht => h.tasks t (.inr ⟨id, ht⟩), h.limit, rfl⟩

/-- What the running task does next, as far as the budget is concerned. -/
inductive Does (R : Region) (n : Nat) (m : Machine) (task : Task) : Prop where
  /-- It executes an instruction. -/
  | executes {op : Opcode} {s : Turn} (hx : m.executes = true) (hle : m.vm.instructions + 1 ≤ n)
      (ha : (m.turn task).action = some (m.turn task, step)) (hs : step (m.turn task) = finish op s)
      (he : R.Encloses (some n) (m.vm.instructions + 1) s)
  /-- It does something else. -/
  | rests {s : Turn} {x : Exec Flow} (hx : m.executes = false)
      (ha : (m.turn task).action = some (s, x))
      (hsafe : Safe (R.Encloses (some n) m.vm.instructions) (HoldsFlow R) x)
      (he : R.Encloses (some n) m.vm.instructions s) (hq : (m.turn task).Quiet (s.perform x))
  /-- There is no instruction, or it is one too many. -/
  | fails {e : RuntimeError} {s : Turn} (hx : m.executes = false)
      (ha : (m.turn task).action = some (m.turn task, step))
      (hs : step (m.turn task) = .error (.raised e) s) (he : e.isFatal = true)
  /-- It has come to its end. -/
  | ends (hx : m.executes = false) (ha : (m.turn task).action = none)
      (hend : (m.turn task).advance = (some (.completed .nil), m.turn task))

theorem executes_eq_false (hr : m.running = some task) (h : ∀ op s, ¬m.Executes task op s) :
    m.executes = false := by
  cases hop : m.opcode? with
  | none => rw [executes, hop]; rfl
  | some r =>
    obtain ⟨t, op, s⟩ := r
    have hx := executes_of_opcode? hop
    obtain rfl : task = t := Option.some.inj (hr.symm.trans hx.running)
    exact absurd hx (h op s)

/-- An opcode that has been read is counted and executed if there is room in the budget, and is
an error otherwise. -/
theorem Enclosed.step_read (h : m.Enclosed R n) (hr : m.running = some task) {op : Opcode}
    {s : Turn} (hread : fetch (m.turn task) = .ok op s) :
    if n < m.vm.instructions + 1 then
      ∃ s', countInstruction op s = .error (.raised (.executionLimit n)) s' ∧
        step (m.turn task) = .error (.raised (.executionLimit n)) s'
    else ∃ s', countInstruction op s = .ok ⟨⟩ s' ∧ step (m.turn task) = finish op s' ∧
      R.Encloses (some n) (m.vm.instructions + 1) s' := by
  obtain ⟨-, hs⟩ := safe_fetch.of_ok (h.turn hr) hread
  have hcount := countInstruction_limited op hs.limit
  rw [hs.count] at hcount
  by_cases hover : n < m.vm.instructions + 1
  · rw [if_pos hover] at hcount ⊢
    obtain ⟨s', hs'⟩ := hcount
    refine ⟨s', hs', ?_⟩
    have hinstruction : instruction (m.turn task) = .error (.raised (.executionLimit n)) s' := by
      rw [instruction, bind_ok hread, bind_error hs']
    rw [step, bind_error hinstruction]
  · rw [if_neg hover] at hcount ⊢
    obtain ⟨s', hs'⟩ := hcount
    have hinstruction : instruction (m.turn task) = execute op s' := by
      rw [instruction, bind_ok hread, bind_ok hs']
    refine ⟨s', hs', bind_eq_of_eq hinstruction, ?_⟩
    rw [countInstruction_ok hs']
    exact ⟨hs.hosts, hs.heap, hs.globals, hs.task, hs.tasks, hs.limit, congrArg (· + 1) hs.count⟩

theorem Enclosed.does (h : m.Enclosed R n) (hr : m.running = some task) : m.Does R n task := by
  have he := h.turn hr
  -- A turn goes on with what it waited for, ends its task, leaves a frame at its end, or reads an
  -- instruction; only the last counts, and only where the budget is not used up.
  cases hresume : task.resume with
  | some r =>
    have hx : m.executes = false := executes_eq_false hr fun op s hx => by
      have hready := hx.ready
      rw [hresume] at hready
      cases hready
    have htask := he.task
    refine .rests hx (Turn.action_resume hresume) (safe_resumeWith (htask.resume r hresume)) ?_
      (Turn.resume_quiet (s := m.turn task) hresume _)
    exact ⟨he.hosts, he.heap, he.globals, ⟨htask.stack, htask.iterations, nofun, htask.frames,
      htask.opened⟩, he.tasks, he.limit, he.count⟩
  | none =>
    cases hf : task.frames with
    | nil =>
      have ha : (m.turn task).action = none := Turn.action_nil hresume hf
      refine .ends (executes_eq_false hr fun op s hx => ?_) ha (Turn.advance_done ha)
      obtain ⟨f, fs, hcons, -⟩ := hx.within
      rw [hf] at hcons
      cases hcons
    | cons f fs =>
      by_cases hend : (f.code m.heap).size ≤ f.ip
      · refine .rests (executes_eq_false hr fun op s hx => ?_)
          (Turn.action_end hresume hf hend) (safe_leaveFrame trivial) he
          (Turn.leave_quiet (s := m.turn task) hf)
        obtain ⟨g, gs, hcons, hip⟩ := hx.within
        obtain ⟨rfl, -⟩ := List.cons.inj (hf.symm.trans hcons)
        omega
      · have ha : (m.turn task).action = some (m.turn task, step) :=
          Turn.action_step hresume hf (Nat.lt_of_not_le hend)
        cases hread : fetch (m.turn task) with
        | error e s =>
          obtain ⟨ip, reason, rfl⟩ := fetch_error hf hread
          refine .fails (e := .invalidBytecode ip reason) (s := s)
            (executes_eq_false hr fun op s hx => ?_) ha ?_ rfl
          · obtain ⟨_, hok, -⟩ := hx.read
            rw [hread] at hok
            cases hok
          · rw [step, bind_error]
            rw [instruction, bind_error hread]
        | ok op s =>
          have hstep := h.step_read hr hread
          by_cases hover : n < m.vm.instructions + 1
          · rw [if_pos hover] at hstep
            obtain ⟨s', hcount, hstep⟩ := hstep
            refine .fails (executes_eq_false hr fun op s hx => ?_) ha hstep (by rfl)
            obtain ⟨_, hok, hcounted⟩ := hx.read
            rw [hread] at hok
            cases hok
            rw [hcount] at hcounted
            cases hcounted
          · rw [if_neg hover] at hstep
            obtain ⟨s', hcount, hstep, he'⟩ := hstep
            refine .executes ?_ (Nat.le_of_not_lt hover) ha hstep he'
            rw [executes, opcode?, hr]
            dsimp only
            rw [hresume, hread]
            dsimp only
            rw [hcount]
            rfl

/-! ## What comes of it -/

/-- No handler gets a fatal error. -/
theorem Enclosed.thrown (h : m.Enclosed R n) (hr : m.running = some task) {v : Value} {s : Turn}
    (ht : (m.turn task).thrown? = some (v, s)) : R.Holds v := by
  obtain ⟨⟨s₁, x⟩, haction, ht⟩ := Option.bind_eq_some_iff.mp ht
  dsimp only at ht
  cases h.does hr with
  | executes hx hle ha hs he =>
    obtain ⟨rfl, rfl⟩ := Prod.mk.inj (Option.some.inj (ha.symm.trans haction))
    rw [Turn.throws?_eq hs] at ht
    exact Turn.throws_holds (safe_finish _) he ht
  | rests hx ha hsafe he hq =>
    obtain ⟨rfl, rfl⟩ := Prod.mk.inj (Option.some.inj (ha.symm.trans haction))
    exact Turn.throws_holds hsafe he ht
  | fails hx ha hs he =>
    obtain ⟨rfl, rfl⟩ := Prod.mk.inj (Option.some.inj (ha.symm.trans haction))
    unfold Turn.throws? at ht
    rw [hs] at ht
    dsimp only at ht
    rw [if_pos he] at ht
    cases ht
  | ends hx ha hend => rw [ha] at haction; cases haction

/-- What is next is an error that nobody survives. -/
theorem tick_fatal {e : RuntimeError} (h : m.raises? = some e) (he : e.isFatal = true) :
    ∃ trace, m.tick.outcome = some (.failed ⟨e, trace⟩) ∧ m.tick.machine.running = none ∧
      m.tick.machine.vm.main = none ∧ m.tick.machine.vm.scheduler.size = 0 := by
  obtain ⟨task, hr, h⟩ := Option.bind_eq_some_iff.mp h
  obtain ⟨⟨s₁, x⟩, ha, h⟩ := Option.bind_eq_some_iff.mp h
  dsimp only at h
  split at h
  · rename_i e' s₂ hx
    cases h
    obtain ⟨trace, htrace⟩ := Turn.perform_fatal hx he
    rw [← Turn.advance_action ha] at htrace
    rw [tick_ends hr (Prod.ext htrace rfl)]
    dsimp only [endTurn]
    rw [if_pos (by rw [he, Bool.or_true])]
    exact ⟨trace, rfl, rfl, rfl, rfl⟩
  · cases h

/-- How much the running task may do without executing an instruction. -/
def weight (m : Machine) : Nat := m.running.elim 0 fun task => task.weight + 1

theorem enclosed_ofTurn {s : Turn} (h : R.Encloses (some n) count s) : (ofTurn s).Enclosed R n := by
  refine ⟨h.hosts, h.heap, h.globals, fun t ht => ?_, h.limit⟩
  rcases ht with ht | ⟨id, ht⟩
  · cases ht
    exact h.task
  · exact h.tasks id t ht

/-- A machine whose task has had its turn, and is held again. -/
theorem enclosed_keep {s : Turn} (h : R.Encloses (some n) count s) (st : TaskStatus)
    (queue : List TaskId) : (s.keep st queue).Enclosed R n := by
  refine ⟨h.hosts, h.heap.setStatus _ _, h.globals, fun t ht => ?_, h.limit⟩
  rcases ht with ht | ⟨id, ht⟩
  · cases ht
  · exact h.put h.task id t ht

theorem enclosed_retire {s : Turn} (h : R.Encloses (some n) count s) (st : TaskStatus) :
    (s.retire st).Enclosed R n := by
  refine ⟨h.hosts, (h.heap.closeFrom h.task 0).1.setStatus _ _, h.globals, fun t ht => ?_, h.limit⟩
  obtain ⟨id, ht⟩ := Turn.retire_hasTask ht
  exact h.tasks id t ht

/-- After a turn that does not end the run, the machine is as it was but for the task. -/
theorem enclosed_over {s : Turn} (h : R.Encloses (some n) count s) {o : TurnEnd}
    {outcome : Option Outcome} (hover : s.Over o m outcome) (hgoes : outcome = none) :
    m.Enclosed R n ∧ m.vm.instructions = count ∧
      (o ≠ .blocked → o ≠ .yielded → m.vm = s.vm) := by
  cases hover with
  | concludes | endless => cases hgoes
  | yields => exact ⟨enclosed_keep h _ _, h.count, fun _ hne => absurd rfl hne⟩
  | blocks => exact ⟨enclosed_keep h _ _, h.count, fun hne => absurd rfl hne⟩
  | retires => exact ⟨enclosed_retire h _, h.count, fun _ _ => rfl⟩

/-- Who is first in the queue is there, and is in the queue no longer. -/
theorem firstHeld_some {tasks : Std.ExtTreeMap TaskId Task} {t : Task} {rest : List TaskId} :
    ∀ {queue : List TaskId}, Scheduler.firstHeld tasks queue = some (t, rest) →
      (∃ id : TaskId, tasks[id]? = some t) ∧ rest.length < queue.length
  | [], h => nomatch h
  | id :: queue, h => by
    unfold Scheduler.firstHeld at h
    split at h
    · rename_i t' ht
      cases h
      exact ⟨⟨id, ht⟩, Nat.lt_succ_self _⟩
    · obtain ⟨hheld, hlt⟩ := firstHeld_some h
      exact ⟨hheld, Nat.lt_succ_of_lt hlt⟩

/-- Giving out a turn takes the next task out of the queue. -/
theorem Enclosed.dispatch (h : m.Enclosed R n) (hgoes : m.dispatch.outcome = none) :
    m.dispatch.machine.Enclosed R n ∧
      m.dispatch.machine.vm.instructions = m.vm.instructions ∧
      m.dispatch.machine.vm.scheduler.queue.length < m.vm.scheduler.queue.length := by
  unfold Machine.dispatch Scheduler.takeNext at hgoes ⊢
  cases hfirst : Scheduler.firstHeld m.vm.scheduler.tasks m.vm.scheduler.queue with
  | none =>
    rw [hfirst] at hgoes
    cases hgoes
  | some r =>
    obtain ⟨t, queue⟩ := r
    obtain ⟨⟨id, ht⟩, hlt⟩ := firstHeld_some hfirst
    refine ⟨⟨h.hosts, h.heap.setStatus _ _, h.globals, fun u hu => ?_, h.limit⟩, rfl, hlt⟩
    rcases hu with hu | ⟨k, hk⟩
    · cases hu
      exact h.tasks t (.inr ⟨id, ht⟩)
    · have herase := (m.vm.scheduler.get?_erase t.id k).symm.trans hk
      split at herase
      · cases herase
      · exact h.tasks u (.inr ⟨k, herase⟩)

/-- A tick that does not end the run. Either it executes an instruction, or there is less to be
done without one. -/
structure Goes (R : Region) (n : Nat) (m : Machine) : Prop where
  enclosed : m.tick.machine.Enclosed R n
  counted : m.tick.machine.vm.instructions = m.vm.instructions + m.executes.toNat
  smaller : m.executes = false →
    Prod.Lex (· < ·) (· < ·)
      (m.tick.machine.vm.scheduler.queue.length, m.tick.machine.weight)
      (m.vm.scheduler.queue.length, m.weight)

/-- The running task meets with an error that nobody survives, or stays in the region. -/
theorem Enclosed.advance (h : m.Enclosed R n) (hr : m.running = some task) :
    (∃ failure, failure.error.isFatal = true ∧
      (m.turn task).advance.1 = some (.failed failure)) ∨
    ((m.turn task).advance.1 ≠ some .endless ∧
      R.Encloses (some n) (m.vm.instructions + m.executes.toNat) (m.turn task).advance.2 ∧
      (m.executes = false → (m.turn task).Quiet (m.turn task).advance)) := by
  cases h.does hr with
  | @executes op s hx hle ha hs he =>
    rw [Turn.advance_action ha, Turn.perform_eq hs, hx]
    obtain ⟨hne, henclosed⟩ := Turn.perform_encloses (safe_finish op) he
    exact .inr ⟨hne, henclosed, nofun⟩
  | rests hx ha hsafe he hq =>
    rw [Turn.advance_action ha, hx]
    obtain ⟨hne, henclosed⟩ := Turn.perform_encloses hsafe he
    exact .inr ⟨hne, henclosed, fun _ => hq⟩
  | fails hx ha hs he =>
    obtain ⟨trace, htrace⟩ := Turn.perform_fatal hs he
    exact .inl ⟨⟨_, trace⟩, he, by rw [Turn.advance_action ha, htrace]⟩
  | ends hx ha hend =>
    rw [hend, hx]
    exact .inr ⟨nofun, h.turn hr, fun _ => ⟨rfl, nofun, nofun, nofun⟩⟩

/-- No comparison goes on for ever. -/
theorem Enclosed.outcome (h : m.Enclosed R n) : m.tick.outcome ≠ some .endless := by
  cases hr : m.running with
  | none =>
    rw [tick, hr]
    dsimp only
    unfold Machine.dispatch
    split <;> rintro ⟨⟩
  | some task =>
    have hadvance := h.advance hr
    cases ha : (m.turn task).advance with
    | mk o s =>
      rw [ha] at hadvance
      cases o with
      | none =>
        rw [tick_goes hr ha]
        rintro ⟨⟩
      | some o =>
        rw [tick_ends hr ha]
        have hne : o ≠ .endless := by
          rintro rfl
          rcases hadvance with ⟨failure, -, hfailed⟩ | ⟨hne, -⟩
          · cases hfailed
          · exact hne rfl
        exact mt (s.over_endTurn o).endless_iff.mp hne

theorem Enclosed.goes (h : m.Enclosed R n) (hgoes : m.tick.outcome = none) : m.Goes R n := by
  -- Without a turn the line gets shorter, and with one the task gets lighter.
  cases hr : m.running with
  | none =>
    have htick := tick_between hr
    have hx : m.executes = false := by rw [executes, opcode?, hr]; rfl
    rw [htick] at hgoes
    obtain ⟨henclosed, hcount, hqueue⟩ := h.dispatch hgoes
    refine ⟨htick ▸ henclosed, ?_, fun _ => ?_⟩
    · rw [htick, hx]
      exact hcount
    · rw [htick]
      exact .left _ _ hqueue
  | some task =>
    have hweight : m.weight = task.weight + 1 := by rw [weight, hr]; rfl
    have hadvance := h.advance hr
    cases ha : (m.turn task).advance with
    | mk o s =>
      rw [ha] at hadvance
      cases o with
      | none =>
        have htick := tick_goes hr ha
        obtain ⟨failure, -, hfailed⟩ | ⟨-, henclosed, hquiet⟩ := hadvance
        · cases hfailed
        refine ⟨?_, ?_, fun hx => ?_⟩
        · rw [htick]
          exact enclosed_ofTurn henclosed
        · rw [htick]
          exact henclosed.count
        · rw [htick, hweight]
          have hq := hquiet hx
          have hvm : s.vm = m.vm := hq.vm
          rw [show (ofTurn s).vm.scheduler = m.vm.scheduler by rw [← hvm]; rfl]
          exact .right _ (Nat.add_lt_add_right (hq.lighter rfl) 1)
      | some o =>
        have htick := tick_ends hr ha
        rw [htick] at hgoes
        obtain ⟨failure, hfatal, hfailed⟩ | ⟨-, henclosed, hquiet⟩ := hadvance
        · -- Such an error ends the run.
          cases hfailed
          dsimp only [endTurn] at hgoes
          rw [if_pos (by rw [hfatal, Bool.or_true])] at hgoes
          cases hgoes
        have hover := s.over_endTurn o
        obtain ⟨henclosed', hcount, hsame⟩ := enclosed_over henclosed hover hgoes
        refine ⟨?_, ?_, fun hx => ?_⟩
        · rw [htick]
          exact henclosed'
        · rw [htick]
          exact hcount
        · have hq := hquiet hx
          have hvm := hsame (fun h => hq.stays.1 (congrArg some h))
            (fun h => hq.stays.2 (congrArg some h))
          rw [htick, hweight, hvm, show s.vm = m.vm from hq.vm]
          refine .right _ ?_
          rw [weight, hover.idle]
          exact Nat.succ_pos _

/-- What is executed is within the budget. -/
theorem Enclosed.within (h : m.Enclosed R n) (hx : m.executes = true) :
    m.vm.instructions + 1 ≤ n := by
  cases hr : m.running with
  | none =>
    rw [executes, opcode?, hr] at hx
    cases hx
  | some task =>
    cases h.does hr with
    | executes _ hle => exact hle
    | rests hnot | fails hnot | ends hnot => rw [hnot] at hx; cases hx

/-- What is left of the budget; and what can be done without it, the queue before the running
task. -/
def leeway (n : Nat) (m : Machine) : Nat × Nat × Nat :=
  (n - m.vm.instructions, m.vm.scheduler.queue.length, m.weight)

theorem Enclosed.lessens (h : m.Enclosed R n) (hgoes : m.tick.outcome = none) :
    Prod.Lex (· < ·) (Prod.Lex (· < ·) (· < ·)) (m.tick.machine.leeway n) (m.leeway n) := by
  have hcounted := (h.goes hgoes).counted
  unfold leeway
  cases hx : m.executes with
  | true =>
    have hle := h.within hx
    rw [hx] at hcounted
    refine .left _ _ ?_
    rw [hcounted]
    show n - (m.vm.instructions + 1) < _
    omega
  | false =>
    rw [hx] at hcounted
    rw [hcounted]
    exact .right _ ((h.goes hgoes).smaller hx)

/-! ## Runs -/

/-- The states between the ticks of a run, how it ends, and the machine it leaves behind. -/
inductive Trail : Machine → List Machine → Outcome → Machine → Prop where
  | last {m : Machine} {o : Outcome} (h : m.tick.outcome = some o) : Trail m [m] o m.tick.machine
  | more {m m' : Machine} {states : List Machine} {o : Outcome} (h : m.tick.outcome = none)
      (ht : Trail m.tick.machine states o m') : Trail m (m :: states) o m'

/-- **A machine with a budget comes to an end.** -/
theorem Enclosed.ends (m : Machine) (h : m.Enclosed R n) : ∃ states o m', Trail m states o m' := by
  cases hout : m.tick.outcome with
  | some o => exact ⟨_, _, _, .last hout⟩
  | none =>
    obtain ⟨states, o, m', ht⟩ := Enclosed.ends m.tick.machine (h.goes hout).enclosed
    exact ⟨_, _, _, .more hout ht⟩
termination_by m.leeway n
decreasing_by exact h.lessens hout

namespace Trail

variable {states states' : List Machine} {o o' : Outcome} {m'' : Machine}

/-- A run goes one way only. -/
theorem unique (ht : Trail m states o m') : Trail m states' o' m'' →
    states' = states ∧ o' = o ∧ m'' = m' := by
  induction ht generalizing states' with
  | last hout =>
    intro ht'
    cases ht' with
    | last hout' => exact ⟨rfl, Option.some.inj (hout'.symm.trans hout), rfl⟩
    | more hgoes _ => rw [hout] at hgoes; cases hgoes
  | more hgoes _ ih =>
    intro ht'
    cases ht' with
    | last hout' => rw [hgoes] at hout'; cases hout'
    | more _ hrest =>
      obtain ⟨rfl, rfl, rfl⟩ := ih hrest
      exact ⟨rfl, rfl, rfl⟩

theorem enclosed (ht : Trail m states o m') : m.Enclosed R n → ∀ x ∈ states, x.Enclosed R n := by
  induction ht with
  | last _ =>
    intro h x hx
    rwa [List.mem_singleton.mp hx]
  | more hgoes _ ih =>
    intro h x hx
    rcases List.mem_cons.mp hx with rfl | hx
    · exact h
    · exact ih (h.goes hgoes).enclosed x hx

/-- Instructions are counted as they are executed. -/
theorem counted (ht : Trail m states o m') : m.Enclosed R n → ∀ {pre post : List Machine}
    {x : Machine}, states = pre ++ x :: post →
      x.vm.instructions = m.vm.instructions + pre.countP executes := by
  -- Each machine before `x` counts what its tick executes. `x` itself has yet to tick.
  induction ht with
  | last _ =>
    intro _ pre post x hsplit
    cases pre with
    | nil =>
      obtain ⟨rfl, -⟩ := List.cons.inj hsplit
      rfl
    | cons y pre => simp at hsplit
  | @more m m' states o hgoes _ ih =>
    intro h pre post x hsplit
    cases pre with
    | nil =>
      obtain ⟨rfl, -⟩ := List.cons.inj hsplit
      rfl
    | cons y pre =>
      obtain ⟨rfl, hrest⟩ := List.cons.inj hsplit
      have hcounted := (h.goes hgoes).counted
      rw [ih (h.goes hgoes).enclosed hrest, hcounted, List.countP_cons]
      cases m.executes with
      | true =>
        simp only [Bool.toNat_true, if_true]
        omega
      | false => simp

/-- What is executed is within the budget. -/
theorem within (ht : Trail m states o m') : m.Enclosed R n → m.vm.instructions ≤ n →
    m.vm.instructions + states.countP executes ≤ n := by
  -- What is executed has been found to be within the budget there and then.
  induction ht with
  | @last m o _ =>
    intro h hle
    rw [List.countP_singleton]
    cases hx : m.executes with
    | true => exact h.within hx
    | false => exact hle
  | @more m m' states o hgoes _ ih =>
    intro h hle
    have hcounted := (h.goes hgoes).counted
    rw [List.countP_cons]
    cases hx : m.executes with
    | true =>
      have hone := h.within hx
      rw [hx, Bool.toNat_true] at hcounted
      have hrest := ih (h.goes hgoes).enclosed (by omega)
      simp only [if_true]
      omega
    | false =>
      rw [hx, Bool.toNat_false] at hcounted
      have hrest := ih (h.goes hgoes).enclosed (by omega)
      simp only [Bool.false_eq_true, if_false]
      omega

/-- An error that nobody survives ends the run, and all tasks with it. -/
theorem fatal (ht : Trail m states o m') : ∀ {pre post : List Machine} {x : Machine}
    {e : RuntimeError}, states = pre ++ x :: post → x.raises? = some e → e.isFatal = true →
      post = [] ∧ (∃ trace, o = .failed ⟨e, trace⟩) ∧ m'.running = none ∧ m'.vm.main = none ∧
        m'.vm.scheduler.size = 0 := by
  -- An error that is fatal ends the run, so that only the last tick can have raised it.
  induction ht with
  | @last m o hout =>
    intro pre post x e hsplit hraises he
    cases pre with
    | nil =>
      obtain ⟨rfl, hpost⟩ := List.cons.inj hsplit
      obtain ⟨trace, hfailed, hgone⟩ := tick_fatal hraises he
      rw [hout] at hfailed
      exact ⟨hpost.symm, ⟨trace, Option.some.inj hfailed⟩, hgone⟩
    | cons y pre => simp at hsplit
  | @more m m' states o hgoes _ ih =>
    intro pre post x e hsplit hraises he
    cases pre with
    | nil =>
      obtain ⟨rfl, -⟩ := List.cons.inj hsplit
      obtain ⟨trace, hfailed, -⟩ := tick_fatal hraises he
      rw [hgoes] at hfailed
      cases hfailed
    | cons y pre => exact ih (List.cons.inj hsplit).2 hraises he

end Trail

/-- A hook that never pauses. -/
def NeverPauses {σ : Type} (hook : Option (Hook σ)) : Prop :=
  ∀ k, hook = some k → ∀ s task ip info, (k.offer s task ip info).1 = true

/-- Without pauses, a run goes all the way. -/
theorem Trail.run {σ : Type} {hook : Option (Hook σ)} (hgo : NeverPauses hook)
    {states : List Machine} {o : Outcome} (ht : Trail m states o m') :
    ∀ s, ∃ fuel s', m.runFor hook fuel s = some (o, m', s') := by
  -- A hook that never pauses is asked before each tick, and only its state changes.
  have hask : ∀ m s, ∃ s', ask hook s m = (true, s') := by
    intro m s
    unfold ask
    split
    · exact ⟨_, rfl⟩
    · rename_i k
      split
      · exact ⟨_, Prod.ext (hgo k rfl _ _ _ _) rfl⟩
      · exact ⟨_, rfl⟩
  induction ht with
  | @last m o hout =>
    intro s
    obtain ⟨s', hs'⟩ := hask m s
    exact ⟨1, _, by rw [runFor, hs']; dsimp only; rw [hout]⟩
  | @more m m' states o hgoes _ ih =>
    intro s
    obtain ⟨s₁, hs₁⟩ := hask m s
    obtain ⟨fuel, s', hrun⟩ := ih (tell hook s₁ m.tick)
    refine ⟨fuel + 1, s', ?_⟩
    rw [runFor, hs₁]
    dsimp only
    rw [hgoes]
    exact hrun

/-! ## Programs -/

/-- Without tasks there is nothing to give up. -/
theorem shutdown_heap_idle {m : Machine} (h : m.vm.scheduler.tasks = {}) :
    m.shutdown.heap = m.heap := by
  unfold shutdown Scheduler.drain
  dsimp only
  rw [h, List.map_eq_nil_iff.mpr (Std.ExtTreeMap.toList_eq_nil_iff.mpr rfl)]
  rfl

end Machine

end TaskVm
