import TaskVm.Proofs.Operations

/-!
# Turns

One thing the running task does, from picking up a result to the end of its turn. All of it
is followed by the net, with one exception. An operation that has lined up, for want of room
on the operand stack, fails like any other instruction, and nothing takes its task out of the
lines. If that is the end of the task no harm is done, but if a handler catches the failure
the task goes on with its waiters in line.
-/

namespace TaskVm

open Exec Relation

variable {s : Turn}

/-! ## The running task -/

/-- Changes do not concern the waits of the running task. -/
theorem badge_of_changes {s s' : Turn} (h : Changes s s') (hs : s.Good) :
    s'.task.badge = s.task.badge := by
  induction h with
  | refl => rfl
  | @tail s₁ s₂ h hc ih =>
    have hkeyed := ((follows_of_changes h hs).1).tended.keyed
    have hrunning : s₂.crew.running = s₁.crew.running := by
      rcases ChangeIn.crew hkeyed hc with hc | hc | hc
      · rw [hc]
      · rw [hc, Crew.reserve]
      · rw [hc]
        rfl
    exact (Option.some.inj hrunning).trans ih

theorem follows_of_same {s s' : Turn} (hh : s'.hosts = s.hosts) (hc : s'.crew = s.crew)
    (hch : s'.heap.channels = s.heap.channels) {acts : List Act} (ha : s'.acts = s.acts ++ acts)
    (hp : ∀ a ∈ acts, a.isPrivate) : Follows s s' := by
  intro hs
  unfold Turn.Good Turn.net
  rw [hh, hc, hch]
  exact ⟨hs, acts, ha, Net.run_private hp⟩

namespace Turn

/-! ## What follows an instruction -/

/-- Unwinding is a matter between a task and its own frames. -/
theorem unwind_follows (s : Turn) (v : Value) :
    Follows s (s.unwind v).2 ∧ (s.unwind v).1 ≠ some .blocked := by
  unfold unwind
  split
  · exact ⟨refl_of Follows s, by simp⟩
  · rename_i handler _ _
    extract_lets surplus left events acts task
    have hclose :=
      s.task.openUpvalues.closeFrom_frame s.heap handler.stackDepth s.task.stack
    have hhandles := congrArg Heap.handles hclose
    have hchannels := congrArg Heap.channels hclose
    have hleft : ∀ a ∈ [Act.left s.task.id left], a.isPrivate := by simp [Act.isPrivate]
    dsimp only
    split
    · exact ⟨follows_of_same rfl (crew_eq rfl rfl rfl hhandles rfl) hchannels rfl hleft,
        by simp⟩
    · exact ⟨follows_of_same rfl (crew_eq rfl rfl rfl hhandles rfl) hchannels rfl hleft,
        by simp⟩

theorem follow_follows (s : Turn) {flow : Flow} (h : flow ≠ .block) :
    Follows s (s.follow flow).2 ∧ (s.follow flow).1 ≠ some .blocked := by
  cases flow with
  | block => exact absurd rfl h
  | thrown v => exact s.unwind_follows v
  | next | yield | done result => exact ⟨refl_of Follows s, by simp [follow]⟩

theorem recover_follows (s : Turn) (e : Fault) :
    Follows s (s.recover e).2 ∧ (s.recover e).1 ≠ some .blocked := by
  cases e with
  | endless => exact ⟨refl_of Follows s, by simp [recover]⟩
  | raised e =>
    have htell : Follows s { s with events := s.events ++ [.raised s.task.id e] } :=
      (ChangeIn.tell [.raised s.task.id e]).follows
    unfold recover
    dsimp only
    split
    · exact ⟨htell, by simp⟩
    · obtain ⟨hunwind, hne⟩ := unwind_follows
        { s with events := s.events ++ [.raised s.task.id e] } (.error e)
      exact ⟨trans_of Follows htell hunwind, hne⟩

/-- A computation that leads on and does not park the task. -/
theorem perform_follows {x : Exec Flow} (h : Leads Follows x s) (hb : ∀ s', x s ≠ .ok .block s') :
    Follows s (s.perform x).2 ∧ (s.perform x).1 ≠ some .blocked := by
  unfold perform
  cases hx : x s with
  | ok flow s' =>
    have hne : flow ≠ .block := fun he => hb s' (he ▸ hx)
    obtain ⟨hf, ho⟩ := s'.follow_follows hne
    exact ⟨trans_of Follows (h.of_ok hx) hf, ho⟩
  | error e s' =>
    rw [Leads, endState_error hx] at h
    obtain ⟨hf, ho⟩ := s'.recover_follows e
    exact ⟨trans_of Follows h hf, ho⟩

/-- A turn ends with parking only when a computation has parked the task. -/
theorem perform_blocked {x : Exec Flow} (h : (s.perform x).1 = some .blocked) :
    ∃ s', x s = .ok .block s' := by
  unfold perform at h
  cases hx : x s with
  | error e s' =>
    rw [hx] at h
    exact absurd h (s'.recover_follows e).2
  | ok flow s' =>
    rw [hx] at h
    by_cases hb : flow = .block
    · exact ⟨s', by rw [hb]⟩
    · exact absurd h (s'.follow_follows hb).2

/-! ## A step -/

/-- The next instruction lines up in vain: more operands are left than there is room for, and
a handler makes the task go on while its waiters are in line. -/
def strands (s : Turn) : Bool :=
  s.task.resume.isNone && match instruction s with
    | .ok .block s' =>
      s'.vm.config.stackCapacity < s'.task.stack.size && !s'.task.handlers.isEmpty
    | _ => false

/-- What the running task does when it has the turn. -/
inductive Advances (s : Turn) : Option TurnEnd → Turn → Prop where
  | goes {o : Option TurnEnd} {s' : Turn} (h : Follows s s') (hb : o ≠ some .blocked) :
      Advances s o s'
  /-- It waits. -/
  | waits {s₁ s' : Turn} {op : Operation} (h : Changes s s₁) (hnone : s.task.resume = none)
      (hw : Waits op s₁ s') : Advances s (some .blocked) s'
  /-- It has lined up and comes to its end. -/
  | fails {s₁ s₂ : Turn} {op : Operation} (h : Changes s s₁) (hnone : s.task.resume = none)
      (hw : Waits op s₁ s₂) (events : List Event) (failure : Failure) :
      Advances s (some (.failed failure)) { s₂ with events }

/-- The next instruction, with the check that its operands have room. -/
theorem step_advances (hs : s.Good) (hnone : s.task.resume = none) (hroom : s.strands = false) :
    s.Advances (s.perform step).1 (s.perform step).2 := by
  cases instruction_settles hs with
  | goes h hb =>
    have hstep : Leads Follows step s := leads_bind h fun flow s' _ => leads_get_bind (by
      split
      · exact leads_throw _ s'
      · exact leads_pure _ s')
    obtain ⟨hf, hb⟩ := perform_follows hstep fun s' hstep => by
      obtain ⟨flow, s₁, h₁, hstep⟩ := bind_eq_ok.mp hstep
      rw [get_bind_apply] at hstep
      split at hstep
      · cases hstep
      · injection hstep with hflow hs'
        exact hb s₁ (hflow ▸ h₁)
    exact .goes hf hb
  | @waits s₁ s' op h hx hw =>
    by_cases hfull : s'.vm.config.stackCapacity < s'.task.stack.size
    · rw [strands, hnone, hx] at hroom
      -- Nobody is left lined up with a handler to go on to, so the overflow ends the task.
      have hempty : s'.task.handlers = [] := by simpa [hfull] using hroom
      have hfail : step s = .error (.raised (.stackOverflow s'.task.frames.length)) s' := by
        rw [step, bind_ok hx, get_bind_apply, if_pos hfull]
        rfl
      unfold perform
      rw [hfail]
      unfold recover unwind
      dsimp only
      rw [hempty, if_neg (by simp [RuntimeError.isFatal])]
      exact .fails h hnone hw _ _
    · have hok : step s = .ok .block s' := by
        rw [step, bind_ok hx, get_bind_apply, if_neg hfull]
        rfl
      unfold perform
      rw [hok]
      exact .waits h hnone hw

/-- Picking up a result. -/
theorem resume_follows {r : Resume} (hr : s.task.resume = some r) :
    Follows s { s with
      acts := s.acts ++ [.resumed s.task.id r], task := { s.task with resume := none } } := by
  intro hs
  have hcrew : Turn.crew { s with
      acts := s.acts ++ [.resumed s.task.id r], task := { s.task with resume := none } } =
      s.crew.resume s.task.badge := rfl
  have hrunning : s.crew.running = some s.task.badge := rfl
  -- Only those held are in line, and the running task is not held.
  have hlive : (s.crew.resume s.task.badge).live = s.crew.live := rfl
  have hwait := Crew.wait_resume hrunning
  refine ⟨⟨hs.tame, ?_, ?_⟩, _, rfl, ?_⟩
  · rw [hcrew]
    exact hs.tended.resume hrunning
  · rw [hcrew]
    intro ch hch w hw
    obtain ⟨hlt, hx⟩ := hs.dated ch hch w hw
    refine ⟨hlt, fun x => ?_⟩
    rw [hwait]
    dsimp only
    split
    · rename_i ht
      rintro ⟨rfl⟩
      exact hx ⟨s.task.waitEpoch, false, s.task.resume⟩ (ht ▸ Crew.wait_running hrunning)
    · exact hx x
  · have hstep := Net.Step.resume (n := s.net) (hr ▸ s.wait_task)
    have hnet : Turn.net { s with
        acts := s.acts ++ [.resumed s.task.id r], task := { s.task with resume := none } } =
        s.net.setWait s.task.id (some ⟨s.task.waitEpoch, false, none⟩) := by
      rw [Turn.net, hcrew, Crew.net, hlive, hwait]
      rfl
    rw [hnet]
    exact hstep.run

theorem resumeWith_neverBlocks (r : Resume) : NeverBlocks (resumeWith r) := by
  cases r with
  | value v => exact neverBlocks_bind fun _ => neverBlocks_pure (by simp)
  | selected index v => exact neverBlocks_bind fun _ => neverBlocks_pure (by simp)
  | error e => exact neverBlocks_pure (by simp)

theorem resumeWith_follows (r : Resume) (s : Turn) :
    Follows s (s.perform (resumeWith r)).2 ∧ (s.perform (resumeWith r)).1 ≠ some .blocked := by
  refine perform_follows ?_ (resumeWith_neverBlocks r s)
  cases r with
  | value v => exact leads_bind (leads_push s v).follows fun _ s _ => leads_pure _ s
  | selected index v =>
    refine leads_bind (leads_bind (leads_push s v).follows fun _ s _ => ?_) fun _ s _ => ?_
    · exact (leads_push s _).follows
    · exact leads_pure _ s
  | error e => exact leads_pure _ s

/-- **What the running task does is followed by the net**, or it waits. -/
theorem advances (hs : s.Good) (hroom : s.strands = false) :
    s.Advances s.advance.1 s.advance.2 := by
  unfold advance
  split
  · rename_i r hr
    obtain ⟨hf, hb⟩ := resumeWith_follows r { s with
      acts := s.acts ++ [.resumed s.task.id r], task := { s.task with resume := none } }
    exact .goes (trans_of Follows (resume_follows hr) hf) hb
  · rename_i hnone
    split
    · exact .goes (refl_of Follows s) (by simp)
    · split
      · obtain ⟨hf, hb⟩ := perform_follows (leads_leaveFrame s .nil).follows
          (neverBlocks_leaveFrame .nil s)
        exact .goes hf hb
      · exact step_advances hs hnone hroom

end Turn

end TaskVm
