import TaskVm.Proofs.EchoedInstructions

/-!
# Turns and runs in other guises

A task does the same in every guise when it has its turn, tasks take turns in the same order, and
a run ends in the same way, as long as no task is turned into text.
-/

namespace TaskVm

open Exec

/-! ## Turns -/

namespace Exec

variable {ρ : TaskId → TaskId} {s : Turn}

theorem echo_fetch : Echo ρ fetch := by
  refine echo_bind echo_frame fun f => echoes_get_bind fun s g hg => ?_
  rw [show (s.guise ρ g).heap = s.heap.guise ρ g.memory.chunks from rfl, f.code_guise hg.code]
  split
  · exact echoes_raise _
  · split
    · exact echoes_raise _
    · exact echo_bind (echoes_modifyTask fun _ => rfl) fun _ => echo_pure _

theorem echo_countInstruction (op : Opcode) : Echo ρ (countInstruction op) := by
  refine echoes_bind (echoes_modify fun s g hg =>
    ⟨{ g with profiler := g.profiler.recordInstruction op }, hg, rfl⟩) fun _ _ _ => ?_
  refine echoes_get_bind fun s g hg => ?_
  dsimp only
  rw [show (s.guise ρ g).vm.config = s.vm.config from rfl,
    show (s.guise ρ g).vm.instructions = s.vm.instructions from rfl]
  split
  · split
    · exact echoes_raise _
    · exact echo_pure _
  · exact echo_pure _

theorem echoAt_step (hρ : Renumbers ρ) (hd : ∀ op s₁ s₂, fetch s = .ok op s₁ →
      countInstruction op s₁ = .ok ⟨⟩ s₂ → Discreet op s₂) :
    EchoesAt ρ (· = ·) step step s := by
  have hinstruction : EchoesAt ρ (· = ·) instruction instruction s :=
    echoAt_bind echo_fetch fun op s₁ h₁ => echoAt_bind (echo_countInstruction op)
      fun _ s₂ h₂ => echoAt_execute hρ (hd op s₁ s₂ h₁ h₂)
  refine echoesAt_bind hinstruction fun flow _ s' _ hflow => ?_
  subst hflow
  refine echoesAt_get_bind fun g hg => ?_
  rw [show (s'.guise ρ g).vm.config = s'.vm.config from rfl,
    show (s'.guise ρ g).task.stack = s'.task.stack from rfl,
    show (s'.guise ρ g).task.frames = s'.task.frames from rfl]
  split
  · exact echoes_raise _ s'
  · exact echo_pure flow s'

end Exec

namespace Turn

variable {ρ : TaskId → TaskId} {s : Turn}

/-- Two turns have come to the same, up to the guise. -/
def Matches (ρ : TaskId → TaskId) (r r' : Option TurnEnd × Turn) : Prop :=
  ∃ g : Guise, g.Fits ρ r.2 ∧ r' = (r.1, r.2.guise ρ g)

theorem uncaught_guise {h : Heap} {cs : Array Chunk} (hcs : SameCode cs h.chunks) {v : Value}
    (hv : ¬h.Mentions v) : uncaught (h.guise ρ cs) v = uncaught h v := by
  cases v with
  | error e => rfl
  | _ => exact congrArg RuntimeError.unhandledException (Heap.display_guise hcs hv)

/-- A throw that nobody catches turns the thrown value into text. -/
theorem unwind_guise {v : Value} (hv : s.task.handlers = [] → ¬s.heap.Mentions v) {g : Guise}
    (hg : g.Fits ρ s) : Matches ρ (s.unwind v) ((s.guise ρ g).unwind v) := by
  unfold unwind
  rw [show (s.guise ρ g).task.handlers = s.task.handlers from rfl]
  cases hh : s.task.handlers with
  | nil =>
    refine ⟨g, hg, ?_⟩
    dsimp only
    rw [show (s.guise ρ g).heap = s.heap.guise ρ g.memory.chunks from rfl,
      uncaught_guise hg.code (hv hh)]
    have htrace : (s.guise ρ g).task.trace (s.heap.guise ρ g.memory.chunks) = s.task.trace s.heap :=
      Task.trace_guise hg.code s.task
    rw [htrace]
  | cons handler rest =>
    have hclose : s.task.openUpvalues.closeFrom (s.heap.guise ρ g.memory.chunks) handler.stackDepth
        s.task.stack = _ := s.task.openUpvalues.closeFrom_guise handler.stackDepth s.task.stack
    have hchunks : (s.task.openUpvalues.closeFrom s.heap handler.stackDepth s.task.stack).2.chunks =
        s.heap.chunks := by
      rw [OpenUpvalues.closeFrom_frame]
    dsimp only
    rw [show (s.guise ρ g).task.openUpvalues.closeFrom (s.guise ρ g).heap handler.stackDepth
      (s.guise ρ g).task.stack = _ from hclose]
    let left := s.task.frames.take (s.task.frames.length - handler.frameDepth)
    let g' : Guise := { g with
      events := g.events ++ (s.guise ρ g).returnedByThrow v left
      acts := g.acts ++ [.left (ρ s.task.id) left] }
    have hdrop : ((s.guise ρ g).task.truncateIterations handler.iterDepth).frames.drop
        ((s.guise ρ g).task.frames.length - handler.frameDepth) =
        (s.task.truncateIterations handler.iterDepth).frames.drop
          (s.task.frames.length - handler.frameDepth) := rfl
    rw [hdrop]
    cases (s.task.truncateIterations handler.iterDepth).frames.drop
        (s.task.frames.length - handler.frameDepth) with
    | nil => exact ⟨g', hg.of_chunks hchunks, rfl⟩
    | cons f callers => exact ⟨g', hg.of_chunks hchunks, rfl⟩

theorem recover_guise (e : Fault) {g : Guise} (hg : g.Fits ρ s) :
    Matches ρ (s.recover e) ((s.guise ρ g).recover e) := by
  cases e with
  | endless => exact ⟨g, hg, rfl⟩
  | raised e =>
    let s₁ : Turn := { s with events := s.events ++ [.raised s.task.id e] }
    let g₁ : Guise := { g with events := g.events ++ [.raised (ρ s.task.id) e] }
    have hg₁ : g₁.Fits ρ s₁ := hg
    unfold recover
    dsimp only
    split
    · refine ⟨g₁, hg₁, ?_⟩
      have htrace : (s.guise ρ g).task.trace (s.heap.guise ρ g.memory.chunks) =
          s.task.trace s.heap := Task.trace_guise hg.code s.task
      rw [show (s.guise ρ g).heap = s.heap.guise ρ g.memory.chunks from rfl, htrace]
      rfl
    · exact unwind_guise (s := s₁) (fun _ hm => by cases hm) hg₁

theorem follow_guise {flow : Flow}
    (hv : ∀ v, flow = .thrown v → s.task.handlers = [] → ¬s.heap.Mentions v) {g : Guise}
    (hg : g.Fits ρ s) : Matches ρ (s.follow flow) ((s.guise ρ g).follow flow) := by
  cases flow with
  | thrown v => exact unwind_guise (hv v rfl) hg
  | _ => exact ⟨g, hg, rfl⟩

theorem perform_guise {x : Exec Flow} (hx : EchoesAt ρ (· = ·) x x s)
    (hv : ∀ v s', x s = .ok (.thrown v) s' → s'.task.handlers = [] → ¬s'.heap.Mentions v)
    {g : Guise} (hg : g.Fits ρ s) : Matches ρ (s.perform x) ((s.guise ρ g).perform x) := by
  have hanswers := hx g hg
  unfold perform
  generalize x (s.guise ρ g) = r' at hanswers ⊢
  cases hr : x s with
  | ok flow s' =>
    rw [hr] at hanswers
    cases hanswers with
    | ok hq hg' =>
      subst hq
      exact follow_guise (fun v hflow => hv v s' (hflow ▸ hr)) hg'
  | error e s' =>
    rw [hr] at hanswers
    cases hanswers with
    | error hg' => exact recover_guise e hg'

theorem echo_resumeWith (r : Resume) : Echo ρ (resumeWith r) := by
  cases r with
  | value v => exact echo_bind (echo_push v) fun _ => echo_pure _
  | selected index v => exact echo_bind (echo_pushSelected v index) fun _ => echo_pure _
  | error e => exact echo_pure _

/-- What a task that picks up a result throws is an error. -/
theorem resumeWith_thrown {r : Resume} {v : Value} {s s' : Turn}
    (h : resumeWith r s = .ok (.thrown v) s') : ∃ e, v = .error e := by
  cases r with
  | value w => cases h
  | selected index w => cases h
  | error e =>
    cases h
    exact ⟨e, rfl⟩

theorem leaveFrame_thrown {result v : Value} {s s' : Turn}
    (h : leaveFrame result s = .ok (.thrown v) s') : False := by
  rw [leaveFrame, get_bind_apply] at h
  cases hf : s.task.frames with
  | nil =>
    rw [hf] at h
    cases h
  | cons f callers =>
    rw [hf] at h
    dsimp only at h
    rw [get_bind_apply] at h
    obtain ⟨_, s₁, -, h⟩ := bind_eq_ok.mp h
    obtain ⟨_, s₂, -, h⟩ := bind_eq_ok.mp h
    split at h <;> cases h

/-- A turn turns no task into text by what it does next. -/
structure Discreet (s : Turn) : Prop where
  told : ∀ op s₁ s₂, fetch s = .ok op s₁ → countInstruction op s₁ = .ok ⟨⟩ s₂ → Exec.Discreet op s₂
  thrown : ∀ v s', step s = .ok (.thrown v) s' → s'.task.handlers = [] → ¬s'.heap.Mentions v

/-- **A task does the same in every guise when it has its turn.** -/
theorem advance_guise (hρ : Renumbers ρ) (hd : s.task.resume = none → s.Discreet) {g : Guise}
    (hg : g.Fits ρ s) : Matches ρ s.advance (s.guise ρ g).advance := by
  unfold advance
  rw [show (s.guise ρ g).task.resume = s.task.resume from rfl]
  cases hr : s.task.resume with
  | some r =>
    let s₁ : Turn := { s with
      acts := s.acts ++ [.resumed s.task.id r], task := { s.task with resume := none } }
    let g₁ : Guise := { g with acts := g.acts ++ [.resumed (ρ s.task.id) r] }
    have hg₁ : g₁.Fits ρ s₁ := hg
    refine perform_guise (echo_resumeWith r s₁) (fun v s' h _ hm => ?_) hg₁
    obtain ⟨e, rfl⟩ := resumeWith_thrown h
    cases hm
  | none =>
    dsimp only
    rw [show (s.guise ρ g).task.frames = s.task.frames from rfl]
    cases s.task.frames with
    | nil => exact ⟨g, hg, rfl⟩
    | cons f fs =>
      dsimp only
      rw [show (s.guise ρ g).heap = s.heap.guise ρ g.memory.chunks from rfl, f.code_guise hg.code]
      split
      · exact perform_guise (echo_leaveFrame .nil s) (fun v s' h => (leaveFrame_thrown h).elim) hg
      · exact perform_guise (echoAt_step hρ (hd hr).told) (hd hr).thrown hg

end Turn

end TaskVm
