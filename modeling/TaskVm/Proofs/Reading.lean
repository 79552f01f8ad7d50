import TaskVm.Proofs.Boundaries
import TaskVm.Proofs.Stirring

/-!
# How far an instruction has been read

An instruction that fails has read no bytes but its own, so the innermost frame is behind one of
them. That is how it can be told later where the error comes from: the byte in front of the
frame's place belongs to the instruction. Only a byte that is no opcode has not been read.

An instruction that goes through is behind its last byte, unless it has gone elsewhere. The check
of the stack comes after that, so an error that it raises may find the frame at another place, or
gone.
-/

namespace TaskVm

open Exec

variable {s s₁ s' : Turn} {f : Frame} {fs : List Frame}

/-- How many bytes belong to the instruction at an offset. One that is not whole goes on to the end
of the code. -/
def Code.extent (code : Code) (offset : Nat) : Nat :=
  (code.instructionLength? offset).getD (code.size - offset)

namespace Code

variable {code : Code} {offset n : Nat} {op : Opcode}

theorem extent_of_length {length : Nat} (h : code.instructionLength? offset = some length) :
    code.extent offset = length := by
  rw [extent, h, Option.getD_some]

/-- Operands that have been read belong to the instruction. -/
theorem le_extent (hop : code.opcode? offset = some op)
    (hn : n ≤ op.operandSize + (code.tailLength? offset op).getD 0)
    (hfits : offset + (1 + n) ≤ code.size) : 1 + n ≤ code.extent offset := by
  unfold extent
  cases hlength : code.instructionLength? offset with
  | none =>
    rw [Option.getD_none]
    omega
  | some length =>
    obtain ⟨op', tail, hop', htail, rfl, -⟩ := instructionLength?_eq_some.mp hlength
    obtain rfl : op = op' := Option.some.inj (hop.symm.trans hop')
    rw [htail, Option.getD_some] at hn
    rw [Option.getD_some]
    omega

theorem lt_of_opcode? (hop : code.opcode? offset = some op) : offset < code.size := by
  obtain ⟨b, hb, -⟩ := Option.bind_eq_some_iff.mp hop
  exact (Array.getElem?_eq_some_iff.mp hb).1

end Code

/-! ## Instructions that have been begun -/

/-- An instruction that a task has begun: in which frame, which one, and how many bytes it has. -/
structure Begun where
  task : TaskId
  /-- The frame, still at the instruction. -/
  frame : Frame
  op : Option Opcode
  length : Nat
deriving DecidableEq

/-- The operations that a task may be parked on. -/
def Opcode.parks : Opcode → Bool
  | .channelSend | .channelRecv | .select => true
  | _ => false

namespace Begun

/-- The instruction that a frame is at. -/
def ofFrame (h : Heap) (task : TaskId) (f : Frame) : Begun :=
  ⟨task, f, (f.code h).opcode? f.ip, (f.code h).extent f.ip⟩

/-- The frame has come to a place in the instruction: behind bytes of it that have been read, or it
is still at a byte that is no opcode. -/
inductive Holds (b : Begun) : Frame → Prop
  | read {op : Opcode} {ip : Nat} (hop : b.op = some op) (hlt : b.frame.ip < ip)
      (hle : ip ≤ b.frame.ip + b.length) : b.Holds { b.frame with ip }
  | stuck (hop : b.op = none) : b.Holds b.frame

end Begun

/-- The instruction that the running task executes next. When it picks up what its wait has come
to, or has come to the end of its code, that is none. -/
def Turn.begun? (s : Turn) : Option Begun :=
  match s.task.resume, s.task.frames with
  | none, f :: _ =>
    if f.ip < (f.code s.heap).size then some (.ofFrame s.heap s.task.id f) else none
  | _, _ => none

/-- What the running task does next, and the instruction that is begun by it. -/
inductive Turn.Proceeds (s : Turn) : Option (Turn × Exec Flow) → Option Begun → Prop
  | rests (hr : s.task.resume = none) (hf : s.task.frames = []) : s.Proceeds none none
  | resumes {r : Resume} (hr : s.task.resume = some r) : s.Proceeds
      (some ({ s with
        acts := s.acts ++ [.resumed s.task.id r]
        task := { s.task with resume := none } }, resumeWith r)) none
  | finishes {f : Frame} {fs : List Frame} (hr : s.task.resume = none)
      (hf : s.task.frames = f :: fs) : s.Proceeds (some (s, leaveFrame .nil)) none
  | begins {f : Frame} {fs : List Frame} (hr : s.task.resume = none)
      (hf : s.task.frames = f :: fs) :
      s.Proceeds (some (s, step)) (some (.ofFrame s.heap s.task.id f))

theorem Turn.proceeds (s : Turn) : s.Proceeds s.action s.begun? := by
  unfold action begun?
  cases hr : s.task.resume with
  | some r => exact .resumes hr
  | none =>
    cases hf : s.task.frames with
    | nil => exact .rests hr hf
    | cons f fs =>
      dsimp only
      by_cases hend : (f.code s.heap).size ≤ f.ip
      · rw [if_pos hend, if_neg (Nat.not_lt_of_le hend)]
        exact .finishes hr hf
      · rw [if_neg hend, if_pos (Nat.lt_of_not_le hend)]
        exact .begins hr hf

/-! ## Instructions that fail -/

namespace Exec

variable {α β : Type} {op : Opcode}

/-- A computation that fails has not moved any frame. -/
def FailsInPlace (x : Exec α) (s : Turn) : Prop :=
  ∀ e s', x s = .error e s' → s'.task.frames = s.task.frames

theorem inPlace_of_stays {x : Exec α} (hx : Leads Turn.Stays x s) : FailsInPlace x s := by
  intro e s' h
  rw [Leads, endState_error h] at hx
  exact hx.frames

theorem inPlace_pure (a : α) (s : Turn) : FailsInPlace (pure a) s := by
  intro e s' h
  cases h

theorem inPlace_modifyTask (f : Task → Task) (s : Turn) : FailsInPlace (modifyTask f) s := by
  intro e s' h
  cases h

theorem inPlace_get_bind {f : Turn → Exec α} (hf : FailsInPlace (f s) s) :
    FailsInPlace (get >>= f) s := hf

/-- What comes first leaves frames alone. -/
theorem inPlace_behind {x : Exec α} {f : α → Exec β} (hx : Leads Turn.Stays x s)
    (hf : ∀ a s', x s = .ok a s' → FailsInPlace (f a) s') : FailsInPlace (x >>= f) s := by
  intro e s'' h
  rcases bind_eq_error.mp h with h | ⟨a, s', ha, h⟩
  · exact inPlace_of_stays hx e s'' h
  · exact (hf a s' ha e s'' h).trans (hx.of_ok ha).frames

/-- What comes last never fails. -/
theorem inPlace_before {x : Exec α} {f : α → β} (hx : FailsInPlace x s) :
    FailsInPlace (x >>= fun a => pure (f a)) s := by
  intro e s'' h
  rcases bind_eq_error.mp h with h | ⟨a, s', -, h⟩
  · exact hx e s'' h
  · cases h

theorem inPlace_jump (offset : Int) (s : Turn) : FailsInPlace (jump offset) s := by
  refine inPlace_behind (stays_frame s) fun f s₁ _ => inPlace_get_bind ?_
  exact inPlace_behind (stays_ofExcept s₁ _) fun g s₂ _ => inPlace_modifyTask _ s₂

theorem inPlace_callValue (callee : Value) (argc : Nat) (s : Turn) :
    FailsInPlace (callValue callee argc) s := by
  cases callee with
  | closure c =>
    intro e s' h
    have hcall : callClosure c argc s = .error e s' := h
    rcases callClosure_cases s c argc with ⟨e', s₁, he, hin⟩ | ⟨s₁, _, g, locals, -, -, -, he⟩
    · obtain ⟨-, rfl⟩ := EStateM.Result.error.inj (he.symm.trans hcall)
      obtain ⟨stack, htask⟩ := hin.task
      rw [htask]
    · rw [he] at hcall
      cases hcall
  | _ => exact inPlace_of_stays (stays_callValue s (by nofun) argc)

theorem inPlace_spawn (callee : Value) (args : List Value) (s : Turn) :
    FailsInPlace (spawn callee args) s := by
  intro e s' h
  unfold spawn at h
  split at h
  · rw [get_bind_apply] at h
    dsimp only at h
    rw [set_bind_apply] at h
    rcases bind_eq_error.mp h with h | ⟨child, s₁, -, h⟩
    -- The running task is back in its place whatever has happened to the new one.
    · unfold withTask at h
      split at h
      · cases h
      · obtain ⟨-, rfl⟩ := EStateM.Result.error.inj h
        rfl
    · rcases bind_eq_error.mp h with h | ⟨_, s₂, -, h⟩ <;> cases h
  · obtain ⟨-, rfl⟩ := EStateM.Result.error.inj h
    rfl

/-- Leaving a frame never fails. -/
theorem leaveFrame_succeeds (v : Value) (s : Turn) : ∃ flow s', leaveFrame v s = .ok flow s' ∧
    (flow = .next ∨ flow = .done v) := by
  rw [leaveFrame, get_bind_apply]
  cases s.task.frames with
  | nil => exact ⟨.next, s, rfl, .inl rfl⟩
  | cons f callers =>
    cases callers with
    | nil => exact ⟨.done v, _, rfl, .inr rfl⟩
    | cons g fs => exact ⟨.next, _, rfl, .inl rfl⟩

theorem inPlace_leaveFrame (v : Value) (s : Turn) : FailsInPlace (leaveFrame v) s := by
  intro e s' h
  obtain ⟨flow, s₁, hok, -⟩ := leaveFrame_succeeds v s
  cases h.symm.trans hok

theorem inPlace_handler (offset : Int) (s : Turn) : FailsInPlace (do
    let s ← get
    let f ← frame
    match f.jumpTarget? s.heap offset with
    | none => invalid "handler target outside chunk"
    | some target => modifyTask (·.protect f target)) s := by
  refine inPlace_get_bind (inPlace_behind (stays_frame s) fun f s₁ _ => ?_)
  split
  · exact inPlace_of_stays (stays_invalid s₁ _)
  · exact inPlace_modifyTask _ s₁

theorem inPlace_spawned (callee : Value) (args : List Value) (s : Turn) : FailsInPlace (do
    push (← spawn callee args)
    pure Flow.next) s := by
  intro e s' h
  rcases bind_eq_error.mp h with h | ⟨v, s₁, -, h⟩
  · exact inPlace_spawn callee args s e s' h
  · cases h

/-- Some operands have been read, and what follows fails in place. -/
theorem fails_behind {x : Exec α} {f : α → Exec β} {e : Fault}
    (h : (x >>= f) s = .error e s') (hx : Takes op.operandSize x s)
    (hf : ∀ a s₁, x s = .ok a s₁ → FailsInPlace (f a) s₁) :
    ∃ n s₁, Allowed s op n ∧ s.Passes n s₁ ∧ s'.task.frames = s₁.task.frames := by
  rcases bind_eq_error.mp h with h | ⟨a, s₁, ha, h⟩
  · rw [Takes, h] at hx
    obtain ⟨n, hn, hpasses⟩ := hx
    exact ⟨n, s', allowed_of_le hn, hpasses, rfl⟩
  · exact ⟨_, s₁, allowed_of_le (Nat.le_refl _), hx.of_ok ha, hf a s₁ ha e s' h⟩

/-- **An instruction that fails has read no more than its operands.** -/
theorem execute_fails (op : Opcode) {e : Fault} (h : execute op s = .error e s') :
    ∃ n s₁, Allowed s op n ∧ s.Passes n s₁ ∧ s'.task.frames = s₁.task.frames := by
  -- Away from control flow the operands are all that is read. The opcodes that move the instruction
  -- pointer are followed through their operands one by one.
  cases hcontrol : isControlOp op with
  | false =>
    obtain ⟨n, s₁, hn, hpasses, hstays⟩ := (decodes_execute hcontrol s).of_error h
    exact ⟨n, s₁, hn, hpasses, hstays.frames⟩
  | true =>
    cases op
    case jump | loop =>
      exact fails_behind h (takes_readOffset s) fun o s₁ _ => inPlace_before (inPlace_jump o s₁)
    case jumpIfFalse =>
      refine fails_behind h (takes_readOffset s) fun o s₁ _ =>
        inPlace_behind (stays_pop s₁) fun v s₂ _ => ?_
      dsimp only
      split
      · exact inPlace_before (inPlace_jump o s₂)
      · exact inPlace_pure _ s₂
    case call =>
      exact fails_behind h (takes_readByte s) fun argc s₁ _ =>
        inPlace_behind (stays_pop s₁) fun callee s₂ _ =>
          inPlace_before (inPlace_callValue callee argc s₂)
    case ret =>
      refine ⟨0, s, allowed_of_le (Nat.zero_le _), .none, ?_⟩
      exact inPlace_behind (stays_pop s) (fun v s₁ _ => inPlace_leaveFrame v s₁) e s' h
    case tryBegin =>
      rcases bind_eq_error.mp h with h | ⟨_, s₁, -, h⟩
      · exact fails_behind h (takes_readOffset s) fun o s₁ _ => inPlace_handler o s₁
      · cases h
    case spawn =>
      exact fails_behind h (takes_readByte s) fun argc s₁ _ =>
        inPlace_behind (stays_pop s₁) fun callee s₂ _ =>
          inPlace_behind (stays_popMany s₂ argc) fun args s₃ _ =>
            inPlace_spawned callee args s₃
    all_goals cases hcontrol

/-- A byte that is no opcode is not read. -/
theorem fetch_fails {e : Fault} (h : fetch s = .error e s') (hf : s.task.frames = f :: fs) :
    s' = s ∧ (f.code s.heap).opcode? f.ip = none := by
  have hframe : frame s = .ok f s := by
    show Exec.ofExcept s.task.frame s = _
    rw [Task.frame, hf]
    rfl
  rw [fetch, bind_ok hframe, get_bind_apply] at h
  unfold Code.opcode?
  cases hb : (f.code s.heap)[f.ip]? with
  | none =>
    simp only [hb] at h
    obtain ⟨-, rfl⟩ := EStateM.Result.error.inj h
    exact ⟨rfl, rfl⟩
  | some b =>
    cases hop : Opcode.ofByte? b with
    | none =>
      simp only [hb, hop] at h
      obtain ⟨-, rfl⟩ := EStateM.Result.error.inj h
      exact ⟨rfl, hop⟩
    | some op =>
      simp only [hb, hop] at h
      cases h

theorem countInstruction_task (op : Opcode) (s : Turn) :
    (endState (countInstruction op) s).task = s.task := by
  unfold countInstruction
  rw [endState_bind_ok (modify_apply _ s), endState_bind_ok (get_apply _)]
  dsimp only
  split
  · split <;> rfl
  · rfl

/-- **Where an instruction that fails has left the frame.** -/
theorem instruction_fails {e : Fault} (h : instruction s = .error e s')
    (hf : s.task.frames = f :: fs) :
    ∃ g, s'.task.frames = g :: fs ∧ (Begun.ofFrame s.heap s.task.id f).Holds g := by
  rcases bind_eq_error.mp h with hfetch | ⟨op, s₁, hfetch, hrest⟩
  · obtain ⟨rfl, hop⟩ := fetch_fails hfetch hf
    exact ⟨f, hf, .stuck hop⟩
  obtain ⟨f', fs', hf', hop, hs₁⟩ := fetch_eq_ok hfetch
  obtain ⟨rfl, rfl⟩ := List.cons.inj (hf'.symm.trans hf)
  have hlt := Code.lt_of_opcode? hop
  have hframes₁ : s₁.task.frames = { f' with ip := f'.ip + 1 } :: fs' := by rw [hs₁]
  rcases bind_eq_error.mp hrest with hcount | ⟨⟨⟩, s₂, hcount, hexecute⟩
  · have htask := countInstruction_task op s₁
    rw [endState_error hcount] at htask
    refine ⟨{ f' with ip := f'.ip + 1 }, htask ▸ hframes₁, .read hop (Nat.lt_succ_self _) ?_⟩
    exact Nat.add_le_add_left (Code.le_extent (n := 0) hop (Nat.zero_le _) hlt) _
  · have htask := countInstruction_task op s₁
    rw [endState_ok hcount] at htask
    have hframes₂ : s₂.task.frames = { f' with ip := f'.ip + 1 } :: fs' := htask ▸ hframes₁
    have hcode : ({ f' with ip := f'.ip + 1 } : Frame).code s₂.heap = f'.code s.heap := by
      rw [countInstruction_ok hcount, hs₁]
      rfl
    obtain ⟨n, s₃, hallowed, hpasses, hframes⟩ := execute_fails op hexecute
    -- The opcode and what has been read of the operands are still bytes of the instruction.
    have hn := hallowed _ fs' f'.ip hframes₂ rfl
    have hfits := hpasses.within hframes₂ (hcode ▸ hlt)
    rw [hcode] at hn hfits
    rw [show f'.ip + 1 + n = f'.ip + (1 + n) from Nat.add_assoc ..] at hfits
    refine ⟨{ f' with ip := f'.ip + (1 + n) }, ?_, .read hop (Nat.lt_add_of_pos_right ?_) ?_⟩
    · rw [hframes, hpasses.frames hframes₂, Nat.add_assoc]
    · exact Nat.add_pos_left Nat.one_pos n
    · exact Nat.add_le_add_left (Code.le_extent hop hn hfits) _

/-! ## Instructions that go through -/

/-- A step succeeds or fails as its instruction does, unless more operands are left than fit. -/
theorem step_eq_error {e : Fault} (h : step s = .error e s') : instruction s = .error e s' ∨
    ∃ flow, instruction s = .ok flow s' ∧ s'.vm.config.stackCapacity < s'.task.stack.size := by
  rcases bind_eq_error.mp h with h | ⟨flow, s₁, hinstruction, hcheck⟩
  · exact .inl h
  · rw [get_bind_apply] at hcheck
    split at hcheck
    · rename_i hover
      obtain ⟨-, rfl⟩ := EStateM.Result.error.inj hcheck
      exact .inr ⟨flow, hinstruction, hover⟩
    · cases hcheck

theorem endState_step (s : Turn) : endState step s = endState instruction s := by
  cases h : instruction s with
  | error e s' => rw [step, endState_error (bind_error h), endState_error h]
  | ok flow s' =>
    rw [step, endState_bind_ok h, endState_bind_ok (get_apply s'), endState_ok h]
    split <;> rfl

/-- An instruction that goes on elsewhere neither parks its task nor throws. -/
theorem flow_of_transfer {flow : Flow} (h : execute op s = .ok flow s')
    (ht : s.transfer op ≠ .none) : flow = .next ∨ ∃ v, flow = .done v := by
  cases op
  case jump | loop =>
    obtain ⟨_, _, -, h⟩ := bind_eq_ok.mp h
    obtain ⟨_, _, -, h⟩ := bind_eq_ok.mp h
    obtain ⟨rfl, -⟩ := EStateM.Result.ok.inj h
    exact .inl rfl
  case jumpIfFalse =>
    obtain ⟨_, _, -, h⟩ := bind_eq_ok.mp h
    obtain ⟨_, s₂, -, h⟩ := bind_eq_ok.mp h
    dsimp only at h
    split at h
    · obtain ⟨_, _, -, h⟩ := bind_eq_ok.mp h
      obtain ⟨rfl, -⟩ := EStateM.Result.ok.inj h
      exact .inl rfl
    · obtain ⟨rfl, -⟩ := EStateM.Result.ok.inj h
      exact .inl rfl
  case call =>
    obtain ⟨_, _, -, h⟩ := bind_eq_ok.mp h
    obtain ⟨_, _, -, h⟩ := bind_eq_ok.mp h
    obtain ⟨_, _, -, h⟩ := bind_eq_ok.mp h
    obtain ⟨rfl, -⟩ := EStateM.Result.ok.inj h
    exact .inl rfl
  case ret =>
    obtain ⟨v, s₁, -, h⟩ := bind_eq_ok.mp h
    obtain ⟨flow', s₂, hok, hflow⟩ := leaveFrame_succeeds v s₁
    obtain ⟨rfl, -⟩ := EStateM.Result.ok.inj (hok.symm.trans h)
    exact hflow.imp_right fun hdone => ⟨v, hdone⟩
  all_goals exact absurd rfl ht

/-- Closing a channel never has to wait. -/
theorem parks_of_block (h : execute op s = .ok .block s') : op.parks = true := by
  cases hop : isChannelOp op with
  | false => exact absurd h (neverBlocks_execute hop s s')
  | true =>
    cases op
    case channelClose =>
      obtain ⟨_, _, -, h⟩ := bind_eq_ok.mp h
      obtain ⟨_, _, -, h⟩ := bind_eq_ok.mp h
      obtain ⟨_, _, -, h⟩ := bind_eq_ok.mp h
      cases h
    case channelSend | channelRecv | select => rfl
    all_goals cases hop

/-- A call makes sure that there is room. -/
theorem call_fits {flow : Flow} (h : execute .call s = .ok flow s')
    (hdeeper : s.task.frames.length < s'.task.frames.length) :
    s'.task.stack.size ≤ s'.vm.config.stackCapacity := by
  have hstirs := stirs_execute .call s
  rw [Leads, endState_ok h] at hstirs
  have hlonger : s.task.entries.length < s'.task.entries.length := by
    rw [Task.entries_length, Task.entries_length]
    exact hdeeper
  cases hstirs with
  | enters _ _ _ h =>
    rw [h.config]
    exact h.room
  | leaves h =>
    obtain ⟨f, callers, v, hf, hentries, -⟩ := h.left
    rw [hentries, Task.entries, hf, List.length_map, List.length_map, List.length_cons] at hlonger
    omega
  | calm h | reserves h | spawns _ h | protects _ h =>
    rw [h.entries] at hlonger
    exact absurd hlonger (Nat.lt_irrefl _)

end Exec

/-- Where a frame is behind its instruction. -/
theorem Begun.holds_behind {h : Heap} {op : Opcode} {length : Nat} (task : TaskId)
    (hop : (f.code h).opcode? f.ip = some op)
    (hlength : (f.code h).instructionLength? f.ip = some length) :
    (Begun.ofFrame h task f).Holds { f with ip := f.ip + length } := by
  refine .read hop (Nat.lt_add_of_pos_right (Code.instructionLength?_bounds hlength).1) ?_
  exact Nat.le_of_eq (congrArg (f.ip + ·) (Code.extent_of_length hlength).symm)

/-- The instruction goes on elsewhere in its code, or in the calling frame. -/
def Transfer.departs : Transfer → Bool
  | .jump | .leave => true
  | .none | .call => false

/-- The next instruction leaves more operands than fit, and when that is found out the frame is no
longer at the instruction. -/
def Turn.strays (s : Turn) : Bool :=
  match s.begun?.bind Begun.op, instruction s with
  | some op, .ok _ s' =>
    (s.transfer op).departs && s'.vm.config.stackCapacity < s'.task.stack.size
  | _, _ => false

theorem Turn.op_of_call {op : Opcode} (h : s.transfer op = .call) : op = .call := by
  cases op
  case call => rfl
  case jumpIfFalse =>
    simp only [transfer] at h
    split at h
    · split at h <;> cases h
    · cases h
  all_goals cases h

namespace Exec

variable {flow : Flow}

/-- What goes through is the instruction that the innermost frame is at. -/
theorem instruction_goes_at (h : instruction s = .ok flow s') (hf : s.task.frames = f :: fs) :
    ∃ op length s₁, (f.code s.heap).opcode? f.ip = some op ∧
      (f.code s.heap).instructionLength? f.ip = some length ∧ s.Goes f fs op length s' ∧
      s₁.task = { s.task with frames := { f with ip := f.ip + 1 } :: fs } ∧
      execute op s₁ = .ok flow s' := by
  obtain ⟨f', fs', op, length, hf', hop, hlength, hgoes⟩ := instruction_goes h
  obtain ⟨rfl, rfl⟩ := List.cons.inj (hf'.symm.trans hf)
  obtain ⟨f', fs', op', s₁, hf', hop', -, htask, hexecute⟩ := instruction_eq_ok h
  obtain ⟨rfl, rfl⟩ := List.cons.inj (hf'.symm.trans hf)
  obtain rfl : op = op' := Option.some.inj (hop.symm.trans hop')
  exact ⟨op, length, s₁, hop, hlength, hgoes, htask, hexecute⟩

/-- An instruction that parks its task or throws leaves the frame behind it. -/
theorem instruction_stays (h : instruction s = .ok flow s') (hf : s.task.frames = f :: fs)
    (hflow : flow = .block ∨ ∃ v, flow = .thrown v) :
    ∃ op g, (f.code s.heap).opcode? f.ip = some op ∧ (flow = .block → op.parks = true) ∧
      s'.task.frames = g :: fs ∧ (Begun.ofFrame s.heap s.task.id f).Holds g := by
  obtain ⟨op, length, s₁, hop, hlength, hgoes, htask, hexecute⟩ := instruction_goes_at h hf
  -- Whatever goes on elsewhere goes on at once, or is done.
  have htransfer : s.transfer op = .none := by
    refine Classical.not_not.mp fun hne => ?_
    have hstack : s₁.task.stack = s.task.stack := by rw [htask]
    rw [← Turn.transfer_congr hstack op] at hne
    rcases flow_of_transfer hexecute hne with rfl | ⟨v, rfl⟩
    · rcases hflow with h | ⟨v, h⟩ <;> cases h
    · rcases hflow with h | ⟨v, h⟩ <;> cases h
  rw [Turn.Goes, htransfer] at hgoes
  refine ⟨op, _, hop, fun hblock => ?_, hgoes, Begun.holds_behind _ hop hlength⟩
  rw [hblock] at hexecute
  exact parks_of_block hexecute

/-- Of an instruction that leaves too many operands the frame is still there, unless it strays. -/
theorem step_fails_at {e : Fault} (h : step s = .error e s') (hf : s.task.frames = f :: fs)
    (hbegun : s.begun? = some (.ofFrame s.heap s.task.id f)) (hstrays : s.strays = false) :
    ∃ g, s'.task.frames = g :: fs ∧ (Begun.ofFrame s.heap s.task.id f).Holds g := by
  rcases step_eq_error h with h | ⟨flow, h, hover⟩
  · exact instruction_fails h hf
  obtain ⟨op, length, s₁, hop, hlength, hgoes, htask, hexecute⟩ := instruction_goes_at h hf
  have hop' : s.begun?.bind Begun.op = some op := by
    rw [hbegun]
    exact hop
  have hdeparts : (s.transfer op).departs = false := by
    unfold Turn.strays at hstrays
    rw [hop', h] at hstrays
    dsimp only at hstrays
    rwa [decide_eq_true hover, Bool.and_true] at hstrays
  unfold Turn.Goes at hgoes
  cases htransfer : s.transfer op with
  | none =>
    rw [htransfer] at hgoes
    exact ⟨_, hgoes, Begun.holds_behind _ hop hlength⟩
  | jump | leave =>
    rw [htransfer] at hdeparts
    cases hdeparts
  | call =>
    -- There has been room for all of the new frame.
    rw [htransfer] at hgoes
    obtain ⟨g, -, hframes⟩ := hgoes
    obtain rfl := Turn.op_of_call htransfer
    have hdeeper : s₁.task.frames.length < s'.task.frames.length := by
      rw [htask, hframes]
      exact Nat.lt_succ_self _
    exact absurd (call_fits hexecute hdeeper) (Nat.not_le_of_lt hover)

/-- The frames behind the innermost one are those that there were, and the one that calls. -/
theorem instruction_callers (hf : s.task.frames = f :: fs) :
    ∀ g ∈ (endState instruction s).task.frames.tail, g ∈ fs ∨
      (f.code s.heap).opcode? f.ip = some .call ∧ (Begun.ofFrame s.heap s.task.id f).Holds g := by
  cases h : instruction s with
  | error e s' =>
    rw [endState_error h]
    obtain ⟨g, hframes, -⟩ := instruction_fails h hf
    rw [hframes]
    exact fun g hg => .inl hg
  | ok flow s' =>
    rw [endState_ok h]
    obtain ⟨op, length, s₁, hop, hlength, hgoes, -, -⟩ := instruction_goes_at h hf
    unfold Turn.Goes at hgoes
    -- Only a call puts a frame under another one, and the frame below is the one that called.
    cases htransfer : s.transfer op with
    | none =>
      rw [htransfer] at hgoes
      rw [hgoes]
      exact fun g hg => .inl hg
    | jump =>
      rw [htransfer] at hgoes
      obtain ⟨ip, -, -, hframes⟩ := hgoes
      rw [hframes]
      exact fun g hg => .inl hg
    | leave =>
      rw [htransfer] at hgoes
      rw [hgoes]
      exact fun g hg => .inl (List.mem_of_mem_tail hg)
    | call =>
      rw [htransfer] at hgoes
      obtain ⟨new, -, hframes⟩ := hgoes
      obtain rfl := Turn.op_of_call htransfer
      rw [hframes]
      intro g hg
      rcases List.mem_cons.mp hg with rfl | hg
      · exact .inr ⟨hop, Begun.holds_behind _ hop hlength⟩
      · exact .inl hg

end Exec

/-! ## The end of a turn -/

namespace Turn

variable {x : Exec Flow} {v : Value} {failure : Failure}

/-- A throw brings back no frame. -/
theorem unwind_callers (s : Turn) (v : Value) {g : Frame}
    (hg : g ∈ (s.unwind v).2.task.frames.tail) : g ∈ s.task.frames.tail := by
  unfold unwind at hg
  cases hh : s.task.handlers with
  | nil =>
    rw [hh] at hg
    exact hg
  | cons hd rest =>
    rw [hh] at hg
    dsimp only [Task.truncateIterations] at hg
    -- The handler's frame is sent elsewhere, the frames behind it are left alone.
    have htail : g ∈ (s.task.frames.drop (s.task.frames.length - hd.frameDepth)).tail := by
      cases hdrop : s.task.frames.drop (s.task.frames.length - hd.frameDepth) with
      | nil =>
        rw [hdrop] at hg
        exact hg
      | cons f callers =>
        rw [hdrop] at hg
        exact hg
    exact (List.drop_sublist _ _).tail.subset htail

theorem perform_callers {g : Frame} (hg : g ∈ (s.perform x).2.task.frames.tail) :
    g ∈ (endState x s).task.frames.tail := by
  unfold perform at hg
  cases hx : x s with
  | ok flow s' =>
    rw [hx] at hg
    rw [endState_ok hx]
    cases flow with
    | thrown v => exact s'.unwind_callers v hg
    | _ => exact hg
  | error fault s' =>
    rw [hx] at hg
    rw [endState_error hx]
    cases fault with
    | endless => exact hg
    | raised e =>
      dsimp only [recover] at hg
      split at hg
      · exact hg
      · exact unwind_callers { s' with events := s'.events ++ [.raised s'.task.id e] } _ hg

theorem stays_resumeWith (r : Resume) (s : Turn) : Leads Turn.Stays (resumeWith r) s := by
  cases r with
  | value v => exact leads_bind (stays_push s v) fun _ s _ => leads_pure _ s
  | selected index v => exact leads_bind (stays_pushSelected s v index) fun _ s _ => leads_pure _ s
  | error e => exact .refl s

/-- **Which frames wait for a call** when the running task has done something: they have waited
before, or it has begun the call. -/
theorem advance_callers {g : Frame} (hg : g ∈ s.advance.2.task.frames.tail) :
    g ∈ s.task.frames.tail ∨ ∃ b, s.begun? = some b ∧ b.op = some .call ∧ b.Holds g := by
  cases ha : s.action with
  | none =>
    rw [advance_done ha] at hg
    exact .inl hg
  | some a =>
    obtain ⟨s₀, x⟩ := a
    rw [advance_action ha] at hg
    have hg := perform_callers hg
    have hproceeds := s.proceeds
    rw [ha] at hproceeds
    generalize hbegun : s.begun? = b at hproceeds
    cases hproceeds with
    | resumes hr =>
      rw [(stays_resumeWith _ _).frames] at hg
      exact .inl hg
    | finishes hr hf =>
      obtain ⟨flow, s', hok, -⟩ := leaveFrame_succeeds .nil s
      rw [endState_ok hok, leaveFrame_frames hok] at hg
      exact .inl (List.mem_of_mem_tail hg)
    | begins hr hf =>
      rw [endState_step] at hg
      rw [hf, List.tail_cons]
      exact (instruction_callers hf g hg).imp_right fun ⟨hop, hholds⟩ => ⟨_, rfl, hop, hholds⟩

/-- A throw that ends its task changes nothing. -/
theorem unwind_failed (hu : s.task.Upright s.heap)
    (h : s.unwind v = (some (.failed failure), s')) :
    s' = s ∧ failure.trace = s.task.trace s.heap := by
  cases hh : s.task.handlers with
  | nil =>
    unfold unwind at h
    rw [hh] at h
    obtain ⟨hfailure, rfl⟩ := Prod.mk.inj h
    injection hfailure with hfailure
    injection hfailure with hfailure
    rw [← hfailure]
    exact ⟨rfl, rfl⟩
  | cons hd rest =>
    have hnone := (unwind_resumes hu hh v).1
    rw [h] at hnone
    cases hnone

/-- A task that fails is taken down as the computation has left it. -/
theorem perform_failed (hu : (endState x s).task.Upright (endState x s).heap)
    (h : s.perform x = (some (.failed failure), s')) :
    failure.trace = s'.task.trace s'.heap ∧ s'.task.frames = (endState x s).task.frames ∧
      ((∃ v s₁, x s = .ok (.thrown v) s₁) ∨ ∃ e s₁, x s = .error e s₁) := by
  unfold perform at h
  cases hx : x s with
  | ok flow s₁ =>
    rw [hx] at h
    rw [endState_ok hx] at hu ⊢
    cases flow with
    | thrown v =>
      obtain ⟨rfl, htrace⟩ := unwind_failed hu h
      exact ⟨htrace, rfl, .inl ⟨v, s', rfl⟩⟩
    | _ => cases h
  | error fault s₁ =>
    rw [hx] at h
    rw [endState_error hx] at hu ⊢
    cases fault with
    | endless => cases h
    | raised e =>
      dsimp only [recover] at h
      split at h
      · obtain ⟨hfailure, rfl⟩ := Prod.mk.inj h
        injection hfailure with hfailure
        injection hfailure with hfailure
        rw [← hfailure]
        exact ⟨rfl, rfl, .inr ⟨_, _, rfl⟩⟩
      · let s₂ : Turn := { s₁ with events := s₁.events ++ [.raised s₁.task.id e] }
        obtain ⟨rfl, htrace⟩ := unwind_failed (s := s₂) hu h
        exact ⟨htrace, rfl, .inr ⟨_, _, rfl⟩⟩

/-- What the running task fails at. -/
inductive FailsAt (s s' : Turn) : Prop
  /-- At the instruction that it has begun. -/
  | begun {f g : Frame} {fs : List Frame} (hbegun : s.begun? = some (.ofFrame s.heap s.task.id f))
      (hf : s.task.frames = f :: fs) (hg : s'.task.frames = g :: fs)
      (holds : (Begun.ofFrame s.heap s.task.id f).Holds g) : FailsAt s s'
  /-- At what its wait has come to. -/
  | waited (hbegun : s.begun? = none) (hr : s.task.resume ≠ none)
      (hf : s'.task.frames = s.task.frames) : FailsAt s s'

/-- **Where a task fails**, its frames are listed as they are. -/
theorem advance_failed (hu : s.Upright) (ht : ∀ f ∈ s.hosts, f.Tame) (hstrays : s.strays = false)
    (h : s.advance = (some (.failed failure), s')) :
    failure.trace = s'.task.trace s'.heap ∧ s.FailsAt s' := by
  cases ha : s.action with
  | none =>
    rw [advance_done ha] at h
    cases h
  | some a =>
    obtain ⟨s₀, x⟩ := a
    obtain ⟨hd₀, hd⟩ := deeds_action ha ht
    rw [advance_action ha] at h
    obtain ⟨htrace, hframes, hends⟩ :=
      perform_failed (upright_of_deeds (hd₀.trans hd) hu).running h
    refine ⟨htrace, ?_⟩
    have hproceeds := s.proceeds
    rw [ha] at hproceeds
    generalize hbegun : s.begun? = b at hproceeds
    -- A turn fails while going on with what it waited for or at the instruction it began; leaving a
    -- frame never fails.
    cases hproceeds with
    | resumes hr =>
      rw [(stays_resumeWith _ _).frames] at hframes
      exact .waited hbegun (by rw [hr]; exact Option.some_ne_none _) hframes
    | finishes hr hf =>
      obtain ⟨flow, s₁, hok, hflow⟩ := leaveFrame_succeeds .nil s
      rcases hends with ⟨v, s₂, hx⟩ | ⟨e, s₂, hx⟩
      · obtain ⟨rfl, -⟩ := EStateM.Result.ok.inj (hok.symm.trans hx)
        rcases hflow with h | h <;> cases h
      · cases hok.symm.trans hx
    | @begins f fs hr hf =>
      rcases hends with ⟨v, s₁, hx⟩ | ⟨e, s₁, hx⟩
      · rw [endState_ok hx] at hframes
        obtain ⟨op, g, -, -, hg, hholds⟩ :=
          instruction_stays (instruction_of_step hx) hf (.inr ⟨v, rfl⟩)
        exact .begun hbegun hf (hframes.trans hg) hholds
      · rw [endState_error hx] at hframes
        obtain ⟨g, hg, hholds⟩ := step_fails_at hx hf hbegun hstrays
        exact .begun hbegun hf (hframes.trans hg) hholds

/-- **Where a task is parked**, its innermost frame is behind the operation it has begun. -/
theorem advance_blocked (h : s.advance = (some .blocked, s')) : ∃ b g, s.begun? = some b ∧
    b.op.any Opcode.parks = true ∧ s'.task.frames = g :: s.task.frames.tail ∧ b.Holds g := by
  cases ha : s.action with
  | none =>
    rw [advance_done ha] at h
    cases h
  | some a =>
    obtain ⟨s₀, x⟩ := a
    rw [advance_action ha] at h
    obtain ⟨s₁, hx⟩ := perform_blocked (congrArg Prod.fst h)
    have hs₁ : s' = s₁ := by
      rw [perform, hx] at h
      exact (Prod.mk.inj h).2.symm
    have hproceeds := s.proceeds
    rw [ha] at hproceeds
    generalize hbegun : s.begun? = b at hproceeds
    cases hproceeds with
    | @resumes r hr =>
      cases r <;> cases hx
    | finishes hr hf =>
      obtain ⟨flow, s₂, hok, hflow⟩ := leaveFrame_succeeds .nil s
      obtain ⟨rfl, -⟩ := EStateM.Result.ok.inj (hok.symm.trans hx)
      rcases hflow with h | h <;> cases h
    | @begins f fs hr hf =>
      obtain ⟨op, g, hop, hparks, hg, hholds⟩ :=
        instruction_stays (instruction_of_step hx) hf (.inl rfl)
      refine ⟨_, g, rfl, ?_, ?_, hholds⟩
      · rw [Begun.ofFrame, hop, Option.any_some]
        exact hparks rfl
      · rw [hs₁, hg, hf, List.tail_cons]

end Turn

end TaskVm
