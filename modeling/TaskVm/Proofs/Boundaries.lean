import TaskVm.Proofs.Decoding
import TaskVm.Proofs.Pieces

/-!
# Where one instruction ends and the next begins

The length of an instruction is measured by the layout of code, and nobody asks the layout when an
instruction is executed: it reads operand after operand, and whatever comes then is the next one.
Both come to the same place. From there an instruction goes on, or it jumps, or it lets a new frame
go on and comes back to this place, or it leaves its frame.

So code that is executed in a straight line is cut into the same instructions as code that is
listed or searched for locals, up to the first byte that begins none, where execution fails.
-/

namespace TaskVm

open Exec

variable {s s₁ s' : Turn} {f : Frame} {fs : List Frame}

/-! ## Operands -/

namespace Exec

/-- What is read as a word is what a listing shows. -/
theorem readWord_eq_ok {w : Nat} (h : readWord s = .ok w s') (hf : s.task.frames = f :: fs) :
    w = ((f.code s.heap).wordAt f.ip).toNat := by
  obtain ⟨hi, s₂, h₂, h⟩ := bind_eq_ok.mp h
  obtain ⟨lo, s₃, h₃, h⟩ := bind_eq_ok.mp h
  obtain ⟨rfl, -⟩ := EStateM.Result.ok.inj h
  obtain ⟨g, gs, hb, hg, hhi, rfl, rfl⟩ := readByte_eq_ok h₂
  obtain ⟨rfl, rfl⟩ := List.cons.inj (hg.symm.trans hf)
  obtain ⟨g', gs', lb, hg', hlo, rfl, rfl⟩ := readByte_eq_ok h₃
  obtain ⟨rfl, rfl⟩ := List.cons.inj hg'
  have hlo : (g.code s.heap)[g.ip + 1]? = some lb := hlo
  have hhi' := hb.toNat_lt
  have hlo' := lb.toNat_lt
  rw [Code.wordAt, Code.byteAt, Code.byteAt, Array.getD_eq_getD_getElem?,
    Array.getD_eq_getD_getElem?, hhi, hlo]
  exact (Nat.mod_eq_of_lt (by omega)).symm

theorem readOffset_eq_ok {o : Int} (h : readOffset s = .ok o s') (hf : s.task.frames = f :: fs) :
    o = Heap.offsetAt (f.code s.heap) f.ip := by
  obtain ⟨w, s₁, h₁, h⟩ := bind_eq_ok.mp h
  obtain ⟨rfl, -⟩ := EStateM.Result.ok.inj h
  rw [Heap.offsetAt, ← readWord_eq_ok h₁ hf]

theorem jump_eq_ok {o : Int} {u : Unit} (h : jump o s = .ok u s')
    (hf : s.task.frames = f :: fs) : ∃ ip : Nat, (ip : Int) = f.ip + o ∧
      ip ≤ (f.code s.heap).size ∧ s'.task.frames = { f with ip } :: fs := by
  obtain ⟨g, s₁, hg, hrest⟩ := bind_eq_ok.mp h
  obtain ⟨rfl, gs, hgs⟩ := frame_eq_ok s hg
  obtain ⟨rfl, rfl⟩ := List.cons.inj (hgs.symm.trans hf)
  rw [get_bind_apply] at hrest
  obtain ⟨g', s₂, hjump, hlast⟩ := bind_eq_ok.mp hrest
  obtain ⟨hjump, rfl⟩ := ofExcept_eq_ok _ hjump
  -- A target outside the code is an error, and then nobody jumps.
  unfold Frame.jump at hjump
  split at hjump
  · rename_i ip hip
    obtain rfl := Except.ok.inj hjump
    obtain ⟨-, rfl⟩ := EStateM.Result.ok.inj hlast
    refine ⟨ip, ?_, jumpTarget?_le hip, ?_⟩
    · unfold Frame.jumpTarget? at hip
      dsimp only at hip
      split at hip
      · cases hip
      · obtain rfl := Option.some.inj hip
        omega
    · show _ :: s₂.task.frames.drop 1 = _
      rw [hf, List.drop_one, List.tail_cons]
  · cases hjump

end Exec

/-! ## Control -/

/-- Where an instruction goes on. -/
inductive Transfer where
  /-- Behind the instruction. -/
  | none
  /-- Elsewhere in the code. -/
  | jump
  /-- In a new frame, and later behind the instruction. -/
  | call
  /-- In the calling frame. -/
  | leave

/-- Where an instruction goes on if it succeeds. Its opcode decides, and for a conditional jump and
for a call the topmost operand. -/
def Turn.transfer (s : Turn) : Opcode → Transfer
  | .jump | .loop => .jump
  | .jumpIfFalse =>
    match s.task.stack.back? with
    | some v => if v.isTruthy then .none else .jump
    | none => .none
  | .call =>
    match s.task.stack.back? with
    | some (.closure _) => .call
    | _ => .none
  | .ret => .leave
  | _ => .none

/-- Where an instruction has gone on whose operands have been read. -/
def Turn.Lands (s s₁ s' : Turn) (op : Opcode) : Prop :=
  match s.transfer op with
  | .none => s'.task.frames = s₁.task.frames
  | .jump => ∀ f fs, s.task.frames = f :: fs → ∃ ip : Nat,
      (ip : Int) = (f.ip + 2 : Nat) + Heap.offsetAt (f.code s.heap) f.ip ∧
      ip ≤ (f.code s.heap).size ∧ s'.task.frames = { f with ip } :: fs
  | .call => ∃ g, g.ip = 0 ∧ s'.task.frames = g :: s₁.task.frames
  | .leave => s'.task.frames = s₁.task.frames.tail

namespace Exec

/-- An offset is counted from behind the bytes that it is read from. -/
theorem jump_of_readOffset {o : Int} {s₂ : Turn} {u : Unit} (hread : readOffset s = .ok o s₁)
    (hframes : s₂.task.frames = s₁.task.frames) (hheap : s₂.heap = s₁.heap)
    (hjump : jump o s₂ = .ok u s') (hf : s.task.frames = f :: fs) : ∃ ip : Nat,
      (ip : Int) = (f.ip + 2 : Nat) + Heap.offsetAt (f.code s.heap) f.ip ∧
      ip ≤ (f.code s.heap).size ∧ s'.task.frames = { f with ip } :: fs := by
  have hpasses := (takes_readOffset s).of_ok hread
  obtain ⟨ip, hip, hle, hframes'⟩ := jump_eq_ok hjump (hframes.trans (hpasses.frames hf))
  rw [readOffset_eq_ok hread hf] at hip
  rw [hheap, hpasses.heap] at hle
  exact ⟨ip, hip, hle, hframes'⟩

/-- What is popped was the topmost value, and nothing else has changed that matters for control. -/
theorem pop_frames {v : Value} (h : pop s = .ok v s') : s.task.stack.back? = some v ∧
    s'.task.frames = s.task.frames ∧ s'.heap = s.heap := by
  obtain ⟨hv, rfl⟩ := pop_eq_ok h
  exact ⟨hv, rfl, rfl⟩

/-- A closure that is called has a frame, which begins with its code. -/
theorem callValue_frames {callee : Value} {argc : Nat} {u : Unit}
    (h : callValue callee argc s = .ok u s') :
    match callee with
    | .closure _ => ∃ g, g.ip = 0 ∧ s'.task.frames = g :: s.task.frames
    | _ => s'.task.frames = s.task.frames := by
  cases callee with
  | closure c =>
    have hcall : callClosure c argc s = .ok u s' := h
    rcases callClosure_cases s c argc with ⟨e, s₁, he, -⟩ | ⟨s₁, e, g, locals, hin, -, hip, he⟩
    · rw [he] at hcall
      cases hcall
    · rw [he] at hcall
      obtain ⟨-, rfl⟩ := EStateM.Result.ok.inj hcall
      obtain ⟨stack, htask⟩ := hin.task
      have hframes : s₁.task.frames = s.task.frames := by rw [htask]
      refine ⟨{ g with activation := s₁.task.activations }, hip, ?_⟩
      show { g with activation := s₁.task.activations } :: s₁.task.frames = _
      rw [hframes]
  | _ => exact ((stays_callValue s (by nofun) argc).of_ok h).frames

theorem spawn_frames {callee v : Value} {args : List Value} (h : spawn callee args s = .ok v s') :
    s'.task.frames = s.task.frames := by
  unfold spawn at h
  split at h
  · rw [get_bind_apply] at h
    dsimp only at h
    rw [set_bind_apply] at h
    obtain ⟨child, s₁, hchild, h⟩ := bind_eq_ok.mp h
    obtain ⟨_, s₂, hstart, h⟩ := bind_eq_ok.mp h
    obtain ⟨-, rfl⟩ := EStateM.Result.ok.inj h
    obtain ⟨-, rfl⟩ := EStateM.Result.ok.inj hstart
    unfold withTask at hchild
    split at hchild
    · obtain ⟨-, rfl⟩ := EStateM.Result.ok.inj hchild
      rfl
    · cases hchild
  · cases h

theorem leaveFrame_frames {v : Value} {flow : Flow} (h : leaveFrame v s = .ok flow s') :
    s'.task.frames = s.task.frames.tail := by
  rw [leaveFrame, get_bind_apply] at h
  cases hf : s.task.frames with
  | nil =>
    rw [hf] at h
    obtain ⟨-, rfl⟩ := EStateM.Result.ok.inj h
    rw [hf, List.tail_nil]
  | cons g callers =>
    rw [hf] at h
    cases callers with
    | nil =>
      obtain ⟨-, rfl⟩ := EStateM.Result.ok.inj h
      rfl
    | cons g' callers =>
      obtain ⟨-, rfl⟩ := EStateM.Result.ok.inj h
      rfl

theorem tryBegin_frames {u : Unit} (h : tryBegin s = .ok u s') :
    ∃ s₁, s.Passes 2 s₁ ∧ s'.task.frames = s₁.task.frames := by
  obtain ⟨o, s₁, hread, h⟩ := bind_eq_ok.mp h
  rw [get_bind_apply] at h
  obtain ⟨g, s₂, hg, h⟩ := bind_eq_ok.mp h
  obtain ⟨rfl, -⟩ := frame_eq_ok s₁ hg
  cases htarget : g.jumpTarget? s₂.heap o with
  | none =>
    rw [htarget] at h
    cases h
  | some target =>
    rw [htarget] at h
    obtain ⟨-, rfl⟩ := EStateM.Result.ok.inj h
    exact ⟨s₂, (takes_readOffset s).of_ok hread, rfl⟩

/-- **An instruction reads its operands and then goes on where its transfer says.** -/
theorem execute_lands (op : Opcode) {flow : Flow} (h : execute op s = .ok flow s') :
    ∃ n s₁, Expected s op n ∧ s.Passes n s₁ ∧ s.Lands s₁ s' op := by
  cases hcontrol : isControlOp op with
  | false =>
    obtain ⟨n, s₁, hn, hpasses, hstays⟩ := (decodes_execute hcontrol s).of_ok h
    refine ⟨n, s₁, hn, hpasses, ?_⟩
    have htransfer : s.transfer op = .none := by
      cases op
      case jump | loop | jumpIfFalse | call | ret => cases hcontrol
      all_goals rfl
    rw [Turn.Lands, htransfer]
    exact hstays.frames
  | true =>
    -- Control is each one's own matter.
    cases op
    case jump | loop =>
      obtain ⟨o, s₁, hread, h⟩ := bind_eq_ok.mp h
      obtain ⟨_, s₂, hjump, h⟩ := bind_eq_ok.mp h
      obtain ⟨-, rfl⟩ := EStateM.Result.ok.inj h
      exact ⟨2, s₁, expected_of_eq (fun _ _ => rfl) rfl, (takes_readOffset s).of_ok hread,
        fun f fs hf => jump_of_readOffset hread rfl rfl hjump hf⟩
    case jumpIfFalse =>
      obtain ⟨o, s₁, hread, h⟩ := bind_eq_ok.mp h
      obtain ⟨v, s₂, hpop, h⟩ := bind_eq_ok.mp h
      have hpasses := (takes_readOffset s).of_ok hread
      obtain ⟨hv, hframes, hheap⟩ := pop_frames hpop
      refine ⟨2, s₁, expected_of_eq (fun _ _ => rfl) rfl, hpasses, ?_⟩
      rw [hpasses.stack] at hv
      dsimp only at h
      cases htruthy : v.isTruthy with
      | true =>
        rw [htruthy] at h
        obtain ⟨-, rfl⟩ := EStateM.Result.ok.inj h
        simp only [Turn.Lands, Turn.transfer, hv, htruthy, if_true]
        exact hframes
      | false =>
        rw [htruthy] at h
        obtain ⟨_, s₃, hjump, h⟩ := bind_eq_ok.mp h
        obtain ⟨-, rfl⟩ := EStateM.Result.ok.inj h
        simp only [Turn.Lands, Turn.transfer, hv, htruthy, Bool.false_eq_true, if_false]
        exact fun f fs hf => jump_of_readOffset hread hframes hheap hjump hf
    case call =>
      obtain ⟨argc, s₁, hread, h⟩ := bind_eq_ok.mp h
      obtain ⟨callee, s₂, hpop, h⟩ := bind_eq_ok.mp h
      obtain ⟨_, s₃, hcall, h⟩ := bind_eq_ok.mp h
      obtain ⟨-, rfl⟩ := EStateM.Result.ok.inj h
      have hpasses := (takes_readByte s).of_ok hread
      obtain ⟨hv, hframes, -⟩ := pop_frames hpop
      refine ⟨1, s₁, expected_of_eq (fun _ _ => rfl) rfl, hpasses, ?_⟩
      rw [hpasses.stack] at hv
      have hcalled := callValue_frames hcall
      rw [hframes] at hcalled
      cases callee with
      | closure c =>
        simp only [Turn.Lands, Turn.transfer, hv]
        exact hcalled
      | _ =>
        simp only [Turn.Lands, Turn.transfer, hv]
        exact hcalled
    case ret =>
      obtain ⟨v, s₁, hpop, h⟩ := bind_eq_ok.mp h
      obtain ⟨-, hframes, -⟩ := pop_frames hpop
      refine ⟨0, s, expected_of_eq (fun _ _ => rfl) rfl, .none, ?_⟩
      exact (leaveFrame_frames h).trans (congrArg List.tail hframes)
    case tryBegin =>
      obtain ⟨_, s₂, htry, h⟩ := bind_eq_ok.mp h
      obtain ⟨-, rfl⟩ := EStateM.Result.ok.inj h
      obtain ⟨s₁, hpasses, hframes⟩ := tryBegin_frames htry
      exact ⟨2, s₁, expected_of_eq (fun _ _ => rfl) rfl, hpasses, hframes⟩
    case spawn =>
      obtain ⟨argc, s₁, hread, h⟩ := bind_eq_ok.mp h
      obtain ⟨callee, s₂, hpop, h⟩ := bind_eq_ok.mp h
      obtain ⟨args, s₃, hargs, h⟩ := bind_eq_ok.mp h
      obtain ⟨v, s₄, hspawn, h⟩ := bind_eq_ok.mp h
      obtain ⟨_, s₅, hpush, h⟩ := bind_eq_ok.mp h
      obtain ⟨-, rfl⟩ := EStateM.Result.ok.inj h
      obtain ⟨-, rfl⟩ := EStateM.Result.ok.inj hpush
      obtain ⟨-, hframes, -⟩ := pop_frames hpop
      refine ⟨1, s₁, expected_of_eq (fun _ _ => rfl) rfl, (takes_readByte s).of_ok hread, ?_⟩
      calc s₄.task.frames = s₃.task.frames := spawn_frames hspawn
        _ = s₂.task.frames := ((stays_popMany s₂ argc).of_ok hargs).frames
        _ = s₁.task.frames := hframes
    all_goals cases hcontrol

end Exec

/-- The frames behind an instruction of some length. -/
def Turn.Goes (s : Turn) (f : Frame) (fs : List Frame) (op : Opcode) (length : Nat)
    (s' : Turn) : Prop :=
  match s.transfer op with
  | .none => s'.task.frames = { f with ip := f.ip + length } :: fs
  | .jump => ∃ ip : Nat,
      (ip : Int) = (f.ip + length : Nat) + Heap.offsetAt (f.code s.heap) (f.ip + 1) ∧
      ip ≤ (f.code s.heap).size ∧ s'.task.frames = { f with ip } :: fs
  | .call => ∃ g, g.ip = 0 ∧ s'.task.frames = g :: { f with ip := f.ip + length } :: fs
  | .leave => s'.task.frames = fs

theorem Turn.transfer_congr (h : s₁.task.stack = s.task.stack) (op : Opcode) :
    s₁.transfer op = s.transfer op := by
  unfold transfer
  rw [h]

/-- Only instructions with an offset jump. -/
theorem Turn.layout_of_jump {op : Opcode} (h : s.transfer op = .jump) :
    op.operandSize = 2 ∧ ∀ code offset, Code.tailLength? code offset op = some 0 := by
  cases op
  case jump | loop | jumpIfFalse => exact ⟨rfl, fun _ _ => rfl⟩
  case call =>
    simp only [transfer] at h
    split at h <;> cases h
  all_goals
    simp only [transfer] at h
    cases h

/-- Counted from the opcode, the instruction has gone on by its whole length. -/
theorem Turn.Lands.goes {s₂ : Turn} {op : Opcode} {tail : Nat} (h : s₁.Lands s₂ s' op)
    (hheap : s₁.heap = s.heap)
    (htask : s₁.task = { s.task with frames := { f with ip := f.ip + 1 } :: fs })
    (htail : (f.code s.heap).tailLength? f.ip op = some tail)
    (hbehind : s₂.task.frames = { f with ip := f.ip + (1 + op.operandSize + tail) } :: fs) :
    s.Goes f fs op (1 + op.operandSize + tail) s' := by
  have htransfer : s₁.transfer op = s.transfer op := Turn.transfer_congr (by rw [htask]) op
  have hcode : ({ f with ip := f.ip + 1 } : Frame).code s₁.heap = f.code s.heap := by
    rw [hheap]
    rfl
  unfold Turn.Lands at h
  unfold Turn.Goes
  rw [htransfer] at h
  cases hkind : s.transfer op with
  | none =>
    rw [hkind] at h
    exact h.trans hbehind
  | jump =>
    rw [hkind] at h
    obtain ⟨ip, hip, hle, hframes⟩ := h _ fs (by rw [htask])
    -- Instructions that jump have no tail, so that the jump starts from the next one.
    obtain ⟨hsize, htail'⟩ := Turn.layout_of_jump hkind
    obtain rfl : tail = 0 := Option.some.inj (htail.symm.trans (htail' _ _))
    rw [hcode] at hip hle
    refine ⟨ip, ?_, hle, hframes⟩
    rw [hip, hsize]
  | call =>
    rw [hkind, hbehind] at h
    exact h
  | leave =>
    rw [hkind, hbehind] at h
    exact h

namespace Exec

/-- An instruction that succeeds has read an opcode and executes it. -/
theorem instruction_eq_ok {flow : Flow} (h : instruction s = .ok flow s') :
    ∃ f fs op s₁, s.task.frames = f :: fs ∧ (f.code s.heap).opcode? f.ip = some op ∧
      s₁.heap = s.heap ∧
      s₁.task = { s.task with frames := { f with ip := f.ip + 1 } :: fs } ∧
      execute op s₁ = .ok flow s' := by
  obtain ⟨op, s₁, hfetch, hrest⟩ := bind_eq_ok.mp h
  obtain ⟨⟨⟩, s₂, hcount, hexecute⟩ := bind_eq_ok.mp hrest
  obtain ⟨f, fs, hf, hop, hs₁⟩ := fetch_eq_ok hfetch
  have hs₂ := countInstruction_ok hcount
  exact ⟨f, fs, op, s₂, hf, hop, by rw [hs₂, hs₁], by rw [hs₂, hs₁], hexecute⟩

/-- The check of the stack that follows an instruction changes nothing when it succeeds. -/
theorem instruction_of_step {flow : Flow} (h : step s = .ok flow s') :
    instruction s = .ok flow s' := by
  obtain ⟨flow', s₃, hinstruction, hcheck⟩ := bind_eq_ok.mp h
  rw [get_bind_apply] at hcheck
  split at hcheck
  · cases hcheck
  · obtain ⟨rfl, rfl⟩ := EStateM.Result.ok.inj hcheck
    exact hinstruction

/-- **A whole instruction is executed**, and goes on behind it or where its transfer says. -/
theorem instruction_goes {flow : Flow} (h : instruction s = .ok flow s') :
    ∃ f fs op length, s.task.frames = f :: fs ∧ (f.code s.heap).opcode? f.ip = some op ∧
      (f.code s.heap).instructionLength? f.ip = some length ∧ s.Goes f fs op length s' := by
  obtain ⟨f, fs, op, s₁, hf, hop, hheap, htask, hexecute⟩ := instruction_eq_ok h
  obtain ⟨n, s₂, hn, hpasses, hlands⟩ := execute_lands op hexecute
  have hframes : s₁.task.frames = { f with ip := f.ip + 1 } :: fs := by rw [htask]
  have hcode : ({ f with ip := f.ip + 1 } : Frame).code s₁.heap = f.code s.heap := by
    rw [hheap]
    rfl
  obtain ⟨tail, htail, rfl⟩ := hn _ fs f.ip hframes rfl
  rw [hcode] at htail
  have hlt : f.ip < (f.code s.heap).size := by
    obtain ⟨b, hb, -⟩ := Option.bind_eq_some_iff.mp hop
    exact (Array.getElem?_eq_some_iff.mp hb).1
  have hfits := hpasses.within hframes (by rw [hcode]; exact hlt)
  rw [hcode] at hfits
  have hbehind : s₂.task.frames = { f with ip := f.ip + (1 + op.operandSize + tail) } :: fs := by
    rw [hpasses.frames hframes]
    simp only [Nat.add_assoc]
  refine ⟨f, fs, op, 1 + op.operandSize + tail, hf, hop, ?_,
    hlands.goes hheap htask htail hbehind⟩
  refine Code.instructionLength?_eq_some.mpr ⟨op, tail, hop, htail, rfl, ?_⟩
  simpa only [Nat.add_assoc] using hfits

/-- **A step executes a whole instruction.** -/
theorem step_goes {flow : Flow} (h : step s = .ok flow s') :
    ∃ f fs op length, s.task.frames = f :: fs ∧ (f.code s.heap).opcode? f.ip = some op ∧
      (f.code s.heap).instructionLength? f.ip = some length ∧ s.Goes f fs op length s' :=
  instruction_goes (instruction_of_step h)

theorem step_fails (hf : s.task.frames = f :: fs)
    (hnone : (f.code s.heap).instructionLength? f.ip = none) (flow : Flow) (s' : Turn) :
    step s ≠ .ok flow s' := by
  intro h
  obtain ⟨g, gs, op, length, hg, -, hlength, -⟩ := step_goes h
  obtain ⟨rfl, -⟩ := List.cons.inj (hg.symm.trans hf)
  rw [hnone] at hlength
  cases hlength

end Exec

/-! ## Straight lines -/

/-- The offsets at which code is executed in a straight line, from one offset to another. Each
instruction succeeds without a transfer of control, other than a call that comes back, and the
next one is executed when the frame goes on where the last one has left it. Whatever else happens
in between, the called frames themselves and other tasks, does not matter. -/
inductive Straight (code : Code) : Nat → List Nat → Nat → Prop where
  | done (ip : Nat) : Straight code ip [] ip
  | step {s s' : Turn} {flow : Flow} {f f' : Frame} {fs above : List Frame} {op : Opcode}
      {ips : List Nat} {last : Nat}
      (frames : s.task.frames = f :: fs) (runs : f.code s.heap = code)
      (executes : Exec.step s = .ok flow s') (opcode : code.opcode? f.ip = some op)
      (straight : s.transfer op = .none ∨ s.transfer op = .call)
      (left : s'.task.frames = above ++ f' :: fs)
      (rest : Straight code f'.ip ips last) : Straight code f.ip (f.ip :: ips) last

/-- The frame is left behind the instruction. -/
theorem Turn.Goes.left {op : Opcode} {length : Nat} (h : s.Goes f fs op length s')
    (hstraight : s.transfer op = .none ∨ s.transfer op = .call) {f' : Frame} {above : List Frame}
    (hleft : s'.task.frames = above ++ f' :: fs) : f'.ip = f.ip + length := by
  -- The frames below are the same, so that the one on top of them is at the same height.
  have hsame : ∀ (above' : List Frame) (g : Frame),
      above ++ f' :: fs = above' ++ g :: fs → f' = g := by
    intro above' g heq
    have hlength := congrArg List.length heq
    simp only [List.length_append, List.length_cons, Nat.add_right_cancel_iff] at hlength
    exact (List.cons.inj (List.append_inj heq hlength).2).1
  unfold Goes at h
  rcases hstraight with hnone | hcall
  · rw [hnone] at h
    have hf' := hsame [] _ (hleft.symm.trans h)
    rw [hf']
  · rw [hcall] at h
    obtain ⟨g, -, h⟩ := h
    have hf' := hsame [g] _ (hleft.symm.trans h)
    rw [hf']

/-- What is executed in a straight line are the pieces that the code begins with. -/
theorem Straight.items {code : Code} {ip last : Nat} {ips : List Nat}
    (h : Straight code ip ips last) :
    ∃ front, code.itemsBehind ip = front ++ code.itemsBehind last ∧
      front.map Heap.itemOffset = ips ∧ ∀ item ∈ front, item.isInstruction = true := by
  induction h with
  | done ip => exact ⟨[], rfl, rfl, fun _ hi => nomatch hi⟩
  | @step s s' flow f f' fs above op ips last hframes hruns hstep hop hstraight hleft _ ih =>
    obtain ⟨front, hfront, hoffsets, hwhole⟩ := ih
    obtain ⟨g, gs, op', length, hg, hop', hlength, hgoes⟩ := Exec.step_goes hstep
    obtain ⟨rfl, rfl⟩ := List.cons.inj (hg.symm.trans hframes)
    rw [hruns] at hop' hlength
    obtain rfl : op = op' := Option.some.inj (hop.symm.trans hop')
    have hip := hgoes.left hstraight hleft
    refine ⟨.instruction g.ip length :: front, ?_, ?_, ?_⟩
    · rw [Code.itemsBehind_instruction hlength, ← hip, hfront, List.cons_append]
    · rw [List.map_cons, hoffsets]
      rfl
    · intro item hitem
      rcases List.mem_cons.mp hitem with rfl | hitem
      · rfl
      · exact hwhole item hitem

theorem Code.items_eq_itemsBehind (code : Code) : code.items = code.itemsBehind 0 := rfl

theorem lt_foldl_max_iff {n : Nat} : ∀ (ns : List Nat) (m : Nat),
    n < ns.foldl max m ↔ n < m ∨ ∃ k ∈ ns, n < k
  | [], m => by simp
  | k :: ns, m => by
    rw [List.foldl_cons, lt_foldl_max_iff ns, show n < max m k ↔ n < m ∨ n < k by omega, or_assoc]
    simp only [List.mem_cons, exists_eq_or_imp]

/-- The slots that leading instructions need are counted, and no others. -/
theorem Code.lt_localSlots_iff {code : Code} {n : Nat} :
    n < code.localSlots ↔ ∃ item ∈ code.leadingInstructions, n < code.slotsNeeded item := by
  simp only [localSlots, lt_foldl_max_iff, Nat.not_lt_zero, false_or, List.mem_map,
    exists_exists_and_eq_and]

/-- The slots of the locals that leading instructions name are counted. -/
theorem Code.slotsNeeded_le_localSlots {code : Code} {item : Code.Item}
    (h : item ∈ code.leadingInstructions) : code.slotsNeeded item ≤ code.localSlots :=
  Nat.le_of_not_lt fun hlt => Nat.lt_irrefl _ (Code.lt_localSlots_iff.mpr ⟨item, h, hlt⟩)

/-- **Execution and layout agree on where instructions begin and end.** -/
theorem Straight.offsets {code : Code} {last : Nat} {ips : List Nat}
    (h : Straight code 0 ips last) :
    ips <+: code.leadingInstructions.map Heap.itemOffset ∧
    (code.instructionLength? last = none →
      ips = code.leadingInstructions.map Heap.itemOffset) ∧
    (last = code.size → ips = code.items.map Heap.itemOffset) ∧
    ∀ ip ∈ ips, ∀ slot, code.localSlot? ip = some slot → slot < code.localSlots := by
  -- All that has been passed is whole, so the listing begins with it.
  obtain ⟨front, hitems, hoffsets, hwhole⟩ := h.items
  have hleading : code.leadingInstructions =
      front ++ (code.itemsBehind last).takeWhile Code.Item.isInstruction := by
    rw [Code.leadingInstructions_eq, Code.items_eq_itemsBehind, hitems,
      List.takeWhile_append_of_pos hwhole]
  refine ⟨?_, fun hnone => ?_, fun hend => ?_, fun ip hip slot hslot => ?_⟩
  · rw [hleading, List.map_append, hoffsets]
    exact List.prefix_append _ _
  · rw [hleading, Code.itemsBehind_invalid hnone, List.append_nil, hoffsets]
  · have hnothing : code.itemsBehind last = [] := by
      rw [Code.itemsBehind, hend, Nat.sub_self]
      rfl
    rw [Code.items_eq_itemsBehind, hitems, hnothing, List.append_nil, hoffsets]
  · rw [← hoffsets] at hip
    obtain ⟨item, hitem, rfl⟩ := List.mem_map.mp hip
    have hle : code.slotsNeeded item ≤ code.localSlots :=
      Code.slotsNeeded_le_localSlots (hleading ▸ List.mem_append_left _ hitem)
    cases item with
    | invalid offset => cases hwhole _ hitem
    | instruction offset length =>
      have hslot : code.localSlot? offset = some slot := hslot
      rw [Code.slotsNeeded, hslot] at hle
      exact hle

/-- **Everyone agrees on where one instruction ends and the next begins.** A step that succeeds goes
on behind the instruction as the layout measures it, or from there where its transfer says, and no
step succeeds where the layout finds no instruction. So a straight line visits the offsets that are
listed and that are searched for locals. Any code falls into whole instructions and single bytes,
and a listing of it reads only what is there. -/
theorem boundaries_agree (h : Heap) (c : Chunk) :
    (∀ (s : Turn) (f : Frame) (fs : List Frame), s.task.frames = f :: fs →
      f.code s.heap = c.code →
      (∀ flow s', Exec.step s = .ok flow s' → ∃ op length, c.code.opcode? f.ip = some op ∧
        c.code.instructionLength? f.ip = some length ∧ s.Goes f fs op length s') ∧
      (c.code.instructionLength? f.ip = none → ∀ flow s', Exec.step s ≠ .ok flow s')) ∧
    (∀ ips last, Straight c.code 0 ips last →
      ips <+: c.code.leadingInstructions.map Heap.itemOffset ∧
      (c.code.instructionLength? last = none →
        ips = c.code.leadingInstructions.map Heap.itemOffset) ∧
      (last = c.code.size → ips = c.code.items.map Heap.itemOffset) ∧
      ∀ ip ∈ ips, ∀ slot, c.code.localSlot? ip = some slot → slot < c.code.localSlots) ∧
    c.code.items.flatMap Code.Item.bytes = List.range c.code.size ∧
    (∀ item ∈ c.code.items, item.Fits c.code) ∧
    h.listing? c = some (h.listing c) := by
  refine ⟨fun s f fs hf hcode => ⟨fun flow s' hstep => ?_, fun hnone => ?_⟩,
    fun _ _ hstraight => hstraight.offsets, Code.items_bytes c.code, Code.items_fits,
    Heap.listing?_eq h c⟩
  · obtain ⟨g, gs, op, length, hg, hop, hlength, hgoes⟩ := Exec.step_goes hstep
    obtain ⟨rfl, rfl⟩ := List.cons.inj (hg.symm.trans hf)
    rw [hcode] at hop hlength
    exact ⟨op, length, hop, hlength, hgoes⟩
  · exact Exec.step_fails hf (hcode ▸ hnone)

/-- A closure that captures a local and a select with a default, and behind them a byte that begins
no instruction and an instruction without the last of its operands. -/
def frayed : Chunk where
  code := #[0x02, 0x61, 0, 0, 1, 1, 0, 0xb5, 0, 1, 0x99, 0x01, 0]
  constants := #[.function 0]
  lines := #[1, 2, 2, 2, 2, 2, 2, 3]

/-- A frame that is somewhere in this code. -/
def frayedFrame (ip : Nat) : Frame :=
  { closure := 0, chunk := 0, ip, stackBase := 0, localCount := 1, iterBase := 0 }

/-- A turn of a task with this frame. -/
def frayedAt (ip : Nat) : Turn where
  hosts := #[]
  heap := { chunks := #[frayed], templates := #[{ name := "f", chunk := 0 }]
            closures := #[{ template := 0 }] }
  vm := { id := 0, sink := 0 }
  task := { id := 0, handle := 0, stack := #[.nil], frames := [frayedFrame ip] }

/-- A step that leaves the frame somewhere else in its code. -/
theorem frayed_straight (ip next : Nat) (op : Opcode) {last : Nat} {ips : List Nat}
    (hop : frayed.code.opcode? ip = some op) (htransfer : (frayedAt ip).transfer op = .none)
    (hstep : passes Exec.step (frayedAt ip) (fun _ s' =>
      s'.task.frames == [frayedFrame next]) = true)
    (hrest : Straight frayed.code next ips last) : Straight frayed.code ip (ip :: ips) last := by
  obtain ⟨flow, s', hs', hframes⟩ := of_passes hstep
  have hleft : s'.task.frames = [] ++ frayedFrame next :: [] := eq_of_beq hframes
  have hthere : (frayedAt ip).task.frames = frayedFrame ip :: [] := rfl
  exact .step hthere rfl hs' hop (.inl htransfer) hleft hrest

theorem frayed_boundaries : Straight frayed.code 0 [0, 1, 7] 10 ∧
    [0, 1, 7] = frayed.code.leadingInstructions.map Heap.itemOffset ∧
    frayed.code.items.map Heap.itemOffset = [0, 1, 7, 10, 11, 12] ∧
    (frayedAt 0).heap.listing? frayed = some ((frayedAt 0).heap.listing frayed) := by
  have hstraight : Straight frayed.code 0 [0, 1, 7] 10 := by
    refine frayed_straight 0 1 .pushNil rfl rfl (by decide +kernel) ?_
    refine frayed_straight 1 7 .makeClosure rfl rfl (by decide +kernel) ?_
    refine frayed_straight 7 10 .select rfl rfl (by decide +kernel) ?_
    exact .done 10
  obtain ⟨-, hoffsets, -, -, hlisting⟩ := boundaries_agree (frayedAt 0).heap frayed
  obtain ⟨-, hend, -, -⟩ := hoffsets [0, 1, 7] 10 hstraight
  exact ⟨hstraight, hend (by decide), by decide, hlisting⟩

end TaskVm
