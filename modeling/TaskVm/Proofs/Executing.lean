import TaskVm.Proofs.Ground

/-!
# Executing an instruction

An instruction is read, counted and executed. Reading moves the instruction pointer of the
innermost frame and nothing else, so what a tick does is what the opcode does to the state it has
been read in. What comes after it is one check, of the height of the stack.
-/

namespace TaskVm

open Exec Relation

/-- Code has been read: the innermost frame has come further in it, and instructions have been
counted. -/
inductive Turn.Scans (s : Turn) : Turn → Prop where
  | mk {f : Frame} {fs : List Frame} (hf : s.task.frames = f :: fs) (ip : Nat)
      (profiler : Profiler) (instructions : Nat) : Scans s { s with
        vm := { s.vm with profiler, instructions }
        task := { s.task with frames := { f with ip } :: fs } }

namespace Turn.Scans

variable {s s' s'' : Turn}

theorem refl {f : Frame} {fs : List Frame} (hf : s.task.frames = f :: fs) : s.Scans s := by
  have h := Scans.mk hf f.ip s.vm.profiler s.vm.instructions
  rwa [← hf] at h

theorem trans (h : s.Scans s') (h' : s'.Scans s'') : s.Scans s'' := by
  obtain ⟨hf, ip, profiler, instructions⟩ := h
  obtain ⟨hf', ip', profiler', instructions'⟩ := h'
  obtain ⟨rfl, rfl⟩ := List.cons.inj hf'
  exact .mk hf ip' profiler' instructions'

/-- The frames are the same, apart from where the innermost one is. -/
theorem frames {f : Frame} {fs : List Frame} (h : s.Scans s') (hf : s.task.frames = f :: fs) :
    ∃ ip, s'.task.frames = { f with ip } :: fs := by
  obtain ⟨hf₀, ip, profiler, instructions⟩ := h
  obtain ⟨rfl, rfl⟩ := List.cons.inj (hf₀.symm.trans hf)
  exact ⟨ip, rfl⟩

theorem acts (h : s.Scans s') : s'.acts = s.acts := by cases h; rfl

theorem hosts (h : s.Scans s') : s'.hosts = s.hosts := by cases h; rfl

theorem heap (h : s.Scans s') : s'.heap = s.heap := by cases h; rfl

theorem id (h : s.Scans s') : s'.task.id = s.task.id := by cases h; rfl

theorem stack (h : s.Scans s') : s'.task.stack = s.task.stack := by cases h; rfl

theorem handlers (h : s.Scans s') : s'.task.handlers = s.task.handlers := by cases h; rfl

theorem iterations (h : s.Scans s') : s'.task.iterations = s.task.iterations := by cases h; rfl

theorem activations (h : s.Scans s') : s'.task.activations = s.task.activations := by cases h; rfl

theorem registrations (h : s.Scans s') : s'.task.registrations = s.task.registrations := by
  cases h; rfl

end Turn.Scans

namespace Exec

variable {s s' s'' : Turn}

theorem scans_setFrame {f : Frame} {fs : List Frame} (hf : s.task.frames = f :: fs) (ip : Nat) :
    s.Scans { s with task := s.task.setFrame { f with ip } } := by
  have h := Turn.Scans.mk hf ip s.vm.profiler s.vm.instructions
  rw [show fs = s.task.frames.drop 1 by rw [hf, List.drop_one, List.tail_cons]] at h
  exact h

/-- A byte that has been read is the next one of the code. -/
theorem readByte_eq_ok {b : Nat} {s' : Turn} (h : readByte s = .ok b s') :
    ∃ f fs byte, s.task.frames = f :: fs ∧ (f.code s.heap)[f.ip]? = some byte ∧ b = byte.toNat ∧
      s' = { s with task := { s.task with frames := { f with ip := f.ip + 1 } :: fs } } := by
  obtain ⟨f, s₁, hf, hrest⟩ := bind_eq_ok.mp h
  obtain ⟨rfl, fs, hfs⟩ := frame_eq_ok s hf
  rw [get_bind_apply] at hrest
  obtain ⟨⟨byte, g⟩, s₂, hr, hlast⟩ := bind_eq_ok.mp hrest
  obtain ⟨hr, rfl⟩ := ofExcept_eq_ok _ hr
  unfold Frame.readByte at hr
  split at hr
  · rename_i byte' hbyte
    obtain ⟨rfl, rfl⟩ := Prod.mk.inj (Except.ok.inj hr)
    cases hlast
    refine ⟨f, fs, byte', hfs, hbyte, rfl, ?_⟩
    show { s₂ with task := { s₂.task with frames := _ :: s₂.task.frames.drop 1 } } = _
    rw [hfs, List.drop_one, List.tail_cons]
  · cases hr

theorem readByte_ok {f : Frame} {fs : List Frame} {byte : UInt8} (hf : s.task.frames = f :: fs)
    (hb : (f.code s.heap)[f.ip]? = some byte) : readByte s = .ok byte.toNat
      { s with task := { s.task with frames := { f with ip := f.ip + 1 } :: fs } } := by
  have hread : f.readByte s.heap = .ok (byte, { f with ip := f.ip + 1 }) := by
    rw [Frame.readByte, hb]
  rw [readByte, bind_ok (frame_ok s hf), get_bind_apply, hread]
  show EStateM.Result.ok _
    { s with task := { s.task with frames := _ :: s.task.frames.drop 1 } } = _
  rw [hf]
  rfl

theorem scans_readByte {b : Nat} (h : readByte s = .ok b s') : s.Scans s' := by
  obtain ⟨f, fs, byte, hf, -, -, rfl⟩ := readByte_eq_ok h
  exact .mk hf (f.ip + 1) s.vm.profiler s.vm.instructions

theorem scans_readWord {w : Nat} (h : readWord s = .ok w s') : s.Scans s' := by
  obtain ⟨hi, s₁, h₁, h⟩ := bind_eq_ok.mp h
  obtain ⟨lo, s₂, h₂, h⟩ := bind_eq_ok.mp h
  cases h
  exact (scans_readByte h₁).trans (scans_readByte h₂)

theorem scans_readOffset {offset : Int} (h : readOffset s = .ok offset s') : s.Scans s' := by
  obtain ⟨w, s₁, h₁, h⟩ := bind_eq_ok.mp h
  cases h
  exact scans_readWord h₁

/-- Constants are looked up without a trace. -/
theorem constant_state {index : Nat} {v : Value} (h : constant index s = .ok v s') : s' = s := by
  obtain ⟨g, s₁, hg, hrest⟩ := bind_eq_ok.mp h
  obtain ⟨rfl, -⟩ := frame_eq_ok s hg
  rw [get_bind_apply] at hrest
  exact (ofExcept_eq_ok s₁ hrest).2

/-- The opcode is where the innermost frame is. -/
theorem fetch_eq_ok {op : Opcode} (h : fetch s = .ok op s') :
    ∃ f fs, s.task.frames = f :: fs ∧ (f.code s.heap).opcode? f.ip = some op ∧
      s' = { s with task := { s.task with frames := { f with ip := f.ip + 1 } :: fs } } := by
  obtain ⟨f, s₁, hf, hrest⟩ := bind_eq_ok.mp h
  obtain ⟨rfl, fs, hfs⟩ := frame_eq_ok s hf
  rw [get_bind_apply] at hrest
  cases hb : (f.code s₁.heap)[f.ip]? with
  | none =>
    simp only [hb] at hrest
    cases hrest
  | some b =>
    cases hop : Opcode.ofByte? b with
    | none =>
      simp only [hb, hop] at hrest
      cases hrest
    | some op' =>
      simp only [hb, hop] at hrest
      obtain ⟨rfl, rfl⟩ := EStateM.Result.ok.inj hrest
      refine ⟨f, fs, hfs, ?_, ?_⟩
      · rw [Code.opcode?, hb, Option.bind_some, hop]
      · show { s₁ with task := { s₁.task with frames := _ :: s₁.task.frames.drop 1 } } = _
        rw [hfs, List.drop_one, List.tail_cons]

theorem scans_fetch {op : Opcode} (h : fetch s = .ok op s') : s.Scans s' := by
  obtain ⟨f, fs, hf, -, rfl⟩ := fetch_eq_ok h
  exact .mk hf (f.ip + 1) s.vm.profiler s.vm.instructions

/-- What is read is there. -/
theorem fetch_within {op : Opcode} (h : fetch s = .ok op s') :
    ∃ f fs, s.task.frames = f :: fs ∧ f.ip < (f.code s.heap).size := by
  obtain ⟨f, fs, hf, hop, -⟩ := fetch_eq_ok h
  obtain ⟨b, hb, -⟩ := Option.bind_eq_some_iff.mp hop
  obtain ⟨hlt, -⟩ := Array.getElem?_eq_some_iff.mp hb
  exact ⟨f, fs, hf, hlt⟩

/-- What is popped is the topmost value. -/
theorem pop_eq_ok {v : Value} (h : pop s = .ok v s') : s.task.stack.back? = some v ∧ s' = { s with
    tidy := s.tidy && s.task.keeps (s.task.stack.size - 1)
    touched := s.touched ++ [.operands s.task.stackBase (s.task.stack.size - 1)]
    task := { s.task with stack := s.task.stack.pop } } := by
  cases hv : s.task.stack.back? with
  | none =>
    have he : onTask Task.pop s = .error (.raised s.task.underflow) s :=
      onTask_error s (by rw [Task.pop, hv])
    rw [pop, bind_error he] at h
    cases h
  | some w =>
    rw [pop_ok s hv] at h
    obtain ⟨rfl, rfl⟩ := EStateM.Result.ok.inj h
    exact ⟨rfl, rfl⟩

theorem countInstruction_ok {op : Opcode} (h : countInstruction op s = .ok ⟨⟩ s') :
    s' = { s with vm := { s.vm with
      profiler := s.vm.profiler.recordInstruction op
      instructions := s.vm.instructions + 1 } } := by
  unfold countInstruction at h
  rw [modify_bind_apply, get_bind_apply] at h
  dsimp only at h
  cases hl : s.vm.config.instructionLimit with
  | none =>
    simp only [hl] at h
    cases h
    rfl
  | some limit =>
    simp only [hl] at h
    split at h
    · cases h
    · cases h
      rfl

theorem scans_fetched {op : Opcode} (h : fetch s = .ok op s')
    (hc : countInstruction op s' = .ok ⟨⟩ s'') : s.Scans s'' := by
  obtain ⟨hf, ip, profiler, instructions⟩ := scans_fetch h
  rw [countInstruction_ok hc]
  exact .mk hf ip _ _

end Exec

namespace Machine

variable {m : Machine} {task : Task} {op : Opcode} {s s' : Turn}

/-- The turn goes on where the code of the innermost frame has come to its end. -/
theorem advance_end {f : Frame} {fs : List Frame} (hready : task.resume = none)
    (hf : task.frames = f :: fs) (hend : (f.code m.heap).size ≤ f.ip) :
    (m.turn task).advance = (m.turn task).perform (leaveFrame .nil) :=
  Turn.advance_action (Turn.action_end hready hf hend)

/-- The next tick executes an opcode, which has been read and counted when the turn is `s`. -/
structure Executes (m : Machine) (task : Task) (op : Opcode) (s : Turn) : Prop where
  running : m.running = some task
  ready : task.resume = none
  read : ∃ s₁, fetch (m.turn task) = .ok op s₁ ∧ countInstruction op s₁ = .ok ⟨⟩ s

/-- The opcode that the next tick executes, if it executes one. -/
def opcode? (m : Machine) : Option (Task × Opcode × Turn) :=
  match m.running with
  | none => none
  | some task =>
    if task.resume.isSome then none
    else
      match fetch (m.turn task) with
      | .ok op s₁ =>
        match countInstruction op s₁ with
        | .ok ⟨⟩ s => some (task, op, s)
        | .error _ _ => none
      | .error _ _ => none

theorem executes_of_opcode? (h : m.opcode? = some (task, op, s)) : m.Executes task op s := by
  unfold opcode? at h
  split at h
  · cases h
  · rename_i hrunning
    split at h
    · cases h
    · rename_i hready
      split at h
      · rename_i s₁ h₁
        split at h
        · rename_i h₂
          cases h
          exact ⟨hrunning, by simpa using hready, s₁, h₁, h₂⟩
        · cases h
      · cases h

/-- A task that can read an opcode does so. -/
theorem action_of_fetch (hready : task.resume = none) (h : fetch (m.turn task) = .ok op s) :
    (m.turn task).action = some (m.turn task, step) := by
  obtain ⟨f, fs, hfs, hip⟩ := fetch_within h
  exact Turn.action_step hready hfs hip

namespace Executes

theorem scans (h : m.Executes task op s) : (m.turn task).Scans s := by
  obtain ⟨s₁, h₁, h₂⟩ := h.read
  exact scans_fetched h₁ h₂

theorem changes {K : Heap → Heap → Prop} (h : m.Executes task op s) :
    ChangesIn K (m.turn task) s := by
  obtain ⟨s₁, h₁, h₂⟩ := h.read
  exact ((leads_fetch _).of_ok h₁).trans ((leads_countInstruction _ _).of_ok h₂)

theorem instruction_eq (h : m.Executes task op s) : instruction (m.turn task) = execute op s := by
  obtain ⟨s₁, h₁, h₂⟩ := h.read
  rw [instruction, bind_ok h₁, bind_ok h₂]

/-- There is an instruction where the innermost frame is. -/
theorem within (h : m.Executes task op s) :
    ∃ f fs, task.frames = f :: fs ∧ f.ip < (f.code m.heap).size := by
  obtain ⟨s₁, h₁, -⟩ := h.read
  exact fetch_within h₁

theorem action_eq (h : m.Executes task op s) :
    (m.turn task).action = some (m.turn task, step) := by
  obtain ⟨s₁, h₁, -⟩ := h.read
  exact action_of_fetch h.ready h₁

/-- The check comes after the instruction. -/
theorem step_next (h : m.Executes task op s) (hi : execute op s = .ok .next s') :
    step (m.turn task) =
      if s'.vm.config.stackCapacity < s'.task.stack.size then
        .error (.raised (.stackOverflow s'.task.frames.length)) s'
      else .ok .next s' := by
  have hinstruction : instruction (m.turn task) = .ok .next s' := h.instruction_eq.trans hi
  rw [step, bind_ok hinstruction, get_bind_apply]
  by_cases hover : s'.vm.config.stackCapacity < s'.task.stack.size
  · rw [if_pos hover, if_pos hover]
    rfl
  · rw [if_neg hover, if_neg hover]
    rfl

/-- The turn goes on where the instruction has left it, if the stack has not become too high. -/
theorem advance_next (h : m.Executes task op s) (hi : execute op s = .ok .next s') :
    (m.turn task).advance =
      if s'.vm.config.stackCapacity < s'.task.stack.size then
        s'.recover (.raised (.stackOverflow s'.task.frames.length))
      else (none, s') := by
  have hstep := h.step_next hi
  rw [Turn.advance_action h.action_eq, Turn.perform]
  by_cases hover : s'.vm.config.stackCapacity < s'.task.stack.size
  · rw [if_pos hover] at hstep ⊢
    rw [hstep]
  · rw [if_neg hover] at hstep ⊢
    rw [hstep]
    rfl

/-- An instruction that goes on throws nothing, unless the stack has become too high by it. -/
theorem thrown_next (h : m.Executes task op s) (hi : execute op s = .ok .next s') {v : Value}
    {s₁ : Turn} (ht : (m.turn task).thrown? = some (v, s₁)) :
    ∃ events, s₁ = { s' with events } := by
  have hstep := h.step_next hi
  obtain ⟨⟨s₂, x⟩, haction, ht⟩ := Option.bind_eq_some_iff.mp ht
  obtain ⟨rfl, rfl⟩ := Prod.mk.inj (Option.some.inj (h.action_eq.symm.trans haction))
  unfold Turn.throws? at ht
  dsimp only at ht
  by_cases hover : s'.vm.config.stackCapacity < s'.task.stack.size
  · rw [if_pos hover] at hstep
    rw [hstep] at ht
    obtain ⟨-, rfl⟩ := Prod.mk.inj (Option.some.inj ht)
    exact ⟨_, rfl⟩
  · rw [if_neg hover] at hstep
    rw [hstep] at ht
    cases ht

theorem onward (h : m.Executes task op s) (hi : execute op s = .ok .next s') :
    Deeds s' (m.turn task).advance.2 := by
  rw [h.advance_next hi]
  split
  · exact Turn.deeds_recover s' _
  · exact .refl

/-- An instruction that has room on the stack, and what follows it. -/
theorem tick_next (h : m.Executes task op s) (hi : execute op s = .ok .next s')
    (hfits : s'.task.stack.size ≤ s'.vm.config.stackCapacity) : m.tick.machine = ofTurn s' := by
  have hadvance := h.advance_next hi
  rw [if_neg (Nat.not_lt_of_le hfits)] at hadvance
  rw [tick_goes h.running hadvance]

end Executes

end Machine

end TaskVm
