import Mathlib.Data.List.Forall2
import TaskVm.Proofs.Executing
import TaskVm.Proofs.Upvalues

/-!
# Getting at variables

What an instruction reads of a variable is what it leaves on the stack, and what it writes is the
topmost operand. Both go on record as what they are, and so the record of a run tells what its
code has seen. What is read of a captured variable is what its box holds.
-/

namespace TaskVm

open Exec Relation

/-- The operand at hand names a variable that the running closure has captured. -/
def Turn.NamesCell (s : Turn) (c : CellId) : Prop := ∃ f fs byte, s.task.frames = f :: fs ∧
  (f.code s.heap)[f.ip]? = some byte ∧ (s.heap.closure f.closure).upvalues[byte.toNat]? = some c

/-- The operands at hand announce captures, behind the number of a constant. -/
def Turn.Announces (s : Turn) (captures : List (Bool × Nat)) : Prop :=
  ∃ constant s₁ count s₂ s₃, readWord s = .ok constant s₁ ∧ readByte s₁ = .ok count s₂ ∧
    readCaptures count s₂ = .ok captures s₃

/-- The operand that says which local: one byte in the short forms, two in the long ones. -/
def localOperand : Opcode → Exec Nat
  | .loadFast | .storeFast => readByte
  | _ => readWord

/-- A local of a frame has been written. -/
def Turn.withLocal (s : Turn) (f : Frame) (index : Nat) (v : Value) : Turn := { s with
  acts := s.acts ++ [.localSet ⟨s.task.id, f.activation, index⟩ v]
  task := { s.task with stack := s.task.stack.setIfInBounds (f.stackBase + index) v } }

namespace Exec

variable {s s' : Turn} {f : Frame} {fs : List Frame} {c : CellId} {v : Value}

theorem scans_localOperand {op : Opcode} {index : Nat} (h : localOperand op s = .ok index s') :
    s.Scans s' := by
  unfold localOperand at h
  split at h
  · exact scans_readByte h
  · exact scans_readByte h
  · exact scans_readWord h

theorem localIndex_ok (hf : s.task.frames = f :: fs) {index : Nat}
    (hlt : f.stackBase + index < s.task.stack.size) :
    localIndex index s = .ok (f.stackBase + index) s := by
  rw [localIndex, bind_ok (frame_ok s hf), get_bind_apply, if_pos hlt]
  rfl

theorem peek_ok (h : s.task.stack.back? = some v) : peek s = .ok v s := by
  rw [peek, get_bind_apply, Task.peek, h]
  rfl

theorem pushLocal_ok (hf : s.task.frames = f :: fs) {index : Nat}
    (hlt : f.stackBase + index < s.task.stack.size) : pushLocal index s =
      let v := s.task.stack.getD (f.stackBase + index) .nil
      .ok ⟨⟩ { s with
        acts := s.acts ++ [.localRead ⟨s.task.id, f.activation, index⟩ v]
        task := s.task.push v } := by
  rw [pushLocal, bind_ok (localIndex_ok hf hlt), get_bind_apply, localAt_eq hf]
  rfl

theorem setSlot_ok (hf : s.task.frames = f :: fs) (index : Nat) (v : Value) :
    setSlot (f.stackBase + index) v s = .ok ⟨⟩ (s.withLocal f index v) := by
  have hlocal := localAt_eq
    (t := { s.task with stack := s.task.stack.setIfInBounds (f.stackBase + index) v }) hf index
  rw [Turn.withLocal, ← hlocal]
  rfl

theorem dropHandler_ok (s : Turn) : ∃ s', dropHandler s = .ok ⟨⟩ s' ∧
    s'.task.frames = s.task.frames ∧ s'.task.stack = s.task.stack ∧ s'.task.id = s.task.id ∧
    s'.acts = s.acts := by
  rw [dropHandler, get_bind_apply]
  cases s.task.handlers with
  | nil => exact ⟨s, rfl, rfl, rfl, rfl, rfl⟩
  | cons hd rest => exact ⟨_, rfl, rfl, rfl, rfl, rfl⟩

/-- The topmost operand is moved to a local. -/
theorem store_ok (hf : s.task.frames = f :: fs) {index : Nat}
    (hlt : f.stackBase + index < s.task.stack.pop.size) (hv : s.task.stack.back? = some v) :
    ∃ s', (pop >>= fun v => localIndex index >>= fun i => setSlot i v >>= fun _ =>
        pure Flow.next) s = .ok .next s' ∧
      s'.task.stack = s.task.stack.pop.setIfInBounds (f.stackBase + index) v ∧
      s'.acts = s.acts ++ [.localSet ⟨s.task.id, f.activation, index⟩ v] := by
  have hpop := pop_ok s hv
  let s₁ : Turn := { s with
    tidy := s.tidy && s.task.keeps (s.task.stack.size - 1)
    touched := s.touched ++ [.operands s.task.stackBase (s.task.stack.size - 1)]
    task := { s.task with stack := s.task.stack.pop } }
  have hindex : localIndex index s₁ = .ok (f.stackBase + index) s₁ :=
    localIndex_ok (s := s₁) hf hlt
  have hset : setSlot (f.stackBase + index) v s₁ = .ok ⟨⟩ (s₁.withLocal f index v) :=
    setSlot_ok (s := s₁) hf index v
  exact ⟨s₁.withLocal f index v,
    (bind_ok hpop).trans ((bind_ok hindex).trans (bind_ok hset)), rfl, rfl⟩

theorem writeCell_ok (s : Turn) (c : CellId) (v : Value) :
    writeCell c v s = .ok ⟨⟩ (endState (writeCell c v) s) := by
  have hok : ∃ s', writeCell c v s = .ok ⟨⟩ s' := by
    rw [writeCell, bind_ok (note_apply _ _), get_bind_apply]
    cases s.heap.cell c with
    | closed w =>
      simp only [modify_apply]
      exact ⟨_, rfl⟩
    | onStack task slot =>
      simp only [touch, modify_bind_apply, modify_apply]
      exact ⟨_, rfl⟩
  obtain ⟨s', hs'⟩ := hok
  rw [endState_ok hs', hs']

theorem readUpvalue_ok (h : s.NamesCell c) :
    ∃ s', readUpvalue s = .ok c s' ∧ s.Scans s' ∧ s'.Holds c := by
  obtain ⟨f, fs, byte, hf, hbyte, hc⟩ := h
  have hread : readUpvalue s = .ok c
      { s with task := { s.task with frames := { f with ip := f.ip + 1 } :: fs } } := by
    rw [readUpvalue, bind_ok (readByte_ok hf hbyte), bind_ok (frame_ok _ rfl), get_bind_apply]
    dsimp only
    rw [hc]
    rfl
  exact ⟨_, hread, .mk hf (f.ip + 1) s.vm.profiler s.vm.instructions, readUpvalue_holds s hread⟩

end Exec

/-- A cell is the one that a capture is for: that of a local of the frame, which has gone on
record, or one that the closure of the frame has. -/
def Turn.Captured (s : Turn) (f : Frame) (acts : List Act) : Bool × Nat → CellId → Prop
  | (true, slot), c => ∃ v, .captured ⟨s.task.id, f.activation, slot⟩ v c ∈ acts
  | (false, index), c => (s.heap.closure f.closure).upvalues[index]? = some c

/-- What a cell is for does not change while others are captured. -/
theorem Turn.Captured.mono {s s' : Turn} {f : Frame} {acts acts' : List Act}
    {capture : Bool × Nat} {c : CellId} (h : s.Captured f acts capture c)
    (hid : s'.task.id = s.task.id) (hc : s'.heap.closures = s.heap.closures)
    (ha : ∀ a ∈ acts, a ∈ acts') : s'.Captured f acts' capture c := by
  obtain ⟨isLocal, index⟩ := capture
  cases isLocal with
  | true =>
    obtain ⟨v, hv⟩ := h
    exact ⟨v, hid ▸ ha _ hv⟩
  | false =>
    unfold Turn.Captured Heap.closure at h ⊢
    rwa [hc]

theorem Exec.captureCell_captured {f : Frame} {fs : List Frame} {capture : Bool × Nat}
    {s s' : Turn} {c : CellId} (hf : s.task.frames = f :: fs)
    (h : captureCell f capture s = .ok c s') :
    (∃ acts, s'.acts = s.acts ++ acts) ∧ s'.task.id = s.task.id ∧ s'.task.frames = f :: fs ∧
      s'.task.stack = s.task.stack ∧ s'.heap.closures = s.heap.closures ∧
      s.Captured f s'.acts capture c := by
  obtain ⟨isLocal, index⟩ := capture
  cases isLocal with
  | true =>
    rw [captureCell, captureSlot_apply, localAt_eq hf index] at h
    injection h with hcell hstate
    subst hstate hcell
    refine ⟨⟨_, rfl⟩, rfl, hf, rfl, ?_, _, List.mem_append_right _ List.mem_cons_self⟩
    show (s.task.openUpvalues.capture s.heap s.task.id (f.stackBase + index)).2.2.closures = _
    rw [OpenUpvalues.capture_frame]
  | false =>
    rw [captureCell, get_bind_apply] at h
    cases hget : (s.heap.closure f.closure).upvalues[index]? with
    | none =>
      rw [hget] at h
      cases h
    | some d =>
      rw [hget] at h
      injection h with hcell hstate
      subst hstate hcell
      exact ⟨⟨[], (List.append_nil _).symm⟩, rfl, hf, rfl, rfl, hget⟩

theorem Exec.captureCells_captured {f : Frame} {fs : List Frame} :
    ∀ {captures : List (Bool × Nat)} {s s' : Turn} {cells : List CellId},
    s.task.frames = f :: fs → captureCells f captures s = .ok cells s' →
    (∃ acts, s'.acts = s.acts ++ acts) ∧ s'.task.stack = s.task.stack ∧
      List.Forall₂ (s.Captured f s'.acts) captures cells
  | [], s, s', cells, _, h => by
    injection h with hcells hs
    subst hcells hs
    exact ⟨⟨[], (List.append_nil _).symm⟩, rfl, .nil⟩
  | capture :: captures, s, s', cells, hf, h => by
    obtain ⟨c, s₁, hc, h⟩ := bind_eq_ok.mp h
    obtain ⟨cs, s₂, hcs, h⟩ := bind_eq_ok.mp h
    injection h with hcells hs
    subst hcells hs
    obtain ⟨⟨acts, hacts⟩, hid, hf₁, hstack, hclosures, hcaptured⟩ := captureCell_captured hf hc
    obtain ⟨⟨acts', hacts'⟩, hstack', hrest⟩ := captureCells_captured hf₁ hcs
    refine ⟨⟨acts ++ acts', by rw [hacts', hacts, List.append_assoc]⟩, hstack'.trans hstack,
      .cons ?_ ?_⟩
    · exact hcaptured.mono rfl rfl fun a ha => hacts' ▸ List.mem_append_left _ ha
    · exact hrest.imp fun _ _ hd => hd.mono hid.symm hclosures.symm fun a ha => ha

theorem Exec.scans_readCaptures : ∀ {n : Nat} {s s' : Turn} {captures : List (Bool × Nat)}
    {f : Frame} {fs : List Frame}, s.task.frames = f :: fs →
    readCaptures n s = .ok captures s' → s.Scans s'
  | 0, _, _, _, _, _, hf, h => by
    cases h
    exact .refl hf
  | n + 1, s, s', _, _, _, hf, h => by
    obtain ⟨isLocal, s₁, h₁, h⟩ := bind_eq_ok.mp h
    obtain ⟨index, s₂, h₂, h⟩ := bind_eq_ok.mp h
    obtain ⟨rest, s₃, h₃, h⟩ := bind_eq_ok.mp h
    cases h
    have hbytes := (scans_readByte h₁).trans (scans_readByte h₂)
    obtain ⟨ip, hf₂⟩ := hbytes.frames hf
    exact hbytes.trans (scans_readCaptures hf₂ h₃)

/-- Reading code does not concern variables. -/
theorem Turn.Scans.store {s s' : Turn} (h : s.Scans s') : s'.store = s.store := by
  obtain ⟨hf, ip, profiler, instructions⟩ := h
  refine store_same rfl rfl rfl ?_ rfl rfl
  simp [Task.storage, hf, Frame.span]

theorem Turn.Scans.crew {s s' : Turn} (h : s.Scans s') : s'.crew = s.crew := by
  cases h
  exact Turn.crew_eq rfl rfl rfl rfl rfl

/-- What has been written to a captured variable is what is found there. -/
theorem Turn.cellValue_writeCell {s : Turn} {b : Boxes} (ht : s.crew.Tended)
    (hb : s.store.Shares b) {c : CellId} (hc : s.Holds c) (v : Value) :
    (endState (writeCell c v) s).cellValue c = v := by
  obtain ⟨acts, hacts, -, hshares⟩ := mirrors_writeCell ht hc v b hb
  have hlt : c < b.contents.size := hb.size ▸ holds_lt hb hc
  obtain ⟨cells, tasks, stack, touched, hs⟩ := writeCell_frame s c v
  have hholds : (endState (writeCell c v) s).Holds c := by
    rw [hs]
    exact hc
  rw [hs] at hacts
  obtain rfl := List.append_cancel_left hacts
  have hbox := boxed_cellValue hshares hholds
  rw [show (b.replay [.cellSet c v]).contents = b.contents.setIfInBounds c v from rfl,
    Array.getElem?_setIfInBounds_self_of_lt hlt] at hbox
  exact (Option.some.inj hbox).symm

namespace Machine

variable {m : Machine} {task : Task} {op : Opcode} {s s' s₁ : Turn} {b : Boxes} {c : CellId}
  {v : Value} {f : Frame} {fs : List Frame} {index : Nat}

/-- How the next instruction gets at variables, if it is one that does: what it leaves on the
stack, and what on record. -/
structure Accesses (m : Machine) (b : Boxes) : Prop where
  /-- A captured variable is read from its box. -/
  getUpvalue {task : Task} {s : Turn} {c : CellId} : m.Executes task .getUpvalue s → s.NamesCell c →
    ∃ v s', b.contents[c]? = some v ∧ instruction (m.turn task) = .ok .next s' ∧
      s'.task.stack = task.stack.push v ∧ s'.acts = [.cellRead c v]
  /-- The topmost operand is written to a captured variable. -/
  setUpvalue {task : Task} {s : Turn} {c : CellId} {v : Value} :
    m.Executes task .setUpvalue s → s.NamesCell c → task.stack.back? = some v →
    ∃ s', instruction (m.turn task) = .ok .next s' ∧ s'.cellValue c = v ∧
      s'.acts = [.cellSet c v]
  /-- A local is read from its slot, and that is what its box holds, if it has one. -/
  readLocal {task : Task} {op : Opcode} {s s₁ : Turn} {f : Frame} {fs : List Frame} {index : Nat} :
    m.Executes task op s → op = .getLocal ∨ op = .loadFast → s.task.frames = f :: fs →
    localOperand op s = .ok index s₁ → f.stackBase + index < task.stack.size →
    ∃ v s', task.stack[f.stackBase + index]? = some v ∧
      (∀ c, b.box ⟨task.id, f.activation, index⟩ = some c → b.contents[c]? = some v) ∧
      instruction (m.turn task) = .ok .next s' ∧ s'.task.stack = task.stack.push v ∧
      s'.acts = [.localRead ⟨task.id, f.activation, index⟩ v]
  /-- The topmost operand is written to a local. -/
  setLocal {task : Task} {s s₁ : Turn} {f : Frame} {fs : List Frame} {index : Nat} {v : Value} :
    m.Executes task .setLocal s → s.task.frames = f :: fs →
    localOperand .setLocal s = .ok index s₁ →
    f.stackBase + index < task.stack.size → task.stack.back? = some v →
    ∃ s', instruction (m.turn task) = .ok .next s' ∧
      s'.task.stack = task.stack.setIfInBounds (f.stackBase + index) v ∧
      s'.acts = [.localSet ⟨task.id, f.activation, index⟩ v]
  /-- The topmost operand is moved to a local. -/
  storeLocal {task : Task} {op : Opcode} {s s₁ : Turn} {f : Frame} {fs : List Frame} {index : Nat}
      {v : Value} :
    m.Executes task op s → op = .storeFast ∨ op = .catchInto → s.task.frames = f :: fs →
    localOperand op s = .ok index s₁ → f.stackBase + index < task.stack.pop.size →
    task.stack.back? = some v →
    ∃ s', instruction (m.turn task) = .ok .next s' ∧
      s'.task.stack = task.stack.pop.setIfInBounds (f.stackBase + index) v ∧
      s'.acts = [.localSet ⟨task.id, f.activation, index⟩ v]
  /-- A closure is made with the cells that its captures are for. -/
  makeClosure {task : Task} {s : Turn} {flow : Flow} {s' : Turn} :
    m.Executes task .makeClosure s → instruction (m.turn task) = .ok flow s' →
    ∃ f fs captures k, s.task.frames = f :: fs ∧ s.Announces captures ∧
      s'.task.stack = task.stack.push (.closure k) ∧
      List.Forall₂ (s.Captured f s'.acts) captures (s'.heap.closure k).upvalues.toList

namespace Executes

theorem shares (h : m.Executes task op s) (hb : m.store.Shares b) : s.store.Shares b := by
  have hstore : (m.turn task).store = m.store := congrArg Machine.store (ofTurn_turn h.running)
  rwa [h.scans.store, hstore]

theorem getUpvalue_reads (h : m.Executes task .getUpvalue s) (hb : m.store.Shares b)
    (hc : s.NamesCell c) : ∃ v s', b.contents[c]? = some v ∧
      instruction (m.turn task) = .ok .next s' ∧ s'.task.stack = task.stack.push v ∧
      s'.acts = [.cellRead c v] := by
  obtain ⟨s₁, hread, hscans, hholds⟩ := readUpvalue_ok hc
  have hall := h.scans.trans hscans
  let v := s₁.cellValue c
  let s' : Turn := { s₁ with acts := s₁.acts ++ [.cellRead c v], task := s₁.task.push v }
  have hnext : instruction (m.turn task) = .ok .next s' := by
    rw [h.instruction_eq]
    exact (bind_ok hread).trans rfl
  refine ⟨v, s', Turn.boxed_cellValue (hscans.store.symm ▸ h.shares hb) hholds, hnext, ?_, ?_⟩
  · show s₁.task.stack.push v = _
    rw [hall.stack]
    rfl
  · show s₁.acts ++ _ = _
    rw [hall.acts]
    rfl

theorem setUpvalue_writes (h : m.Executes task .setUpvalue s) (ht : m.crew.Tended)
    (hb : m.store.Shares b) (hc : s.NamesCell c) (hv : task.stack.back? = some v) :
    ∃ s', instruction (m.turn task) = .ok .next s' ∧ s'.cellValue c = v ∧
      s'.acts = [.cellSet c v] := by
  obtain ⟨s₁, hread, hscans, hholds⟩ := readUpvalue_ok hc
  have hall := h.scans.trans hscans
  have hcrew : s₁.crew = m.crew :=
    hall.crew.trans (congrArg Machine.crew (ofTurn_turn h.running))
  have hpeek : peek s₁ = .ok v s₁ := peek_ok (by rw [hall.stack]; exact hv)
  have hacts : (endState (writeCell c v) s₁).acts = s₁.acts ++ [.cellSet c v] := by
    obtain ⟨cells, tasks, stack, touched, hs⟩ := writeCell_frame s₁ c v
    rw [hs]
  refine ⟨endState (writeCell c v) s₁, ?_, ?_, ?_⟩
  · rw [h.instruction_eq]
    exact (bind_ok hread).trans ((bind_ok hpeek).trans (bind_ok (writeCell_ok s₁ c v)))
  · exact Turn.cellValue_writeCell (hcrew.symm ▸ ht)
      (hscans.store.symm ▸ h.shares hb) hholds v
  · rw [hacts, hall.acts]
    rfl

/-- What comes before an access to a local. -/
theorem localOperand_read (h : m.Executes task op s) (hf : s.task.frames = f :: fs)
    (hi : localOperand op s = .ok index s₁) : (m.turn task).Scans s₁ ∧
      ∃ ip, s₁.task.frames = { f with ip } :: fs :=
  ⟨h.scans.trans (scans_localOperand hi), (scans_localOperand hi).frames hf⟩

theorem local_reads (h : m.Executes task op s) (hop : op = .getLocal ∨ op = .loadFast)
    (hb : m.store.Shares b) (hf : s.task.frames = f :: fs)
    (hi : localOperand op s = .ok index s₁) (hlt : f.stackBase + index < task.stack.size) :
    ∃ v s', task.stack[f.stackBase + index]? = some v ∧
      (∀ c, b.box ⟨task.id, f.activation, index⟩ = some c → b.contents[c]? = some v) ∧
      instruction (m.turn task) = .ok .next s' ∧ s'.task.stack = task.stack.push v ∧
      s'.acts = [.localRead ⟨task.id, f.activation, index⟩ v] := by
  obtain ⟨hall, ip, hf₁⟩ := h.localOperand_read hf hi
  have hstack : s₁.task.stack = task.stack := hall.stack
  have hid : s₁.task.id = task.id := hall.id
  let v := s₁.task.stack.getD (f.stackBase + index) .nil
  let s' : Turn := { s₁ with
    acts := s₁.acts ++ [.localRead ⟨s₁.task.id, f.activation, index⟩ v]
    task := s₁.task.push v }
  have hpush : pushLocal index s₁ = .ok ⟨⟩ s' := pushLocal_ok hf₁ (hstack.symm ▸ hlt)
  have hnext : instruction (m.turn task) = .ok .next s' := by
    rw [h.instruction_eq]
    rcases hop with rfl | rfl
    · exact (bind_ok hi).trans (bind_ok hpush)
    · exact (bind_ok hi).trans (bind_ok hpush)
  refine ⟨v, s', ?_, fun c hbox => ?_, hnext, ?_, ?_⟩
  · show _ = some (s₁.task.stack.getD _ _)
    rw [hstack, Array.getD_eq_getD_getElem?, Array.getElem?_eq_getElem hlt]
    rfl
  · refine Turn.boxed_local ((scans_localOperand hi).store.symm ▸ h.shares hb) hf₁ ?_
    rw [hid]
    exact hbox
  · show s₁.task.stack.push v = _
    rw [hstack]
  · show s₁.acts ++ _ = _
    rw [hall.acts, hid]
    rfl

theorem setLocal_writes (h : m.Executes task .setLocal s) (hf : s.task.frames = f :: fs)
    (hi : localOperand .setLocal s = .ok index s₁) (hlt : f.stackBase + index < task.stack.size)
    (hv : task.stack.back? = some v) : ∃ s', instruction (m.turn task) = .ok .next s' ∧
      s'.task.stack = task.stack.setIfInBounds (f.stackBase + index) v ∧
      s'.acts = [.localSet ⟨task.id, f.activation, index⟩ v] := by
  obtain ⟨hall, ip, hf₁⟩ := h.localOperand_read hf hi
  have hstack : s₁.task.stack = task.stack := hall.stack
  have hid : s₁.task.id = task.id := hall.id
  have hindex : localIndex index s₁ = .ok (f.stackBase + index) s₁ :=
    localIndex_ok hf₁ (hstack.symm ▸ hlt)
  have hpeek : peek s₁ = .ok v s₁ := peek_ok (hstack.symm ▸ hv)
  have hset : setSlot (f.stackBase + index) v s₁ = .ok ⟨⟩ (s₁.withLocal f index v) :=
    setSlot_ok hf₁ index v
  refine ⟨s₁.withLocal f index v, ?_, ?_, ?_⟩
  · rw [h.instruction_eq]
    exact (bind_ok hi).trans ((bind_ok hindex).trans ((bind_ok hpeek).trans (bind_ok hset)))
  · show s₁.task.stack.setIfInBounds _ v = _
    rw [hstack]
  · show s₁.acts ++ [.localSet ⟨s₁.task.id, _, _⟩ _] = _
    rw [hall.acts, hid]
    rfl

theorem local_stores (h : m.Executes task op s) (hop : op = .storeFast ∨ op = .catchInto)
    (hf : s.task.frames = f :: fs) (hi : localOperand op s = .ok index s₁)
    (hlt : f.stackBase + index < task.stack.pop.size) (hv : task.stack.back? = some v) :
    ∃ s', instruction (m.turn task) = .ok .next s' ∧
      s'.task.stack = task.stack.pop.setIfInBounds (f.stackBase + index) v ∧
      s'.acts = [.localSet ⟨task.id, f.activation, index⟩ v] := by
  obtain ⟨hall, ip, hf₁⟩ := h.localOperand_read hf hi
  have hstack : s₁.task.stack = task.stack := hall.stack
  have hid : s₁.task.id = task.id := hall.id
  have hacts : s₁.acts = [] := hall.acts
  rcases hop with rfl | rfl
  · obtain ⟨s', hs', hstack', hacts'⟩ := store_ok hf₁ (hstack.symm ▸ hlt) (hstack.symm ▸ hv)
    refine ⟨s', h.instruction_eq.trans ((bind_ok hi).trans hs'), ?_, ?_⟩
    · rw [hstack', hstack]
    · rw [hacts', hacts, hid]
      rfl
  -- Catching drops a handler before it stores.
  · obtain ⟨s₂, hdrop, hframes₂, hstack₂, hid₂, hacts₂⟩ := dropHandler_ok s₁
    have hstack₂ := hstack₂.trans hstack
    obtain ⟨s', hs', hstack', hacts'⟩ :=
      store_ok (hframes₂.trans hf₁) (hstack₂.symm ▸ hlt) (hstack₂.symm ▸ hv)
    refine ⟨s', h.instruction_eq.trans ((bind_ok hi).trans ((bind_ok hdrop).trans hs')), ?_, ?_⟩
    · rw [hstack', hstack₂]
    · rw [hacts', hacts₂, hacts, hid₂, hid]
      rfl

theorem makeClosure_captures {flow : Flow} (h : m.Executes task .makeClosure s)
    (hi : instruction (m.turn task) = .ok flow s') :
    ∃ f fs captures k, s.task.frames = f :: fs ∧ s.Announces captures ∧
      s'.task.stack = task.stack.push (.closure k) ∧
      List.Forall₂ (s.Captured f s'.acts) captures (s'.heap.closure k).upvalues.toList := by
  rw [h.instruction_eq] at hi
  obtain ⟨_, s₀, hmake, hi⟩ := bind_eq_ok.mp hi
  cases hi
  obtain ⟨w, s₁, hw, hmake⟩ := bind_eq_ok.mp hmake
  obtain ⟨v, s₂, hv, hmake⟩ := bind_eq_ok.mp hmake
  obtain rfl := constant_state hv
  cases v with
  | function template =>
    obtain ⟨n, s₃, hn, hmake⟩ := bind_eq_ok.mp hmake
    obtain ⟨captures, s₄, hcaptures, hmake⟩ := bind_eq_ok.mp hmake
    obtain ⟨g, s₅, hg, hmake⟩ := bind_eq_ok.mp hmake
    obtain ⟨cells, s₆, hcells, hmake⟩ := bind_eq_ok.mp hmake
    obtain ⟨k, s₇, hk, hmake⟩ := bind_eq_ok.mp hmake
    cases hk
    cases hmake
    -- Up to the captures only code is read.
    obtain ⟨f₀, fs, hf₀, -⟩ := h.within
    obtain ⟨ip, hf⟩ := h.scans.frames hf₀
    have hfew := (scans_readWord hw).trans (scans_readByte hn)
    obtain ⟨ip', hf₃⟩ := hfew.frames hf
    have hscans := hfew.trans (scans_readCaptures hf₃ hcaptures)
    obtain ⟨rfl, gs, hgs⟩ := frame_eq_ok s₄ hg
    obtain ⟨ip'', hf₄⟩ := hscans.frames hf
    obtain ⟨rfl, rfl⟩ := List.cons.inj (hgs.symm.trans hf₄)
    obtain ⟨-, hstack, hcaptured⟩ := captureCells_captured hgs hcells
    have hclosure : Heap.closure { s₆.heap with
        closures := s₆.heap.closures.push { template, upvalues := cells.toArray } }
        s₆.heap.closures.size = { template, upvalues := cells.toArray } := by
      rw [Heap.closure, Array.getD_eq_getD_getElem?, Array.getElem?_push_size]
      rfl
    refine ⟨{ f₀ with ip }, gs, captures, s₆.heap.closures.size, hf,
      ⟨w, _, n, _, _, hw, hn, hcaptures⟩, ?_, ?_⟩
    · show s₆.task.stack.push _ = _
      rw [hstack, (h.scans.trans hscans).stack]
      rfl
    · show List.Forall₂ _ captures (Heap.closure _ s₆.heap.closures.size).upvalues.toList
      rw [hclosure]
      exact hcaptured.imp fun _ _ hd =>
        hd.mono hscans.id.symm (congrArg Heap.closures hscans.heap.symm) fun a ha => ha
  | _ => cases hmake

end Executes

/-- **Variables are got at through their boxes.** -/
theorem accesses_of_shares (ht : m.crew.Tended) (hb : m.store.Shares b) : m.Accesses b where
  getUpvalue h hc := h.getUpvalue_reads hb hc
  setUpvalue h hc hv := h.setUpvalue_writes ht hb hc hv
  readLocal h hop hf hi hlt := h.local_reads hop hb hf hi hlt
  setLocal h hf hi hlt hv := h.setLocal_writes hf hi hlt hv
  storeLocal h hop hf hi hlt hv := h.local_stores hop hf hi hlt hv
  makeClosure h hi := h.makeClosure_captures hi

end Machine

end TaskVm
