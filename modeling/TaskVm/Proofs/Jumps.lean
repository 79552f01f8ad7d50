import TaskVm.Proofs.Boundaries

/-!
# Jumps that are built

A jump is emitted before its target is known, and is pointed at its target when the builder has come
there. In between, the builder goes on, and it emits and points other jumps. None of this disturbs
the three bytes of the jump, so what they say in the end is what they were told.

They are told a distance, and a distance is kept to 16 bits. Nobody asks whether it fits. A jump
whose target is farther away than an offset can reach goes somewhere else, and this is the only
reason for which one does.
-/

namespace TaskVm

open Exec

/-! ## Offsets in bytes -/

namespace Code

variable {code : Code} {place : Nat}

/-- The high byte of a word. -/
def highByte (w : UInt16) : UInt8 := UInt8.ofNat (w.toNat / 256)

/-- The low byte of a word. -/
def lowByte (w : UInt16) : UInt8 := UInt8.ofNat (w.toNat % 256)

theorem wordAt_eq {w : UInt16} (hhigh : code[place]? = some (highByte w))
    (hlow : code[place + 1]? = some (lowByte w)) : code.wordAt place = w := by
  have hw := w.toNat_lt
  have hbytes : (highByte w).toNat * 256 + (lowByte w).toNat = w.toNat := by
    simp only [highByte, lowByte, UInt8.toNat_ofNat']
    omega
  rw [wordAt, byteAt, byteAt, Array.getD_eq_getD_getElem?, Array.getD_eq_getD_getElem?, hhigh, hlow,
    Option.getD_some, Option.getD_some, hbytes, UInt16.ofNat_toNat]

theorem offsetAt_eq_bmod (code : Code) (place : Nat) :
    Heap.offsetAt code place = ((code.wordAt place).toNat : Int).bmod 65536 := by
  have hw := (code.wordAt place).toNat_lt
  simp only [Heap.offsetAt, Int.bmod]
  split <;> omega

/-- The word of a number that is kept to 16 bits. -/
theorem toNat_ofInt (d : Int) : ((Int16.ofInt d).toUInt16.toNat : Int) = d % 65536 := by
  show ((BitVec.ofInt 16 d).toNat : Int) = _
  rw [BitVec.toNat_ofInt]
  omega

/-- Two bytes are read as the number that was written, as far as 16 bits can tell. -/
theorem offsetAt_of_word {d : Int} {w : UInt16} (hhigh : code[place]? = some (highByte w))
    (hlow : code[place + 1]? = some (lowByte w)) (hd : (w.toNat : Int) = d % 65536) :
    Heap.offsetAt code place = d.bmod 65536 := by
  rw [offsetAt_eq_bmod, wordAt_eq hhigh hlow, hd]
  exact Int.emod_bmod d 65536

end Code

/-! ## Building -/

namespace Chunk

/-- A jump in code that is being built: its opcode, where it is, and where it has been pointed. -/
structure Jump where
  op : Opcode
  offset : Nat
  target : Option Nat

namespace Jump

/-- Where the operand of a jump is. -/
def operand (j : Jump) : Nat := j.offset + 1

/-- Where the instruction behind a jump is. -/
def behind (j : Jump) : Nat := j.offset + 3

/-- A jump when the one at an offset has been pointed at a target. -/
def pointed (offset target : Nat) (j : Jump) : Jump :=
  if j.offset = offset then { j with target := some target } else j

/-- The bytes of a jump are what it is: its opcode, and the distance to its target as far as 16 bits
can tell. -/
structure Encoded (j : Jump) (code : Code) : Prop where
  fits : j.behind ≤ code.size
  opcode : code.opcode? j.offset = some j.op
  distance : ∀ target, j.target = some target →
    Heap.offsetAt code j.operand = ((target : Int) - j.behind).bmod 65536

end Jump

/-- Something other than a jump is appended. -/
inductive Emits (c : Chunk) : Chunk → Prop
  | opcode (op : Opcode) (line : Int32) : c.Emits (c.emit op line)
  | byte (b : UInt8) : c.Emits (c.emitByte b)
  | word (w : UInt16) : c.Emits (c.emitWord w)
  | offset (i : Int16) : c.Emits (c.emitOffset i)
  | constant {v : Value} {index : Nat} {c' : Chunk} (h : c.addConstant? v = some (index, c')) :
      c.Emits c'
  | pushConstant {v : Value} {line : Int32} {index : Nat} {c' : Chunk}
      (h : c.emitConstant? v line = some (index, c')) : c.Emits c'

/-- What becomes of a chunk as it is built, with the jumps that have been emitted on the way, the
last one first. Only operands of jumps are filled: of those, and of any that were there before. -/
inductive Built (c₀ : Chunk) : Chunk → List Jump → Prop
  | start : Built c₀ c₀ []
  | emits {c c' : Chunk} {js : List Jump} (h : Built c₀ c js) (he : c.Emits c') : Built c₀ c' js
  | jump {c : Chunk} {js : List Jump} (h : Built c₀ c js) (op : Opcode) (line : Int32) :
      Built c₀ (c.emitJump op line).2 (⟨op, c.code.size, none⟩ :: js)
  | patch {c c' : Chunk} {js : List Jump} {j : Jump} (h : Built c₀ c js) (hj : j ∈ js)
      (hp : c.patchJump? j.operand = some c') :
      Built c₀ c' (js.map (Jump.pointed j.offset c.code.size))
  | patchEarlier {c c' : Chunk} {js : List Jump} {operand : Nat} (h : Built c₀ c js)
      (ho : operand + 2 ≤ c₀.code.size) (hp : c.patchJump? operand = some c') : Built c₀ c' js
  | loop {c : Chunk} {js : List Jump} (h : Built c₀ c js) (start : Nat) (line : Int32) :
      Built c₀ (c.emitLoop start line) (⟨.loop, c.code.size, some start⟩ :: js)

/-! ## What one call does to the bytes -/

variable {c c' c₀ : Chunk} {js : List Jump} {j : Jump} {operand : Nat}

theorem emitWord_code (c : Chunk) (w : UInt16) :
    (c.emitWord w).code = c.code ++ #[Code.highByte w, Code.lowByte w] := by
  show (c.code.push _).push _ = _
  rw [Array.push_eq_append, Array.push_eq_append, Array.append_assoc]
  rfl

/-- A jump is its opcode and a word. -/
theorem emitJump_code (c : Chunk) (op : Opcode) (line : Int32) :
    (c.emitJump op line).2.code = c.code ++ #[op.byte, Code.highByte 0, Code.lowByte 0] := by
  rw [emitJump, emitOffset, emitWord_code]
  show c.code.push op.byte ++ _ = _
  rw [Array.push_eq_append, Array.append_assoc]
  rfl

theorem emitLoop_code (c : Chunk) (start : Nat) (line : Int32) :
    (c.emitLoop start line).code = c.code ++ #[Opcode.loop.byte,
      Code.highByte (Int16.ofInt (start - (c.code.size + 3 : Nat))).toUInt16,
      Code.lowByte (Int16.ofInt (start - (c.code.size + 3 : Nat))).toUInt16] := by
  have hsize : (c.emit .loop line).code.size + 2 = c.code.size + 3 :=
    congrArg (· + 2) (Array.size_push _)
  rw [emitLoop, emitOffset, emitWord_code, hsize]
  show c.code.push _ ++ _ = _
  rw [Array.push_eq_append, Array.append_assoc]
  rfl

theorem Emits.extends (h : c.Emits c') : ∃ bytes, c'.code = c.code ++ bytes := by
  cases h with
  | opcode op line => exact ⟨#[op.byte], Array.push_eq_append⟩
  | byte b => exact ⟨#[b], Array.push_eq_append⟩
  | word w => exact ⟨_, emitWord_code c w⟩
  | offset i => exact ⟨_, emitWord_code c _⟩
  | constant h =>
    unfold addConstant? at h
    split at h
    · cases h
      exact ⟨#[], Array.append_empty.symm⟩
    · cases h
  | pushConstant h =>
    obtain ⟨⟨index, c₁⟩, hadd, heq⟩ := Option.map_eq_some_iff.mp h
    cases heq
    unfold addConstant? at hadd
    split at hadd
    · cases hadd
      rw [emitWord_code]
      show ∃ bytes, c.code.push _ ++ _ = c.code ++ bytes
      rw [Array.push_eq_append, Array.append_assoc]
      exact ⟨_, rfl⟩
    · cases hadd

/-- A patch changes the two bytes of an operand, into a distance to the end of the code. -/
theorem patchJump?_eq_some (h : c.patchJump? operand = some c') :
    operand + 2 ≤ c.code.size ∧ c'.code.size = c.code.size ∧
      (∀ i, i ≠ operand → i ≠ operand + 1 → c'.code[i]? = c.code[i]?) ∧
      Heap.offsetAt c'.code operand = ((c.code.size : Int) - (operand + 2 : Nat)).bmod 65536 := by
  unfold patchJump? at h
  split at h
  · rename_i hfits
    cases h
    refine ⟨hfits, by simp, fun i h h' => ?_, ?_⟩
    · simp [Ne.symm h, Ne.symm h']
    · refine Code.offsetAt_of_word (w := UInt16.ofNat (c.code.size - operand - 2)) ?_ ?_ ?_
      · simp [Code.highByte, show operand < c.code.size by omega]
      · simp [Code.lowByte, show operand + 1 < c.code.size by omega]
      · rw [UInt16.toNat_ofNat']
        omega
  · cases h

/-! ## What all of them do to a jump -/

/-- It is the three bytes of a jump that count. -/
theorem Jump.Encoded.congr {code code' : Code} (h : j.Encoded code)
    (hsize : code.size ≤ code'.size)
    (hsame : ∀ i, j.offset ≤ i → i < j.behind → code'[i]? = code[i]?) : j.Encoded code' where
  fits := Nat.le_trans h.fits hsize
  opcode := by
    rw [← h.opcode, Code.opcode?, Code.opcode?,
      hsame _ (Nat.le_refl _) (Nat.lt_add_of_pos_right (by decide))]
  distance target ht := by
    have hbyte : ∀ i, j.offset ≤ i → i < j.behind → code'.byteAt i = code.byteAt i := by
      intro i hle hlt
      rw [Code.byteAt, Code.byteAt, Array.getD_eq_getD_getElem?, Array.getD_eq_getD_getElem?,
        hsame i hle hlt]
    have hword : code'.wordAt j.operand = code.wordAt j.operand := by
      rw [Code.wordAt, Code.wordAt, hbyte, hbyte] <;> simp only [operand, behind] <;> omega
    rw [← h.distance target ht, Code.offsetAt_eq_bmod, Code.offsetAt_eq_bmod, hword]

theorem Jump.Encoded.append {code : Code} (h : j.Encoded code) (bytes : Array UInt8) :
    j.Encoded (code ++ bytes) :=
  h.congr (by simp) fun _ _ hlt => Array.getElem?_append_left (Nat.lt_of_lt_of_le hlt h.fits)

/-- The jumps of a chunk that is being built are apart from each other and from what was there
before. -/
structure Layout (c₀ c : Chunk) (js : List Jump) : Prop where
  grown : c₀.code.size ≤ c.code.size
  encoded : ∀ j ∈ js, j.Encoded c.code
  /-- What has been pointed has been pointed at where the code ended, unless it was emitted so. -/
  within : ∀ j ∈ js, j.op ≠ .loop → ∀ target, j.target = some target → target ≤ c.code.size
  later : ∀ j ∈ js, c₀.code.size ≤ j.offset
  apart : ∀ j ∈ js, ∀ j' ∈ js, j.offset = j'.offset ∨ j.behind ≤ j'.offset ∨ j'.behind ≤ j.offset

namespace Layout

theorem start (c : Chunk) : Layout c c [] := ⟨Nat.le_refl _, nofun, nofun, nofun, nofun⟩

theorem extend (h : Layout c₀ c js) {bytes : Array UInt8} (hc : c'.code = c.code ++ bytes) :
    Layout c₀ c' js := by
  have hsize : c.code.size ≤ c'.code.size := by
    rw [hc, Array.size_append]
    exact Nat.le_add_right _ _
  refine ⟨Nat.le_trans h.grown hsize, fun j hj => hc ▸ (h.encoded j hj).append bytes, ?_, h.later,
    h.apart⟩
  exact fun j hj hop target ht => Nat.le_trans (h.within j hj hop target ht) hsize

/-- A jump has been appended, and nothing else. -/
theorem cons (h : Layout c₀ c js) {bytes : Array UInt8} (hc : c'.code = c.code ++ bytes)
    (hoffset : j.offset = c.code.size) (hj : j.Encoded c'.code)
    (hnew : j.op ≠ .loop → j.target = none) : Layout c₀ c' (j :: js) := by
  have hbehind : ∀ j' ∈ js, j'.behind ≤ j.offset := fun j' hj' => hoffset ▸ (h.encoded j' hj').fits
  have hrest := h.extend hc
  refine ⟨hrest.grown, ?_, ?_, ?_, ?_⟩
  · exact List.forall_mem_cons.mpr ⟨hj, hrest.encoded⟩
  · refine List.forall_mem_cons.mpr ⟨fun hop target ht => ?_, hrest.within⟩
    cases (hnew hop).symm.trans ht
  · exact List.forall_mem_cons.mpr ⟨hoffset ▸ h.grown, h.later⟩
  · refine List.forall_mem_cons.mpr ⟨List.forall_mem_cons.mpr ⟨.inl rfl, ?_⟩, fun j₁ h₁ => ?_⟩
    · exact fun j' hj' => .inr (.inr (hbehind j' hj'))
    · exact List.forall_mem_cons.mpr ⟨.inr (.inl (hbehind j₁ h₁)), h.apart j₁ h₁⟩

/-- The operand of a jump has been filled. No other jump has noticed. -/
theorem patch (h : Layout c₀ c js) (hj : j ∈ js) (hp : c.patchJump? j.operand = some c') :
    Layout c₀ c' (js.map (Jump.pointed j.offset c.code.size)) := by
  obtain ⟨-, hsize, hsame, hdistance⟩ := patchJump?_eq_some hp
  have hplace : ∀ target j', (Jump.pointed j.offset target j').offset = j'.offset := by
    intro target j'
    unfold Jump.pointed
    split <;> rfl
  have hbehind : ∀ target j', (Jump.pointed j.offset target j').behind = j'.behind :=
    fun target j' => congrArg (· + 3) (hplace target j')
  refine ⟨hsize ▸ h.grown, ?_, ?_, ?_, ?_⟩
  · refine List.forall_mem_map.mpr fun j' hj' => ?_
    have hencoded := h.encoded j' hj'
    unfold Jump.pointed
    split
    · -- The jump that is pointed keeps its opcode, and its distance is new.
      rename_i hoffset
      refine ⟨hsize ▸ hencoded.fits, ?_, ?_⟩
      · rw [← hencoded.opcode, Code.opcode?, Code.opcode?, hsame] <;>
          simp only [Jump.operand] <;> omega
      · rintro target ⟨⟩
        rw [Jump.operand] at hdistance
        rw [Jump.operand, Jump.behind, hoffset, hdistance]
    · -- The two bytes that are filled are in no other jump.
      rename_i hother
      refine hencoded.congr (Nat.le_of_eq hsize.symm) fun i hle hlt => hsame i ?_ ?_ <;>
        · have := h.apart j' hj' j hj
          simp only [Jump.operand, Jump.behind] at *
          omega
  · refine List.forall_mem_map.mpr fun j' hj' hop target ht => ?_
    unfold Jump.pointed at hop ht
    split at ht
    · obtain rfl := Option.some.inj ht
      exact Nat.le_of_eq hsize.symm
    · rename_i hother
      rw [if_neg hother] at hop
      exact hsize ▸ h.within j' hj' hop target ht
  · exact List.forall_mem_map.mpr fun j' hj' => hplace _ j' ▸ h.later j' hj'
  · refine List.forall_mem_map.mpr fun j₁ h₁ => List.forall_mem_map.mpr fun j₂ h₂ => ?_
    rw [hplace, hplace, hbehind, hbehind]
    exact h.apart j₁ h₁ j₂ h₂

theorem patchEarlier (h : Layout c₀ c js) (ho : operand + 2 ≤ c₀.code.size)
    (hp : c.patchJump? operand = some c') : Layout c₀ c' js := by
  obtain ⟨-, hsize, hsame, -⟩ := patchJump?_eq_some hp
  refine ⟨hsize ▸ h.grown, fun j hj => ?_, hsize ▸ h.within, h.later, h.apart⟩
  have hlater := h.later j hj
  exact (h.encoded j hj).congr (Nat.le_of_eq hsize.symm) fun i hle _ =>
    hsame i (by omega) (by omega)

end Layout

/-- An opcode and two bytes behind it are a jump. -/
theorem encoded_of_append {op : Opcode} {target : Option Nat} {w : UInt16}
    (hc : c'.code = c.code ++ #[op.byte, Code.highByte w, Code.lowByte w])
    (hw : ∀ t, target = some t → (w.toNat : Int) = ((t : Int) - (c.code.size + 3 : Nat)) % 65536) :
    Jump.Encoded ⟨op, c.code.size, target⟩ c'.code where
  fits := by
    rw [hc, Array.size_append]
    exact Nat.le_refl _
  opcode := by
    rw [Code.opcode?, hc, Array.getElem?_append_right (Nat.le_refl _), Nat.sub_self]
    exact Opcode.ofByte?_byte op
  distance t ht := by
    refine Code.offsetAt_of_word (w := w) ?_ ?_ (hw t ht) <;>
      · rw [hc, Array.getElem?_append_right (by simp only [Jump.operand]; omega)]
        simp [Jump.operand, Nat.add_assoc]

/-- **The bytes of every jump are what it is**, whatever has been built since. -/
theorem Built.layout (h : Built c₀ c js) : Layout c₀ c js := by
  induction h with
  | start => exact .start c₀
  | emits _ he ih =>
    obtain ⟨bytes, hc⟩ := he.extends
    exact ih.extend hc
  | @jump c js _ op line ih =>
    exact ih.cons (c.emitJump_code op line) rfl (encoded_of_append (c.emitJump_code op line) nofun)
      fun _ => rfl
  | patch _ hj hp ih => exact ih.patch hj hp
  | patchEarlier _ ho hp ih => exact ih.patchEarlier ho hp
  | @loop c js _ start line ih =>
    refine ih.cons (c.emitLoop_code start line) rfl
      (encoded_of_append (c.emitLoop_code start line) ?_) fun hop => absurd rfl hop
    rintro t ⟨⟩
    exact Code.toNat_ofInt _

end Chunk

/-! ## Executing -/

variable {s s' : Turn} {f : Frame} {fs : List Frame} {op : Opcode} {target : Nat}

namespace Exec

theorem readOffset_ok (hf : s.task.frames = f :: fs) (hfits : f.ip + 2 ≤ (f.code s.heap).size) :
    ∃ s', readOffset s = .ok (Heap.offsetAt (f.code s.heap) f.ip) s' ∧
      s'.task = { s.task with frames := { f with ip := f.ip + 2 } :: fs } ∧ s'.heap = s.heap := by
  have hhigh : (f.code s.heap)[f.ip]? = some (f.code s.heap)[f.ip] :=
    Array.getElem?_eq_getElem (by omega)
  have hlow : (f.code s.heap)[f.ip + 1]? = some (f.code s.heap)[f.ip + 1] :=
    Array.getElem?_eq_getElem (by omega)
  have hread : readOffset s = .ok _
      { s with task := { s.task with frames := { f with ip := f.ip + 2 } :: fs } } :=
    bind_ok (bind_ok (readByte_ok hf hhigh) |>.trans <| bind_ok <|
      readByte_ok (f := { f with ip := f.ip + 1 }) rfl hlow)
  rw [readOffset_eq_ok hread hf] at hread
  exact ⟨_, hread, rfl, rfl⟩

end Exec

/-- Where an instruction has aimed: a jump goes on there, and a handler is registered that will. -/
def Turn.Aimed (s s' : Turn) (target : Nat) : Opcode → Prop
  | .tryBegin => ∃ handler, s'.task.handlers = handler :: s.task.handlers ∧
      handler.target = target
  | _ => ∃ f fs, s.task.frames = f :: fs ∧ s'.task.frames = { f with ip := target } :: fs

/-- The instruction at hand aims at a target and succeeds. -/
def Turn.Aims (s : Turn) (op : Opcode) (target : Nat) : Prop :=
  ∃ s', execute op s = .ok .next s' ∧ s.Aimed s' target op

theorem Turn.Aimed.target_eq {target' : Nat} (h : s.Aimed s' target op)
    (h' : s.Aimed s' target' op) : target = target' := by
  cases op
  case tryBegin =>
    obtain ⟨handler, hs, rfl⟩ := h
    obtain ⟨handler', hs', rfl⟩ := h'
    exact congrArg Handler.target (List.cons.inj (hs.symm.trans hs')).1
  all_goals
    obtain ⟨f, fs, -, hs⟩ := h
    obtain ⟨f', fs', -, hs'⟩ := h'
    exact congrArg Frame.ip (List.cons.inj (hs.symm.trans hs')).1

theorem jumpTarget?_eq_some {h : Heap} {o : Int} : f.jumpTarget? h o = some target ↔
    (target : Int) = f.ip + o ∧ target ≤ (f.code h).size := by
  unfold Frame.jumpTarget?
  dsimp only
  split
  · refine ⟨nofun, fun ⟨hip, hle⟩ => ?_⟩
    omega
  · rw [Option.some_inj]
    omega

namespace Exec

theorem pop_top {v : Value} (hv : s.task.stack.back? = some v) :
    ∃ s', pop s = .ok v s' ∧ s'.task.frames = s.task.frames ∧ s'.heap = s.heap :=
  ⟨_, pop_ok s hv, rfl, rfl⟩

theorem jump_ok {o : Int} (hf : s.task.frames = f :: fs)
    (h : f.jumpTarget? s.heap o = some target) :
    ∃ s', jump o s = .ok ⟨⟩ s' ∧ s'.task.frames = { f with ip := target } :: fs := by
  have hjump : f.jump s.heap o = .ok { f with ip := target } := by
    rw [Frame.jump, h]
  refine ⟨{ s with task := s.task.setFrame { f with ip := target } }, ?_, ?_⟩
  · rw [jump, bind_ok (frame_ok s hf), get_bind_apply, hjump]
    rfl
  · show _ :: s.task.frames.drop 1 = _
    rw [hf]
    rfl

theorem jump_error {o : Int} (hf : s.task.frames = f :: fs) (h : f.jumpTarget? s.heap o = none) :
    ∃ e, jump o s = .error e s := by
  have hjump : f.jump s.heap o = .error (.invalidBytecode f.ip "jump target outside chunk") := by
    rw [Frame.jump, h]
  refine ⟨.raised (.invalidBytecode f.ip "jump target outside chunk"), ?_⟩
  rw [jump, bind_ok (frame_ok s hf), get_bind_apply, hjump]
  rfl

end Exec

/-- The instructions that jump here, or that say where to go on after a throw. -/
inductive Turn.Branches (s : Turn) : Opcode → Prop
  | jump : s.Branches .jump
  | loop : s.Branches .loop
  | jumpIfFalse {v : Value} (hv : s.task.stack.back? = some v) (hfalse : v.isTruthy = false) :
      s.Branches .jumpIfFalse
  | tryBegin : s.Branches .tryBegin

namespace Exec

/-- An instruction that branches aims at what its offset leads to from behind it. -/
theorem aims_of_jumpTarget? (hop : s.Branches op) (hf : s.task.frames = f :: fs)
    (hfits : f.ip + 2 ≤ (f.code s.heap).size)
    (h : ({ f with ip := f.ip + 2 } : Frame).jumpTarget? s.heap
      (Heap.offsetAt (f.code s.heap) f.ip) = some target) : s.Aims op target := by
  obtain ⟨s₁, hread, htask, hheap⟩ := readOffset_ok hf hfits
  have hframes : s₁.task.frames = { f with ip := f.ip + 2 } :: fs := congrArg Task.frames htask
  generalize Heap.offsetAt (f.code s.heap) f.ip = offset at hread h
  rw [← hheap] at h
  cases hop with
  | jump | loop =>
    obtain ⟨s', hjump, hs'⟩ := jump_ok hframes h
    exact ⟨s', bind_ok hread |>.trans (bind_ok hjump), f, fs, hf, hs'⟩
  | @jumpIfFalse v hv hfalse =>
    obtain ⟨s₂, hpop, hframes₂, hheap₂⟩ := pop_top (s := s₁) (by rw [htask]; exact hv)
    rw [← hheap₂] at h
    obtain ⟨s', hjump, hs'⟩ := jump_ok (hframes₂.trans hframes) h
    refine ⟨s', bind_ok hread |>.trans ((bind_ok hpop).trans ?_), f, fs, hf, hs'⟩
    rw [hfalse]
    exact bind_ok hjump
  | tryBegin =>
    have hbegin : tryBegin s = .ok ⟨⟩
        { s₁ with task := s₁.task.protect { f with ip := f.ip + 2 } target } := by
      rw [tryBegin, bind_ok hread, get_bind_apply, bind_ok (frame_ok s₁ hframes), h]
      rfl
    have hhandlers : s₁.task.handlers = s.task.handlers := by rw [htask]
    exact ⟨_, bind_ok hbegin, _, congrArg (_ :: ·) hhandlers, rfl⟩

theorem error_of_jumpTarget? (hop : s.Branches op) (hf : s.task.frames = f :: fs)
    (hfits : f.ip + 2 ≤ (f.code s.heap).size)
    (h : ({ f with ip := f.ip + 2 } : Frame).jumpTarget? s.heap
      (Heap.offsetAt (f.code s.heap) f.ip) = none) : ∃ e s', execute op s = .error e s' := by
  obtain ⟨s₁, hread, htask, hheap⟩ := readOffset_ok hf hfits
  have hframes : s₁.task.frames = { f with ip := f.ip + 2 } :: fs := congrArg Task.frames htask
  generalize Heap.offsetAt (f.code s.heap) f.ip = offset at hread h
  rw [← hheap] at h
  cases hop with
  | jump | loop =>
    obtain ⟨e, he⟩ := jump_error hframes h
    exact ⟨e, s₁, bind_ok hread |>.trans (bind_error he)⟩
  | @jumpIfFalse v hv hfalse =>
    obtain ⟨s₂, hpop, hframes₂, hheap₂⟩ := pop_top (s := s₁) (by rw [htask]; exact hv)
    rw [← hheap₂] at h
    obtain ⟨e, he⟩ := jump_error (hframes₂.trans hframes) h
    refine ⟨e, s₂, bind_ok hread |>.trans ((bind_ok hpop).trans ?_)⟩
    rw [hfalse]
    exact bind_error he
  | tryBegin =>
    have hbegin : tryBegin s = invalid "handler target outside chunk" s₁ := by
      rw [tryBegin, bind_ok hread, get_bind_apply, bind_ok (frame_ok s₁ hframes), h]
    exact ⟨_, _, bind_error hbegin⟩

/-- What an instruction that branches aims at, in terms of what is in the code. -/
theorem aims_iff (hop : s.Branches op) (hf : s.task.frames = f :: fs)
    (hfits : f.ip + 2 ≤ (f.code s.heap).size) : s.Aims op target ↔
      (target : Int) = (f.ip + 2 : Nat) + Heap.offsetAt (f.code s.heap) f.ip ∧
        target ≤ (f.code s.heap).size := by
  refine Iff.trans ⟨fun ⟨s', hs', haimed⟩ => ?_, aims_of_jumpTarget? hop hf hfits⟩
    jumpTarget?_eq_some
  -- An offset that leads out of the code is an error, and then nothing is aimed at.
  cases h : ({ f with ip := f.ip + 2 } : Frame).jumpTarget? s.heap
      (Heap.offsetAt (f.code s.heap) f.ip) with
  | none =>
    obtain ⟨e, s₁, he⟩ := error_of_jumpTarget? hop hf hfits h
    rw [he] at hs'
    cases hs'
  | some target' =>
    obtain ⟨s₁, hs₁, haimed'⟩ := aims_of_jumpTarget? hop hf hfits h
    obtain ⟨-, rfl⟩ := EStateM.Result.ok.inj (hs₁.symm.trans hs')
    exact congrArg some (haimed'.target_eq haimed)

end Exec

/-! ## Landing -/

namespace Chunk

variable {c c₀ : Chunk} {js : List Jump} {j : Jump}

/-- A turn has come to the operand of a jump in the code of a chunk, and the jump is taken. -/
structure Jump.Taken (j : Jump) (c : Chunk) (s : Turn) : Prop where
  at_operand : ∃ f fs, s.task.frames = f :: fs ∧ f.code s.heap = c.code ∧ f.ip = j.operand
  branches : s.Branches j.op

/-- The distance from behind a jump to a target can be told by an offset. -/
def Jump.Reaches (j : Jump) (target : Nat) : Prop :=
  (j.behind : Int) - 32768 ≤ target ∧ target ≤ j.behind + 32767

instance (j : Jump) (target : Nat) : Decidable (j.Reaches target) :=
  inferInstanceAs (Decidable (_ ∧ _))

/-- What a jump that is taken aims at is where it has been pointed, as far as 16 bits can tell. -/
theorem Built.aims_iff (h : Built c₀ c js) (hj : j ∈ js) {target : Nat}
    (htarget : j.target = some target) (hs : j.Taken c s) (place : Nat) : s.Aims j.op place ↔
      (place : Int) = j.behind + ((target : Int) - j.behind).bmod 65536 ∧ place ≤ c.code.size := by
  have hencoded := h.layout.encoded j hj
  obtain ⟨f, fs, hf, hcode, hip⟩ := hs.at_operand
  have hbehind : f.ip + 2 = j.behind := by rw [hip, Jump.operand, Jump.behind]
  have hfits : f.ip + 2 ≤ (f.code s.heap).size := by
    rw [hbehind, hcode]
    exact hencoded.fits
  rw [Exec.aims_iff hs.branches hf hfits, hbehind, hcode, hip, hencoded.distance target htarget]

/-- **A built jump lands where it was pointed, as far as an offset reaches.** Whatever is emitted
and pointed in between and afterwards, a jump that is taken goes on at its target, and a handler is
registered with it, if the distance from behind the jump is at least -32768 and at most 32767, and
only then; a loop may also have been given a target that is not in the code. A jump whose target is
too far away goes elsewhere by a multiple of 65536, if anywhere. -/
theorem built_jumps_land (h : Built c₀ c js) (hj : j ∈ js) {target : Nat}
    (htarget : j.target = some target) (hs : j.Taken c s) :
    (s.Aims j.op target ↔ j.Reaches target ∧ (j.op = .loop → target ≤ c.code.size)) ∧
      ∀ place, s.Aims j.op place → ((place : Int) - target) % 65536 = 0 := by
  have hwithin : target ≤ c.code.size ↔ (j.op = .loop → target ≤ c.code.size) :=
    ⟨fun hle _ => hle, fun hloop => (eq_or_ne j.op .loop).elim hloop fun hop =>
      h.layout.within j hj hop target htarget⟩
  have hmod := Int.bmod_def ((target : Int) - j.behind) 65536
  -- The place that is aimed at is the target exactly if the distance is its own remainder.
  constructor
  · rw [h.aims_iff hj htarget hs, ← hwithin, and_congr_left_iff, Jump.Reaches]
    intro _
    split at hmod <;> omega
  · intro place hplace
    have heq := ((h.aims_iff hj htarget hs place).mp hplace).1
    split at hmod <;> omega

/-- A jump over some instructions, before it is pointed. -/
def overNils : Nat → Chunk
  | 0 => (emitJump {} .jump 1).2
  | n + 1 => (overNils n).emit .pushNil 1

/-- A jump over some instructions. -/
def skipNils (n : Nat) : Chunk := ((overNils n).patchJump? 1).getD {}

/-- The turn of a task that has come to the operand of the jump. -/
def skipping (n : Nat) : Turn :=
  { hosts := #[], heap := { chunks := #[skipNils n] }, vm := default
    task := { id := 0, handle := 0, frames :=
      [{ closure := 0, chunk := 0, ip := 1, stackBase := 0, localCount := 0, iterBase := 0 }] } }

theorem built_overNils (n : Nat) :
    Built {} (overNils n) [⟨.jump, 0, none⟩] ∧ (overNils n).code.size = n + 3 := by
  induction n with
  | zero => exact ⟨.jump .start .jump 1, rfl⟩
  | succ n ih =>
    exact ⟨.emits ih.1 (.opcode .pushNil 1), (Array.size_push _).trans (by rw [ih.2])⟩

theorem built_skipNils (n : Nat) : Built {} (skipNils n) [⟨.jump, 0, some (n + 3)⟩] := by
  obtain ⟨hbuilt, hsize⟩ := built_overNils n
  obtain ⟨c, hc⟩ : ∃ c, (overNils n).patchJump? 1 = some c := by
    rw [patchJump?, if_pos (by omega)]
    exact ⟨_, rfl⟩
  have hpatch := hbuilt.patch (List.mem_singleton_self _) hc
  rw [hsize] at hpatch
  rw [skipNils, hc]
  exact hpatch

theorem taken_skipping (n : Nat) : Jump.Taken ⟨.jump, 0, some (n + 3)⟩ (skipNils n) (skipping n) :=
  ⟨⟨_, _, rfl, rfl, rfl⟩, .jump⟩

/-- A jump over two instructions goes on behind them. -/
theorem skipping_two_lands : (skipping 2).Aims .jump 5 :=
  (built_jumps_land (built_skipNils 2) (List.mem_singleton_self _) rfl (taken_skipping 2)).1.mpr
    ⟨by decide, nofun⟩

/-- A jump over 32768 instructions does not. -/
theorem skipping_far_strays : Built {} (skipNils 32768) [⟨.jump, 0, some 32771⟩] ∧
    Jump.Taken ⟨.jump, 0, some 32771⟩ (skipNils 32768) (skipping 32768) ∧
    ¬ (skipping 32768).Aims .jump 32771 := by
  refine ⟨built_skipNils 32768, taken_skipping 32768, fun haims => ?_⟩
  have hland := ((built_skipNils 32768).aims_iff (List.mem_singleton_self _) rfl
    (taken_skipping 32768) 32771).mp haims
  exact absurd hland.1 (by decide)

end Chunk

end TaskVm
