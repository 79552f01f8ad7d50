import TaskVm.Proofs.Fields

/-!
# Records of a file

What a chunk is to a file: its code, its constants with the chunks of functions as numbers,
and its lines. A chunk that a file can hold is written as bytes that are read back as just
that. What is read, from whatever bytes, is such a record again, so that there is nothing a
file can say which a file could not say better.
-/

namespace TaskVm

open ProgramFile

/-- A constant that a file can hold. -/
def Value.Storable (h : Heap) : Value → Prop
  | .nil | .bool _ | .number _ => True
  | .string s => Short s
  | .function i => Short (h.template i).name
  | _ => False

/-- A chunk that a file can hold: with one line for each byte of code, no more constants than
operands can tell apart, and nothing whose length a word could not hold. -/
structure Chunk.Storable (h : Heap) (c : Chunk) : Prop where
  lines : c.lines.size = c.code.size
  code : c.code.size < 2 ^ 32
  pool : c.constants.size ≤ Chunk.maxConstants
  constants : ∀ v ∈ c.constants.toList, v.Storable h

/-- The texts in a constant are not longer than a word can say. -/
def Value.Brief (h : Heap) : Value → Prop
  | .string s => Short s
  | .function i => Short (h.template i).name
  | _ => True

/-- A chunk of which a file can say how long everything in it is, with no more constants than
operands can tell apart and no lines beyond the words that its code fills. -/
structure Chunk.Measured (h : Heap) (c : Chunk) : Prop where
  code : c.code.size < 2 ^ 32
  lines : c.lines.size < 2 ^ 32
  fits : c.lines.size ≤ 4 * ((c.code.size + 3) / 4)
  pool : c.constants.size ≤ Chunk.maxConstants
  constants : ∀ v ∈ c.constants.toList, v.Brief h

theorem Value.Storable.brief {h : Heap} {v : Value} (hv : v.Storable h) : v.Brief h := by
  cases v with
  | string | function => exact hv
  | _ => trivial

theorem Chunk.Storable.measured {h : Heap} {c : Chunk} (hc : c.Storable h) : c.Measured h where
  code := hc.code
  lines := hc.lines ▸ hc.code
  fits := by
    rw [hc.lines]
    omega
  pool := hc.pool
  constants v hv := (hc.constants v hv).brief

instance (h : Heap) : (v : Value) → Decidable (v.Storable h)
  | .nil | .bool _ | .number _ => inferInstanceAs (Decidable True)
  | .string s => inferInstanceAs (Decidable (s.utf8ByteSize < 2 ^ 32))
  | .function i => inferInstanceAs (Decidable ((h.template i).name.utf8ByteSize < 2 ^ 32))
  | .array _ | .map _ | .closure _ | .native _ | .boundMethod _ _ | .channel _ | .task _
  | .error _ => inferInstanceAs (Decidable False)

instance (h : Heap) : (v : Value) → Decidable (v.Brief h)
  | .string s => inferInstanceAs (Decidable (s.utf8ByteSize < 2 ^ 32))
  | .function i => inferInstanceAs (Decidable ((h.template i).name.utf8ByteSize < 2 ^ 32))
  | .nil | .bool _ | .number _ | .array _ | .map _ | .closure _ | .native _ | .boundMethod _ _
  | .channel _ | .task _ | .error _ => inferInstanceAs (Decidable True)

instance (h : Heap) (c : Chunk) : Decidable (c.Storable h) :=
  decidable_of_iff (c.lines.size = c.code.size ∧ c.code.size < 2 ^ 32 ∧
      c.constants.size ≤ Chunk.maxConstants ∧ ∀ v ∈ c.constants.toList, v.Storable h)
    ⟨fun ⟨hl, hc, hp, hv⟩ => ⟨hl, hc, hp, hv⟩, fun ⟨hl, hc, hp, hv⟩ => ⟨hl, hc, hp, hv⟩⟩

instance (h : Heap) (c : Chunk) : Decidable (c.Measured h) :=
  decidable_of_iff (c.code.size < 2 ^ 32 ∧ c.lines.size < 2 ^ 32 ∧
      c.lines.size ≤ 4 * ((c.code.size + 3) / 4) ∧ c.constants.size ≤ Chunk.maxConstants ∧
      ∀ v ∈ c.constants.toList, v.Brief h)
    ⟨fun ⟨hc, hl, hf, hp, hv⟩ => ⟨hc, hl, hf, hp, hv⟩,
      fun ⟨hc, hl, hf, hp, hv⟩ => ⟨hc, hl, hf, hp, hv⟩⟩

namespace ProgramFile

/-! ## Constants -/

/-- A constant as it is written, given the number of each chunk. -/
def rawConstant (h : Heap) (order : List ChunkId) : Value → RawConstant
  | .function i =>
    .function { h.template i with chunk := 0 } ((order.idxOf? (h.template i).chunk).getD 0)
  | v => .value v

/-- A constant that a file can hold, as a file has it. -/
def RawConstant.Valid : RawConstant → Prop
  | .value .nil | .value (.bool _) | .value (.number _) => True
  | .value (.string s) => Short s
  | .value _ => False
  | .function t _ => Short t.name

theorem reads_function {t : Template} (ht : Short t.name) {chunk : Nat} (hc : chunk < 2 ^ 32) :
    Reads ReadM.function (functionBytes t chunk)
      (.function { t with chunk := 0 } chunk) := by
  have hflag : (boolByte t.variadic != 0) = t.variadic := by
    cases t.variadic <;> rfl
  have hlocals : t.localCount.toNat < 256 ^ 2 := t.localCount.toNat_lt
  have hfields : Reads ReadM.function (textBytes t.name ++ ([t.arity] ++ ([boolByte t.variadic] ++
      (littleEndian 2 t.localCount.toNat ++ ([t.upvalueCount] ++ (word chunk ++ []))))))
      (.function { t with
        variadic := boolByte t.variadic != 0
        localCount := UInt16.ofNat t.localCount.toNat
        chunk := 0 } chunk) :=
    reads_bind (reads_text _ ht) <| reads_bind (reads_byte _ _) <| reads_bind (reads_byte _ _) <|
      reads_bind (reads_number _ hlocals) <| reads_bind (reads_byte _ _) <|
        reads_bind (reads_word _ hc) (reads_pure _)
  rw [hflag, UInt16.ofNat_toNat, List.append_nil] at hfields
  simpa [functionBytes] using hfields

/-- A tag, and what is to come behind it. -/
theorem reads_tagged {tag : UInt8} {f : UInt8 → ReadM RawConstant} {bytes : List UInt8}
    {c : RawConstant} (h : Reads (f tag) bytes c) :
    Reads (ReadM.byte "constants" >>= f) (tag :: bytes) c :=
  reads_bind (reads_byte _ tag) h

/-- The number of a chunk fits in a word if the number of chunks does. -/
theorem idxOf?_getD_lt {order : List ChunkId} (ho : order.length < 2 ^ 32) (c : ChunkId) :
    (order.idxOf? c).getD 0 < 2 ^ 32 := by
  cases hi : order.idxOf? c with
  | none => exact Nat.two_pow_pos 32
  | some i =>
    obtain ⟨hlt, -, -⟩ := List.idxOf?_eq_some_iff.mp hi
    exact Nat.lt_trans hlt ho

theorem reads_constant {h : Heap} {order : List ChunkId} (ho : order.length < 2 ^ 32) {v : Value}
    (hv : v.Storable h) : ∃ bytes, constantBytes h order v = .ok bytes ∧
      Reads ReadM.constant bytes (rawConstant h order v) := by
  cases v with
  | nil => exact ⟨_, rfl, reads_tagged (reads_pure _)⟩
  | bool b =>
    have hflag : (boolByte b != 0) = b := by
      cases b <;> rfl
    have hread := reads_map (reads_byte "constants" (boolByte b)) fun x =>
      RawConstant.value (.bool (x != 0))
    rw [hflag] at hread
    exact ⟨_, rfl, reads_tagged hread⟩
  | number n =>
    have hbits : n.bits.toNat < 256 ^ 8 := n.bits.toNat_lt
    have hread := reads_map (reads_number "constants" hbits) fun x =>
      RawConstant.value (.number ⟨UInt64.ofNat x⟩)
    rw [UInt64.ofNat_toNat] at hread
    exact ⟨_, rfl, reads_tagged hread⟩
  | string s =>
    have hread := reads_map (reads_text "constants" hv) fun x => RawConstant.value (.string x)
    exact ⟨_, rfl, reads_tagged hread⟩
  | function i =>
    have hread := reads_function hv (idxOf?_getD_lt ho (h.template i).chunk)
    exact ⟨_, rfl, reads_tagged hread⟩
  | _ => exact hv.elim

theorem gives_function : Gives ReadM.function RawConstant.Valid := by
  refine gives_bind (gives_text _) fun name hname => ?_
  refine gives_bind (gives_any _) fun arity _ => gives_bind (gives_any _) fun variadic _ => ?_
  refine gives_bind (gives_any _) fun locals _ => gives_bind (gives_any _) fun upvalues _ => ?_
  exact gives_bind (gives_any _) fun chunk _ => gives_pure hname

theorem gives_constant : Gives ReadM.constant RawConstant.Valid := by
  refine gives_bind (gives_any _) fun tag _ => ?_
  split
  · exact gives_pure trivial
  · split
    · exact gives_bind (gives_any _) fun _ _ => gives_pure trivial
    · split
      · exact gives_bind (gives_any _) fun _ _ => gives_pure trivial
      · split
        · exact gives_bind (gives_any _) fun _ _ => gives_pure trivial
        · split
          · exact gives_bind (gives_text _) fun _ hs => gives_pure hs
          · split
            · exact gives_function
            · exact gives_throw _

/-! ## Chunks -/

/-- A chunk as it is written. -/
def rawChunk (h : Heap) (order : List ChunkId) (c : Chunk) : RawChunk where
  code := c.code.toList
  constants := c.constants.toList.map (rawConstant h order)
  lines := c.lines.toList

/-- A chunk that a file can hold, as a file has it. -/
structure RawChunk.Valid (r : RawChunk) : Prop where
  lines : r.lines.length = r.code.length
  code : r.code.length < 2 ^ 32
  pool : r.constants.length ≤ Chunk.maxConstants
  constants : ∀ c ∈ r.constants, c.Valid

theorem reads_line (l : Int32) : Reads ReadM.line (word l.toUInt32.toNat) l := by
  have hread := reads_map (reads_word "lines" l.toUInt32.toNat_lt) fun v =>
    (UInt32.ofNat v).toInt32
  rw [UInt32.ofNat_toNat, Int32.toInt32_toUInt32] at hread
  exact hread

/-- Things of a kind that can be written and read back are written and read back together. -/
theorem reads_each {α β : Type} {f : α → Except Error (List UInt8)} {r : ReadM β} {g : α → β} :
    ∀ {as : List α}, (∀ a ∈ as, ∃ bytes, f a = .ok bytes ∧ Reads r bytes (g a)) →
    ∃ parts, as.mapM f = .ok parts ∧ List.Forall₂ (Reads r) parts (as.map g)
  | [], _ => ⟨[], rfl, .nil⟩
  | a :: as, h => by
    obtain ⟨bytes, hbytes, hread⟩ := h a List.mem_cons_self
    obtain ⟨parts, hparts, hreads⟩ := reads_each fun b hb => h b (List.mem_cons_of_mem a hb)
    refine ⟨bytes :: parts, ?_, .cons hread hreads⟩
    rw [List.mapM_cons, hbytes, hparts]
    rfl

/-- What is read of a chunk that has been written: its code is cut or filled up to its lines. -/
def readBack (h : Heap) (order : List ChunkId) (c : Chunk) : RawChunk where
  code := (padded c.code.toList).take c.lines.size
  constants := c.constants.toList.map (rawConstant h order)
  lines := c.lines.toList

theorem reads_readBack {h : Heap} {order : List ChunkId} (ho : order.length < 2 ^ 32) {c : Chunk}
    (hc : c.Measured h) (hv : ∀ v ∈ c.constants.toList, v.Storable h) :
    ∃ bytes, chunkBytes h order c = .ok bytes ∧
      Reads ReadM.chunk bytes (readBack h order c) := by
  have hsize : c.code.toList.length < 2 ^ 32 := by simpa using hc.code
  obtain ⟨parts, hparts, hconstants⟩ := reads_each fun v hmem => reads_constant ho (hv v hmem)
  have hpool : c.constants.toList.length ≤ Chunk.maxConstants := by simpa using hc.pool
  have hpool' : c.constants.toList.length < 2 ^ 32 := Nat.lt_of_le_of_lt hpool (by decide)
  have hlines : c.lines.toList.length < 2 ^ 32 := by simpa using hc.lines
  have hfits : ¬ (padded c.code.toList).length < c.lines.toList.length := by
    rw [length_padded]
    simpa using hc.fits
  have hpooled := reads_repeated hconstants
  rw [List.length_map] at hpooled
  have hlined : Reads (ReadM.repeated ReadM.line c.lines.toList.length)
      (c.lines.toList.flatMap fun l => word l.toUInt32.toNat) c.lines.toList := by
    have heach : List.Forall₂ (Reads ReadM.line)
        (c.lines.toList.map fun l => word l.toUInt32.toNat) c.lines.toList := by
      rw [List.forall₂_map_left_iff, List.forall₂_same]
      exact fun l _ => reads_line l
    have hread := reads_repeated heach
    rwa [← List.flatMap_def] at hread
  refine ⟨codeBytes c.code.toList ++ (word c.constants.toList.length ++ parts.flatten) ++
    linesBytes c.lines.toList, ?_, ?_⟩
  · rw [chunkBytes, constantsBytes, hparts]
    rfl
  -- The parts of a record are read one after the other, from the last to the first here.
  · have hlast : Reads (do
        let lineCount ← ReadM.word "lines"
        if (padded c.code.toList).length < lineCount then
          throw (.lineTableMismatch lineCount (padded c.code.toList).length)
        let lines ← ReadM.repeated ReadM.line lineCount
        pure ({ code := (padded c.code.toList).take lineCount,
                constants := c.constants.toList.map (rawConstant h order), lines } : RawChunk))
        (word c.lines.toList.length ++
          ((c.lines.toList.flatMap fun l => word l.toUInt32.toNat) ++ []))
        (readBack h order c) := by
      refine reads_bind (reads_word "lines" hlines) ?_
      rw [if_neg hfits]
      exact reads_bind hlined (reads_pure _)
    have hall : Reads ReadM.chunk (codeBytes c.code.toList ++ (word c.constants.toList.length ++
        (parts.flatten ++ (word c.lines.toList.length ++
          ((c.lines.toList.flatMap fun l => word l.toUInt32.toNat) ++ [])))))
        (readBack h order c) := by
      refine reads_bind (reads_code hsize) (reads_bind (reads_word "constants" hpool') ?_)
      rw [if_neg (Nat.not_lt.mpr hpool)]
      exact reads_bind hpooled hlast
    simpa [linesBytes] using hall

theorem reads_chunk {h : Heap} {order : List ChunkId} (ho : order.length < 2 ^ 32) {c : Chunk}
    (hc : c.Storable h) : ∃ bytes, chunkBytes h order c = .ok bytes ∧
      Reads ReadM.chunk bytes (rawChunk h order c) := by
  have hcode : (padded c.code.toList).take c.lines.size = c.code.toList := by
    rw [padded, hc.lines, ← Array.length_toList, List.take_left]
  have hsame : readBack h order c = rawChunk h order c := by rw [readBack, hcode, rawChunk]
  rw [← hsame]
  exact reads_readBack ho hc.measured hc.constants

theorem gives_chunk : Gives ReadM.chunk RawChunk.Valid := by
  refine gives_bind (gives_any _) fun code _ => gives_bind (gives_any _) fun constantCount _ => ?_
  split
  · exact gives_bind (P := fun _ => False) (gives_throw _) fun _ h => h.elim
  · rename_i hpool
    refine gives_bind (gives_repeated gives_constant _) fun constants hconstants => ?_
    refine gives_bind (gives_word _) fun lineCount hcount => ?_
    split
    · exact gives_bind (P := fun _ => False) (gives_throw _) fun _ h => h.elim
    · rename_i hfits
      refine gives_bind (gives_repeated (gives_any _) _) fun lines hlines => gives_pure ?_
      have hcut : (code.take lineCount).length = lineCount := by
        rw [List.length_take]
        omega
      refine ⟨?_, ?_, ?_, hconstants.2⟩
      · exact hlines.1.trans hcut.symm
      · exact hcut.symm ▸ hcount
      · exact hconstants.1 ▸ Nat.le_of_not_lt hpool

end ProgramFile

end TaskVm
