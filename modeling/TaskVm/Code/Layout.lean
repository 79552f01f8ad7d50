import TaskVm.Code.Opcode

/-!
# The layout of code

Where one instruction ends and the next begins. `instructionLength?` reads only the bytes
that decide the length, and `items` cuts any byte string into whole instructions and single
bytes that begin none, without looking past its end.
-/

namespace TaskVm

/-- Code is a string of bytes. -/
abbrev Code := Array UInt8

/-- How many operand bytes always follow an opcode. Two instructions have a counted tail
after them. -/
def Opcode.operandSize : Opcode → Nat
  | constant | getLocal | setLocal | defineGlobal | getGlobal | setGlobal
  | newArray | buildList | newMap | buildMap | catchInto | isType => 2
  | jump | jumpIfFalse | loop | tryBegin => 2
  | loadFast | storeFast | getUpvalue | setUpvalue | call | spawn | unpack => 1
  | makeClosure => 3
  | select => 2
  | _ => 0

namespace Code

/-- The number of bytes in the counted tail of the instruction at an offset. -/
def tailLength? (code : Code) (offset : Nat) : Opcode → Option Nat
  | .makeClosure => code[offset + 3]?.map fun n => 2 * n.toNat
  | .select => code[offset + 1]?.map UInt8.toNat
  | _ => some 0

/-- The length of the instruction at an offset. There is none where the byte is not an
opcode and where the instruction would go past the end. -/
def instructionLength? (code : Code) (offset : Nat) : Option Nat :=
  match code[offset]?.bind Opcode.ofByte? with
  | none => none
  | some op =>
    match code.tailLength? offset op with
    | none => none
    | some tail =>
      let length := 1 + op.operandSize + tail
      if offset + length ≤ code.size then some length else none

/-- An instruction has at least one byte and lies within its code. -/
theorem instructionLength?_bounds {code : Code} {offset length : Nat}
    (h : code.instructionLength? offset = some length) :
    0 < length ∧ offset + length ≤ code.size := by
  unfold instructionLength? at h
  split at h
  · simp at h
  · split at h
    · simp at h
    · dsimp only at h
      split at h
      · simp only [Option.some.injEq] at h
        omega
      · simp at h

/-- A piece of a byte string. -/
inductive Item where
  /-- A whole instruction. -/
  | instruction (offset length : Nat)
  /-- A byte that begins no instruction. -/
  | invalid (offset : Nat)
deriving DecidableEq

/-- The pieces from an offset on, at most `fuel` of them. -/
def itemsFrom (code : Code) (offset : Nat) : Nat → List Item
  | 0 => []
  | fuel + 1 =>
    if offset < code.size then
      match code.instructionLength? offset with
      | some length => .instruction offset length :: code.itemsFrom (offset + length) fuel
      | none => .invalid offset :: code.itemsFrom (offset + 1) fuel
    else []

/-- The pieces of a byte string. Each has at least one byte, so there are no more pieces
than bytes. -/
def items (code : Code) : List Item := code.itemsFrom 0 code.size

/-- The opcode at an offset. -/
def opcode? (code : Code) (offset : Nat) : Option Opcode := code[offset]?.bind Opcode.ofByte?

/-- The byte at an offset, zero past the end. -/
def byteAt (code : Code) (offset : Nat) : UInt8 := code.getD offset 0

/-- The two bytes at an offset as an unsigned number. -/
def wordAt (code : Code) (offset : Nat) : UInt16 :=
  UInt16.ofNat ((code.byteAt offset).toNat * 256 + (code.byteAt (offset + 1)).toNat)

/-- The local slot that the instruction at an offset names, if it names one. -/
def localSlot? (code : Code) (offset : Nat) : Option Nat :=
  match code.opcode? offset with
  | some .getLocal | some .setLocal | some .catchInto => some (code.wordAt (offset + 1)).toNat
  | some .loadFast | some .storeFast => some (code.byteAt (offset + 1)).toNat
  | _ => none

/-- The slots a piece of code needs to hold the local that it names. -/
def slotsNeeded (code : Code) : Item → Nat
  | .instruction offset _ =>
    match code.localSlot? offset with
    | some slot => slot + 1
    | none => 0
  | .invalid _ => 0

/-- The instructions in front of the first byte that begins none. -/
def leadingInstructions (code : Code) : List Item :=
  code.items.takeWhile fun
    | .instruction _ _ => true
    | .invalid _ => false

/-- How many local slots the code names, as far as it can be read in a straight line. -/
def localSlots (code : Code) : Nat :=
  (code.leadingInstructions.map code.slotsNeeded).foldl max 0

end Code

end TaskVm
