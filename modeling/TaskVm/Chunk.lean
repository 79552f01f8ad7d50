import TaskVm.Code.Layout
import TaskVm.Value

/-!
# Chunks

A chunk is what the machine executes: code, a pool of constants that the code names by
number, and a source line for every byte. Chunks are made by emitting instructions one
after the other; jumps are emitted with a hole that is filled once the target is known.

A chunk also carries a memory of where the globals it names were found. It is tagged with
the machine that looked, so several machines can share a chunk, and nothing but the speed
of a look-up depends on it.
-/

namespace TaskVm

/-- The number of a machine, unique in its process. -/
abbrev VmId := Nat

/-- For each name constant, the machine that last resolved it and the place it found. -/
structure SlotCache where
  slots : Array (Option (VmId × Nat)) := #[]
deriving DecidableEq, Inhabited

namespace SlotCache

/-- The place a machine remembers for a constant; other machines' entries do not count. -/
def get? (cache : SlotCache) (constant : Nat) (vm : VmId) : Option Nat :=
  match cache.slots[constant]? with
  | some (some (owner, slot)) => if owner = vm then some slot else none
  | _ => none

/-- Remember the place a machine found for a constant. -/
def insert (cache : SlotCache) (constant : Nat) (vm : VmId) (slot : Nat) : SlotCache :=
  let grown := cache.slots ++ Array.replicate (constant + 1 - cache.slots.size) none
  ⟨grown.setIfInBounds constant (some (vm, slot))⟩

/-- A machine finds what it has remembered. -/
@[simp] theorem get?_insert (cache : SlotCache) (constant : Nat) (vm : VmId) (slot : Nat) :
    (cache.insert constant vm slot).get? constant vm = some slot := by
  have room : constant < cache.slots.size + (constant + 1 - cache.slots.size) := by omega
  simp [insert, get?, room]

end SlotCache

/-- Code with its constants and its lines. -/
structure Chunk where
  code : Code := #[]
  constants : Array Value := #[]
  lines : Array Int32 := #[]
  slotCache : SlotCache := {}
deriving DecidableEq, Inhabited

namespace Chunk

/-- The number of constants an operand can tell apart. -/
def maxConstants : Nat := 65536

/-- The source line of the byte at an offset, 0 when the table does not reach that far. -/
def lineAt (c : Chunk) (offset : Nat) : Int32 := c.lines.getD offset 0

/-- The line of the last byte, which operands take over. -/
def lastLine (c : Chunk) : Int32 := c.lines.back?.getD 0

/-! ### Building -/

/-- Append an opcode with its source line. -/
def emit (c : Chunk) (op : Opcode) (line : Int32) : Chunk :=
  { c with code := c.code.push op.byte, lines := c.lines.push line }

/-- Append an operand of one byte. -/
def emitByte (c : Chunk) (b : UInt8) : Chunk :=
  { c with code := c.code.push b, lines := c.lines.push c.lastLine }

/-- Append an operand of two bytes. -/
def emitWord (c : Chunk) (w : UInt16) : Chunk :=
  (c.emitByte (UInt8.ofNat (w.toNat / 256))).emitByte (UInt8.ofNat (w.toNat % 256))

/-- Append a signed operand. -/
def emitOffset (c : Chunk) (i : Int16) : Chunk := c.emitWord i.toUInt16

/-- Append a constant to the pool and return its number; a full pool takes none. -/
def addConstant? (c : Chunk) (v : Value) : Option (Nat × Chunk) :=
  if c.constants.size < maxConstants then
    some (c.constants.size, { c with constants := c.constants.push v })
  else none

/-- Append a constant and the instruction that pushes it. -/
def emitConstant? (c : Chunk) (v : Value) (line : Int32) : Option (Nat × Chunk) :=
  (c.addConstant? v).map fun (index, c) =>
    (index, (c.emit .constant line).emitWord (UInt16.ofNat index))

/-- Append a jump whose target is not known yet, and return where its operand is. -/
def emitJump (c : Chunk) (op : Opcode) (line : Int32) : Nat × Chunk :=
  let c := c.emit op line
  (c.code.size, c.emitOffset 0)

/-- Let the jump with this operand land at the current end of the code. The distance is
kept to 16 bits. There must be an operand to fill. -/
def patchJump? (c : Chunk) (operand : Nat) : Option Chunk :=
  if operand + 2 ≤ c.code.size then
    let w := UInt16.ofNat (c.code.size - operand - 2)
    let code := c.code.setIfInBounds operand (UInt8.ofNat (w.toNat / 256))
    some { c with code := code.setIfInBounds (operand + 1) (UInt8.ofNat (w.toNat % 256)) }
  else none

/-- Append a jump to an offset, counted from behind the jump. The distance is kept to 16
bits. -/
def emitLoop (c : Chunk) (start : Nat) (line : Int32) : Chunk :=
  let c := c.emit .loop line
  c.emitOffset (Int16.ofInt (start - (c.code.size + 2 : Nat)))

end Chunk

end TaskVm
