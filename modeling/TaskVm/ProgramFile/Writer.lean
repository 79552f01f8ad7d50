import TaskVm.ProgramFile

/-!
# Writing program files

The chunks of a program are numbered in the order in which a walk through the constants of
its functions comes upon them, the main chunk first.
-/

namespace TaskVm.ProgramFile

/-- The lowest `n` bytes of a number, least significant first. -/
def littleEndian : Nat → Nat → List UInt8
  | 0, _ => []
  | n + 1, v => UInt8.ofNat (v % 256) :: littleEndian n (v / 256)

/-- A word. -/
def word (v : Nat) : List UInt8 := littleEndian 4 v

/-- A text, its length in bytes before it. -/
def textBytes (s : String) : List UInt8 := word s.utf8ByteSize ++ s.toUTF8.toList

/-- A truth value. -/
def boolByte (b : Bool) : UInt8 := if b then 1 else 0

/-! ### Discovery -/

/-- The chunks that the functions among a chunk's constants run. -/
def innerChunks (h : Heap) (id : ChunkId) : List ChunkId :=
  (h.chunk id).constants.toList.filterMap fun
    | .function t => some (h.template t).chunk
    | _ => none

/-- Walk through the chunks that are still to be looked at, and add those not yet found. -/
def discoverFrom (h : Heap) : (fuel : Nat) → (found todo : List ChunkId) → List ChunkId
  | 0, found, _ => found
  | _ + 1, found, [] => found
  | fuel + 1, found, id :: rest =>
    if found.contains id then discoverFrom h fuel found rest
    else discoverFrom h fuel (found ++ [id]) (innerChunks h id ++ rest)

/-- The chunks of a program. Each is looked into once, so a walk has no more steps than there
are constants, and the first one. -/
def discover (h : Heap) (main : ChunkId) : List ChunkId :=
  discoverFrom h (h.chunks.foldl (fun n c => n + c.constants.size) 0 + 2) [] [main]

/-! ### Bytes -/

/-- The code in words, the last one filled up with zeros. -/
def codeBytes (code : List UInt8) : List UInt8 :=
  let words := (code.length + 3) / 4
  word words ++ code ++ List.replicate (4 * words - code.length) 0

/-- A function, its chunk given by its number. -/
def functionBytes (t : Template) (chunk : Nat) : List UInt8 :=
  textBytes t.name ++ [t.arity, boolByte t.variadic] ++ littleEndian 2 t.localCount.toNat ++
    [t.upvalueCount] ++ word chunk

/-- A constant with its tag. -/
def constantBytes (h : Heap) (order : List ChunkId) : Value → Except Error (List UInt8)
  | .nil => .ok [tagNil]
  | .bool b => .ok [tagBool, boolByte b]
  | .number n => .ok (tagFloat :: littleEndian 8 n.bits.toNat)
  | .string s => .ok (tagString :: textBytes s)
  | .function i =>
    let t := h.template i
    .ok (tagFunction :: functionBytes t ((order.idxOf? t.chunk).getD 0))
  | other => .error (.unsupportedConstant other.typeName)

/-- The constants, their number before them. -/
def constantsBytes (h : Heap) (order : List ChunkId) (constants : List Value) :
    Except Error (List UInt8) := do
  let parts ← constants.mapM (constantBytes h order)
  .ok (word constants.length ++ parts.flatten)

/-- The lines, their number before them. -/
def linesBytes (lines : List Int32) : List UInt8 :=
  word lines.length ++ lines.flatMap fun l => word l.toUInt32.toNat

/-- A chunk. -/
def chunkBytes (h : Heap) (order : List ChunkId) (c : Chunk) : Except Error (List UInt8) := do
  let constants ← constantsBytes h order c.constants.toList
  .ok (codeBytes c.code.toList ++ constants ++ linesBytes c.lines.toList)

/-- The header of a file whose main chunk comes first. -/
def headerBytes (count : Nat) : List UInt8 :=
  word magic.toNat ++ word version.toNat ++ word count ++ word 0

/-- The file of a program. -/
def write (h : Heap) (main : ChunkId) : Except Error (List UInt8) := do
  -- The place of a chunk in this order is the number that functions name it by.
  let order := discover h main
  let parts ← order.mapM fun id => chunkBytes h order (h.chunk id)
  .ok (headerBytes order.length ++ parts.flatten)

end TaskVm.ProgramFile
