import TaskVm.ProgramFile

/-!
# Reading program files

Bytes to raw chunks. Every reader takes what it needs from the front of the bytes, and a
file that ends too early is reported together with the part in which it does.
-/

namespace TaskVm.ProgramFile

/-- Readers: what is left of the file is their state. -/
abbrev ReadM := StateT (List UInt8) (Except Error)

namespace ReadM

/-- Take some bytes. -/
def take (part : String) (n : Nat) : ReadM (List UInt8) := fun bytes =>
  let front := bytes.take n
  if front.length = n then .ok (front, bytes.drop n) else .error (.truncated part)

/-- The number that some bytes spell, least significant first. -/
def ofLittleEndian : List UInt8 → Nat
  | [] => 0
  | b :: bs => b.toNat + 256 * ofLittleEndian bs

/-- A number of some bytes. -/
def number (part : String) (n : Nat) : ReadM Nat := do pure (ofLittleEndian (← take part n))

/-- A byte. -/
def byte (part : String) : ReadM UInt8 := do pure (UInt8.ofNat (← number part 1))

/-- A word. -/
def word (part : String) : ReadM Nat := number part 4

/-- A text, its length in bytes before it. -/
def text (part : String) : ReadM String := do
  let bytes ← take part (← word part)
  match String.fromUTF8? ⟨bytes.toArray⟩ with
  | some s => pure s
  | none => throw .invalidText

/-- Read the same kind of thing a number of times. -/
def repeated {α : Type} (read : ReadM α) : Nat → ReadM (List α)
  | 0 => pure []
  | n + 1 => do
    let a ← read
    let as ← repeated read n
    pure (a :: as)

/-- Code, in words of four bytes. -/
def code : ReadM (List UInt8) := do
  let words ← repeated (take "code" 4) (← word "code")
  pure words.flatten

/-- A function, its chunk given by its number. -/
def function : ReadM RawConstant := do
  let part := "constants"
  let name ← text part
  let arity ← byte part
  let variadic ← byte part
  let localCount ← number part 2
  let upvalueCount ← byte part
  let chunk ← word part
  pure (.function
    { name, arity, variadic := variadic != 0, localCount := UInt16.ofNat localCount,
      upvalueCount, chunk := 0 } chunk)

/-- A number between -2^63 and 2^63 as eight bytes have it. -/
def signed (n : Nat) : Int :=
  if n < 0x8000000000000000 then n else (n : Int) - 0x10000000000000000

/-- A constant with its tag. -/
def constant : ReadM RawConstant := do
  let part := "constants"
  let tag ← byte part
  if tag = tagNil then pure (.value .nil)
  else if tag = tagBool then pure (.value (.bool ((← byte part) != 0)))
  else if tag = tagInteger then pure (.value (.ofInt (signed (← number part 8))))
  else if tag = tagFloat then pure (.value (.number ⟨UInt64.ofNat (← number part 8)⟩))
  else if tag = tagString then pure (.value (.string (← text part)))
  else if tag = tagFunction then function
  else throw (.unknownConstantTag tag)

/-- The line of a byte of code. -/
def line : ReadM Int32 := do pure (UInt32.ofNat (← word "lines")).toInt32

/-- A chunk. The code ends where its lines do. -/
def chunk : ReadM RawChunk := do
  let code ← code
  let constantCount ← word "constants"
  if Chunk.maxConstants < constantCount then throw (.tooManyConstants constantCount)
  let constants ← repeated constant constantCount
  -- Only the lines tell how much of the last word of code is filled up.
  let lineCount ← word "lines"
  if code.length < lineCount then throw (.lineTableMismatch lineCount code.length)
  let lines ← repeated line lineCount
  pure { code := code.take lineCount, constants, lines }

/-- The header: how many chunks there are, and which of them is the main one. -/
def header : ReadM (Nat × Nat) := do
  if (← word "header") != magic.toNat then throw .badMagic
  let found ← word "header"
  if version.toNat < found then throw (.unsupportedVersion (UInt32.ofNat found))
  let count ← word "header"
  let main ← word "header"
  if count ≤ main then throw (.badChunkIndex main count)
  pure (count, main)

/-- A file: its chunks, and the number of the main one. What follows the last chunk is
ignored. -/
def file : ReadM (List RawChunk × Nat) := do
  let (count, main) ← header
  let chunks ← repeated chunk count
  pure (chunks, main)

end ReadM

/-- The chunks of a file, and the number of the main one. -/
def readRaw (bytes : List UInt8) : Except Error (List RawChunk × Nat) :=
  (ReadM.file.run bytes).map (·.1)

end TaskVm.ProgramFile
