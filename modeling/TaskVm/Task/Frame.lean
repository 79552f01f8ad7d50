import TaskVm.Heap

/-!
# Call frames

A frame is one activation of a closure: the code it runs, the next instruction, and where
its locals begin on the stack of its task.

Operands are read byte by byte, and the instruction pointer moves with each byte, so that
an error in the middle of an instruction tells how far the reading had come.
-/

namespace TaskVm

/-- One activation of a closure. -/
structure Frame where
  closure : ClosureId
  chunk : ChunkId
  /-- The offset of the next byte to be read. -/
  ip : Nat := 0
  /-- The stack slot of local 0. -/
  stackBase : Nat
  /-- The number of local slots reserved on entry. -/
  localCount : Nat
  /-- How many iterations were active on entry. -/
  iterBase : Nat
  /-- Which activation of its task this is, counted from the first. The machine never looks
  at it. -/
  activation : Nat := 0
deriving DecidableEq, Inhabited

namespace Frame

/-- The frame of a new activation. -/
def enter (h : Heap) (closure : ClosureId) (stackBase iterBase : Nat) : Frame :=
  let t := h.closureTemplate closure
  { closure, chunk := t.chunk, stackBase, localCount := t.frameSlots, iterBase }

/-- The stack slot behind the last local. -/
def top (f : Frame) : Nat := f.stackBase + f.localCount

/-- The name of the function. -/
def functionName (h : Heap) (f : Frame) : String := (h.closureTemplate f.closure).name

/-- The code being run. -/
def code (h : Heap) (f : Frame) : Code := (h.chunk f.chunk).code

/-- The source line of an offset. -/
def lineAt (h : Heap) (f : Frame) (offset : Nat) : Int32 := (h.chunk f.chunk).lineAt offset

/-- Read a byte. -/
def readByte (h : Heap) (f : Frame) : Except RuntimeError (UInt8 × Frame) :=
  match (f.code h)[f.ip]? with
  | some b => .ok (b, { f with ip := f.ip + 1 })
  | none => .error (.invalidBytecode f.ip "operand runs past end of code")

/-- Where a jump by an offset lands: within the code or right behind it. -/
def jumpTarget? (h : Heap) (f : Frame) (offset : Int) : Option Nat :=
  let target : Int := f.ip + offset
  if target < 0 ∨ (f.code h).size < target then none else some target.toNat

/-- Jump by an offset, counted from the next byte. -/
def jump (h : Heap) (f : Frame) (offset : Int) : Except RuntimeError Frame :=
  match f.jumpTarget? h offset with
  | some ip => .ok { f with ip }
  | none => .error (.invalidBytecode f.ip "jump target outside chunk")

/-- The constant of a number. -/
def constant (h : Heap) (f : Frame) (index : Nat) : Except RuntimeError Value :=
  match (h.chunk f.chunk).constants[index]? with
  | some v => .ok v
  | none => .error (.invalidBytecode f.ip "constant index out of range")

end Frame

/-- A place to go on after a throw. -/
structure Handler where
  /-- The offset of the handler's code in the frame that registered it. -/
  target : Nat
  stackDepth : Nat
  /-- The number of frames when the handler was registered. -/
  frameDepth : Nat
  iterDepth : Nat
  /-- The activation that registered the handler. -/
  activation : Nat
  /-- Which handler of its task this is, counted from the first. The machine never looks at
  it. -/
  registration : Nat
deriving DecidableEq, Inhabited

/-- An iteration under way: the elements of the snapshot that are still to come. -/
structure Iteration where
  rest : List Value
deriving DecidableEq, Inhabited

namespace Iteration

/-- The next element, if there is one. -/
def next (i : Iteration) : Option Value × Iteration :=
  match i.rest with
  | [] => (none, i)
  | v :: vs => (some v, ⟨vs⟩)

end Iteration

end TaskVm
