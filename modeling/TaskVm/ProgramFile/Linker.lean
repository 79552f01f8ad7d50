import TaskVm.ProgramFile.Reader

/-!
# Linking

Raw chunks name each other by number. Linking makes them objects, beginning with the main
chunk and following its functions, each chunk once: functions with the same number get the
same chunk. A chunk that would have to be there before itself is an error, and so is a number
that is too large; what the main chunk does not reach does not matter.
-/

namespace TaskVm.ProgramFile

/-- The objects made so far: the heap, and the chunk of each number. -/
structure Linked where
  heap : Heap
  built : List (Nat × ChunkId) := []

/-- Computations that make objects. -/
abbrev LinkM := StateT Linked (Except Error)

/-- The chunk of a number, if it has been made. -/
def Linked.chunk? (s : Linked) (index : Nat) : Option ChunkId :=
  (s.built.find? fun b => b.1 == index).map (·.2)

/-- Make the constants of a chunk, given how to make the chunk of a function. -/
def linkConstants (build : Nat → LinkM ChunkId) : List RawConstant → LinkM (List Value)
  | [] => pure []
  | .value v :: rest => do
    let vs ← linkConstants build rest
    pure (v :: vs)
  | .function t index :: rest => do
    let chunk ← build index
    let (template, heap) := (← get).heap.newTemplate { t with chunk }
    modify fun s => { s with heap }
    let vs ← linkConstants build rest
    pure (.function template :: vs)

/-- Make the chunk of a number, while the chunks of some other numbers are being made. -/
def linkChunk (raw : Array RawChunk) : (depth : Nat) → (pending : List Nat) → Nat → LinkM ChunkId
  | 0, _, index => throw (.cyclicChunk index)
  | depth + 1, pending, index => do
    match raw[index]? with
    | none => throw (.badChunkIndex index raw.size)
    | some r =>
      match (← get).chunk? index with
      | some id => pure id
      | none =>
        if pending.contains index then throw (.cyclicChunk index)
        else
          -- Constants come first, and with them the chunks of the functions among them.
          let constants ← linkConstants (linkChunk raw depth (index :: pending)) r.constants
          let (id, heap) := (← get).heap.newChunk
            { code := r.code.toArray, constants := constants.toArray, lines := r.lines.toArray }
          modify fun s => { heap, built := (index, id) :: s.built }
          pure id

/-- Make a program. No chunk is pending twice, so the chain of pending chunks is never
longer than there are chunks. -/
def link (h : Heap) (raw : List RawChunk) (main : Nat) : Except Error (ChunkId × Heap) :=
  ((linkChunk raw.toArray (raw.length + 1) [] main).run { heap := h }).map fun r =>
    (r.1, r.2.heap)

/-- The program of a file. -/
def read (h : Heap) (bytes : List UInt8) : Except Error (ChunkId × Heap) := do
  let (raw, main) ← readRaw bytes
  link h raw main

end TaskVm.ProgramFile
