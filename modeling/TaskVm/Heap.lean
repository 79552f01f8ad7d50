import TaskVm.Channel
import TaskVm.Chunk
import TaskVm.Dice
import TaskVm.OrderedMap

/-!
# The heap

All objects that values refer to, a table for each kind. Objects are added at the end of
their table and never removed, so a number that was given out keeps naming the same object.
Several machines may work on one heap.
-/

namespace TaskVm

/-- A compiled function. -/
structure Template where
  name : String
  /-- The number of parameters, the collecting one of a variadic function left out. -/
  arity : UInt8 := 0
  /-- Further arguments are collected in an array, which is one more local. -/
  variadic : Bool := false
  /-- The number of local slots, parameters included. -/
  localCount : UInt16 := 0
  /-- The number of captured variables. -/
  upvalueCount : UInt8 := 0
  chunk : ChunkId
deriving DecidableEq, Inhabited

/-- The slots a call reserves: those declared, but at least one for each parameter. -/
def Template.frameSlots (t : Template) : Nat :=
  max (t.arity.toNat + if t.variadic then 1 else 0) t.localCount.toNat

/-- A captured variable: a slot on some task's stack while the frame that owns it is there,
and a value of its own afterwards. -/
inductive Cell where
  | onStack (task : TaskId) (slot : Nat)
  | closed (value : Value)
deriving DecidableEq, Inhabited

/-- A function with the variables it captured. -/
structure Closure where
  template : TemplateId
  upvalues : Array CellId := #[]
deriving DecidableEq, Inhabited

/-- How many arguments a native takes. -/
inductive Arity where
  | fixed (n : Nat)
  | variadic
deriving DecidableEq, Inhabited

/-- The arity in the words of an error message. -/
def Arity.text : Arity → String
  | fixed n => toString n
  | variadic => "any number of"

/-- The functions every machine offers. -/
inductive Builtin where
  | log | len | push | pop | shift | unshift | time | str | join | contains | keys | values
  | has | remove | upper | lower | trim | split | replace | startsWith | endsWith | sort
  | reverse | slice | insert | indexOf | clear | abs | sqrt | round | floor | ceil | sin
  | cos | tan | pow | random | randint | type | parse | stringify
deriving DecidableEq, Inhabited

/-- What a native does when it is called. -/
inductive NativeBody where
  /-- A builtin; what it prints goes to the sink. -/
  | builtin (b : Builtin) (sink : SinkId)
  /-- One of the functions the host has registered. -/
  | host (index : Nat)
deriving DecidableEq, Inhabited

/-- A function that is not made of code. -/
structure Native where
  name : String
  arity : Arity
  body : NativeBody
deriving DecidableEq, Inhabited

/-- The stages of a task's life. -/
inductive TaskStatus where
  /-- In the run queue. -/
  | runnable
  /-- Having its turn. -/
  | running
  /-- Parked on a channel. -/
  | blocked
  /-- Its root frame has returned. -/
  | completed
  /-- Ended by an error nobody caught. -/
  | failed
deriving DecidableEq, Inhabited

namespace TaskStatus

def name : TaskStatus → String
  | runnable => "Runnable"
  | running => "Running"
  | blocked => "Blocked"
  | completed => "Completed"
  | failed => "Failed"

/-- The task will not run any more. -/
def isFinished : TaskStatus → Bool
  | completed | failed => true
  | _ => false

end TaskStatus

/-- What is known of a task from outside. -/
structure TaskHandle where
  id : TaskId
  name : String
  status : TaskStatus := .runnable
deriving DecidableEq, Inhabited

/-- All objects, and the two things outside them that a builtin can look at. -/
structure Heap where
  arrays : Array (Array Value) := #[]
  maps : Array (OrderedMap Value) := #[]
  chunks : Array Chunk := #[]
  templates : Array Template := #[]
  cells : Array Cell := #[]
  closures : Array Closure := #[]
  natives : Array Native := #[]
  channels : Array Channel := #[]
  handles : Array TaskHandle := #[]
  /-- The lines written to each output. -/
  sinks : Array (Array String) := #[]
  /-- What the random builtins draw from. -/
  dice : Dice := {}
  /-- The time of day, in seconds. -/
  clock : Int := 0
deriving Inhabited

namespace Heap

/-! ### Looking up -/

/-- The elements of an array. -/
def array (h : Heap) (id : ArrayId) : Array Value := h.arrays.getD id #[]

def map (h : Heap) (id : MapId) : OrderedMap Value := h.maps.getD id {}

def chunk (h : Heap) (id : ChunkId) : Chunk := h.chunks.getD id {}

def template (h : Heap) (id : TemplateId) : Template := h.templates.getD id default

def cell (h : Heap) (id : CellId) : Cell := h.cells.getD id default

def closure (h : Heap) (id : ClosureId) : Closure := h.closures.getD id default

def native (h : Heap) (id : NativeId) : Native := h.natives.getD id default

def channel (h : Heap) (id : ChannelId) : Channel := h.channels.getD id default

def handle (h : Heap) (id : HandleId) : TaskHandle := h.handles.getD id default

/-- The lines an output has got. -/
def sink (h : Heap) (id : SinkId) : Array String := h.sinks.getD id #[]

/-- The function a closure was made from. -/
def closureTemplate (h : Heap) (id : ClosureId) : Template := h.template (h.closure id).template

/-! ### Making new objects -/

def newArray (h : Heap) (items : Array Value) : ArrayId × Heap :=
  (h.arrays.size, { h with arrays := h.arrays.push items })

def newMap (h : Heap) (m : OrderedMap Value) : MapId × Heap :=
  (h.maps.size, { h with maps := h.maps.push m })

def newChunk (h : Heap) (c : Chunk) : ChunkId × Heap :=
  (h.chunks.size, { h with chunks := h.chunks.push c })

def newTemplate (h : Heap) (t : Template) : TemplateId × Heap :=
  (h.templates.size, { h with templates := h.templates.push t })

def newCell (h : Heap) (c : Cell) : CellId × Heap :=
  (h.cells.size, { h with cells := h.cells.push c })

def newClosure (h : Heap) (c : Closure) : ClosureId × Heap :=
  (h.closures.size, { h with closures := h.closures.push c })

def newNative (h : Heap) (n : Native) : NativeId × Heap :=
  (h.natives.size, { h with natives := h.natives.push n })

def newChannel (h : Heap) (c : Channel) : ChannelId × Heap :=
  (h.channels.size, { h with channels := h.channels.push c })

def newHandle (h : Heap) (t : TaskHandle) : HandleId × Heap :=
  (h.handles.size, { h with handles := h.handles.push t })

def newSink (h : Heap) : SinkId × Heap :=
  (h.sinks.size, { h with sinks := h.sinks.push #[] })

/-- A new array is found by its number. -/
@[simp] theorem array_newArray (h : Heap) (items : Array Value) :
    (h.newArray items).2.array (h.newArray items).1 = items := by
  simp [newArray, array]

@[simp] theorem map_newMap (h : Heap) (m : OrderedMap Value) :
    (h.newMap m).2.map (h.newMap m).1 = m := by
  simp [newMap, map]

@[simp] theorem cell_newCell (h : Heap) (c : Cell) : (h.newCell c).2.cell (h.newCell c).1 = c := by
  simp [newCell, cell]

@[simp] theorem channel_newChannel (h : Heap) (c : Channel) :
    (h.newChannel c).2.channel (h.newChannel c).1 = c := by
  simp [newChannel, channel]

/-! ### Changing objects -/

def setArray (h : Heap) (id : ArrayId) (items : Array Value) : Heap :=
  { h with arrays := h.arrays.setIfInBounds id items }

def setMap (h : Heap) (id : MapId) (m : OrderedMap Value) : Heap :=
  { h with maps := h.maps.setIfInBounds id m }

def setCell (h : Heap) (id : CellId) (c : Cell) : Heap :=
  { h with cells := h.cells.setIfInBounds id c }

def setChannel (h : Heap) (id : ChannelId) (c : Channel) : Heap :=
  { h with channels := h.channels.setIfInBounds id c }

/-- Move a task to another stage of its life. -/
def setStatus (h : Heap) (id : HandleId) (status : TaskStatus) : Heap :=
  { h with handles := h.handles.modify id fun t => { t with status } }

/-- Remember in a chunk where a machine found the global of a name constant. -/
def rememberSlot (h : Heap) (id : ChunkId) (constant : Nat) (vm : VmId) (slot : Nat) : Heap :=
  { h with chunks := h.chunks.modify id fun c =>
      { c with slotCache := c.slotCache.insert constant vm slot } }

/-- Write a line of output. -/
def writeLine (h : Heap) (id : SinkId) (line : String) : Heap :=
  { h with sinks := h.sinks.modify id (·.push line) }

/-- Forget the lines of an output. -/
def clearSink (h : Heap) (id : SinkId) : Heap :=
  { h with sinks := h.sinks.setIfInBounds id #[] }

/-- The number of collections, which bounds how deeply they can be nested in each other
before one is nested in itself. -/
def collections (h : Heap) : Nat := h.arrays.size + h.maps.size

/-- The deepest chain of bound methods among the values that comparing and printing reach:
the elements of collections and the constants of chunks. -/
def deepest (h : Heap) : Nat :=
  let inArrays := h.arrays.foldl (fun d a => a.foldl (fun d v => max d v.depth) d) 0
  let inMaps := h.maps.foldl (fun d m => m.entries.foldl (fun d e => max d e.2.depth) d) inArrays
  h.chunks.foldl (fun d c => c.constants.foldl (fun d v => max d v.depth) d) inMaps

end Heap

end TaskVm
