import TaskVm.Machine.Calls
import TaskVm.Machine.Channels

/-!
# Instructions

What each opcode does. An instruction reads its operands first and then works on the stack
from the top down, so what an erroneous one leaves behind is fixed.
-/

namespace TaskVm.Exec

/-- Pop two operands and push what an operation makes of them, the lower one first. -/
def binary (op : Heap → Value → Value → Except RuntimeError Value) : Exec Unit := do
  let b ← pop
  let a ← pop
  push (← ofExcept (op (← get).heap a b))

/-- Pop two operands and push whether they are equal, or whether they differ. -/
def equality (wanted : Bool) : Exec Unit := do
  let b ← pop
  let a ← pop
  match (← get).heap.equal? a b with
  | some same => push (.bool (same == wanted))
  | none => throw .endless

/-- Pop two operands and push whether their order passes a test. Operands without an order
pass none. -/
def ordering (test : Ordering → Bool) : Exec Unit := do
  let b ← pop
  let a ← pop
  let order ← ofExcept (a.compare b)
  push (.bool (order.any test))

/-- The number of a map. -/
def mapOf : Value → Except RuntimeError MapId
  | .map m => .ok m
  | other => .error (.typeError ("expected a map, got " ++ other.typeName))

/-- The number of a channel. A number that no channel has is not a channel. -/
def channelOf (h : Heap) (v : Value) : Except RuntimeError ChannelId :=
  let error := RuntimeError.typeError ("expected a channel, got " ++ v.typeName)
  match v with
  | .channel c => if c < h.channels.size then .ok c else .error error
  | _ => .error error

/-- Pop a channel. -/
def popChannel : Exec ChannelId := do
  let v ← pop
  ofExcept (channelOf (← get).heap v)

/-- Pop a value and return the key it stands for in a map. -/
def popKey : Exec String := do
  let v ← pop
  pure ((← get).heap.mapKey v)

/-- The value a map has under a key. -/
def keyed (m : OrderedMap Value) (key : String) : Except RuntimeError Value :=
  match m.get? key with
  | some v => .ok v
  | none => .error (.keyNotFound key)

/-- Replace a map. -/
def setMap (id : MapId) (m : OrderedMap Value) : Exec Unit :=
  modify fun s => { s with heap := s.heap.setMap id m }

/-- Push a new array. -/
def pushArray (items : List Value) : Exec Unit := do
  push (.array (← create (·.newArray items.toArray)))

/-- Keys and values that alternate, as the entries of a map. -/
def entriesOf (h : Heap) : List Value → List (String × Value)
  | k :: v :: rest => (h.mapKey k, v) :: entriesOf h rest
  | _ => []

/-- Pop keys and values and push a new map of them. -/
def pushMap (pairs : Nat) : Exec Unit := do
  let flat ← popMany (pairs * 2)
  let entries := entriesOf (← get).heap flat
  push (.map (← create (·.newMap (.ofList entries))))

/-- Push the first elements of a list, nil for those that are missing. -/
def pushFirst : Nat → List Value → Exec Unit
  | 0, _ => pure ()
  | n + 1, vs => do
    push (vs.headD .nil)
    pushFirst n vs.tail

/-- The place of a global in the table, remembered in the chunk that names it. -/
def globalSlot (constant : Nat) : Exec Nat := do
  let s ← get
  let f ← frame
  let chunk := s.heap.chunk f.chunk
  -- Places are never given up, so what is remembered stays right for this machine.
  match chunk.slotCache.get? constant s.vm.id with
  | some slot => pure slot
  | none =>
    match chunk.constants[constant]? with
    | some (.string name) =>
      match s.vm.globals.place? name with
      | some slot =>
        modify fun s => { s with heap := s.heap.rememberSlot f.chunk constant s.vm.id slot }
        pure slot
      | none => raise (.undefinedVariable name)
    | _ => invalid "name operand is not a string constant"

/-- Bind a global. -/
def setGlobal (name : String) (v : Value) : Exec Unit :=
  modify fun s => { s with vm := s.vm.setGlobal name v }

/-- Write a line of output. -/
def writeLine (line : String) : Exec Unit :=
  modify fun s => { s with heap := s.heap.writeLine s.vm.sink line }

/-- Put on record that the innermost iteration is moved on or ended, and how many remain. -/
def touchIteration (left : Nat) : Exec Unit := do
  let t := (← get).task
  touch (.iteration t.iterBase t.iterations.length left)

/-- The element an iteration comes to next, and nothing when there is none. -/
def nextItem : Exec (Option Value) := do
  match (← get).task.iterations with
  | i :: rest =>
    let (item, i) := i.next
    touchIteration (rest.length + 1)
    modifyTask fun t => { t with iterations := i :: rest }
    pure item
  | [] => invalid "no active iterator"

/-- End the innermost iteration. -/
def endIteration : Exec Unit := do
  match (← get).task.iterations with
  | _ :: rest =>
    touchIteration rest.length
    modifyTask fun t => { t with iterations := rest }
  | [] => invalid "no active iterator"

/-- Register a handler at an offset from the next instruction. -/
def tryBegin : Exec Unit := do
  let offset ← readOffset
  let s ← get
  let f ← frame
  match f.jumpTarget? s.heap offset with
  | none => invalid "handler target outside chunk"
  | some target => modifyTask (·.protect f target)

/-- Drop the innermost handler if it belongs to the innermost frame. -/
def tryEnd : Exec Unit := modifyTask fun t =>
  match t.handlers with
  | handler :: rest =>
    if handler.frameDepth = t.frames.length then { t with handlers := rest } else t
  | [] => t

/-- Drop the innermost handler, whoever registered it. -/
def dropHandler : Exec Unit := do
  let t := (← get).task
  match t.handlers with
  | handler :: rest =>
    touch (.handler t.activation handler.activation)
    modifyTask fun t => { t with handlers := rest }
  | [] => pure ()

/-- The capacity a value stands for, held below 2^64. -/
def capacityOf (h : Heap) (v : Value) : Except RuntimeError Nat :=
  let error := RuntimeError.typeError
    ("channel capacity must be a non-negative integer, got " ++ h.display v)
  match v with
  | .number n =>
    if n.isIntegral && (!n.isNegative || n.isZero) then .ok n.toWord else .error error
  | _ => .error error

/-- Pop the cases of a select, whose kinds are given last case first. -/
def popCases : List Nat → Exec (List SelectCase)
  | [] => pure []
  | kind :: kinds => do
    let case ← if kind = 1 then do
        let v ← pop
        pure (SelectCase.send (← popChannel) v)
      else pure (SelectCase.receive (← popChannel))
    let before ← popCases kinds
    pure (before ++ [case])

/-- Read as many bytes. -/
def readBytes : Nat → Exec (List Nat)
  | 0 => pure []
  | n + 1 => do
    let b ← readByte
    let bs ← readBytes n
    pure (b :: bs)

/-- Read and pop what a select works on: its cases, and whether there is a default. -/
def selectOperands : Exec (List SelectCase × Bool) := do
  let count ← readByte
  let flags ← readByte
  let kinds ← readBytes count
  let cases ← popCases kinds.reverse
  pure (cases, flags % 2 == 1)

/-- Give up the innermost frame, and close what was captured from it. -/
def dropFrame (f : Frame) (callers : List Frame) : Exec Unit := modify fun s =>
  -- Captured variables move to the heap while their values are still on the stack.
  let (openUpvalues, heap) := s.task.openUpvalues.closeFrom s.heap f.stackBase s.task.stack
  let task := s.task.truncateIterations f.iterBase
  { s with
    heap
    acts := s.acts ++ [.left s.task.id [f]]
    task := { task with
      frames := callers
      handlers := task.handlers.dropWhile fun hd => callers.length < hd.frameDepth
      openUpvalues
      stack := task.stack.take f.stackBase } }

/-- Return a value from the innermost frame. The result is there when the task has ended. -/
def leaveFrame (result : Value) : Exec Flow := do
  match (← get).task.frames with
  | [] => pure .next
  | f :: callers =>
    let s ← get
    emit (.returned s.task.id (f.functionName s.heap) result)
    dropFrame f callers
    if callers.isEmpty then pure (.done result)
    else
      push result
      pure .next

/-- Execute an opcode whose byte has been read. -/
def execute (op : Opcode) : Exec Flow := do
  match op with
  | .constant => push (← constant (← readWord))
  | .pushNil => push .nil
  | .pushTrue => push (.bool true)
  | .pushFalse => push (.bool false)
  | .pop => let _ ← pop
  | .dup => push (← peek)
  | .print =>
    let v ← pop
    writeLine ((← get).heap.display v)
  | .getLocal => pushLocal (← readWord)
  | .loadFast => pushLocal (← readByte)
  | .setLocal =>
    let index ← localIndex (← readWord)
    setSlot index (← peek)
  | .storeFast =>
    let slot ← readByte
    let v ← pop
    setSlot (← localIndex slot) v
  | .defineGlobal =>
    let name ← readName
    setGlobal name (← pop)
  | .getGlobal =>
    let slot ← globalSlot (← readWord)
    push (((← get).vm.globals.at? slot).getD .nil)
  | .setGlobal =>
    let name ← readName
    setGlobal name (← peek)
  | .getUpvalue => push (← readCell (← readUpvalue))
  | .setUpvalue =>
    -- The value stays on the stack, as that of an assignment to a local does.
    let cell ← readUpvalue
    writeCell cell (← peek)
  | .add => binary Heap.add
  | .sub => binary fun _ => Value.sub
  | .mul => binary fun _ => Value.mul
  | .div => binary fun _ => Value.div
  | .mod => binary fun _ => Value.rem
  | .negate => push (← ofExcept (← pop).neg)
  | .equal => equality true
  | .notEqual => equality false
  | .greater => ordering (· == .gt)
  | .less => ordering (· == .lt)
  | .greaterEqual => ordering (· != .lt)
  | .lessEqual => ordering (· != .gt)
  | .not => push (.bool !(← pop).isTruthy)
  | .and =>
    let b ← pop
    let a ← pop
    push (if a.isTruthy then b else a)
  | .or =>
    let b ← pop
    let a ← pop
    push (if a.isTruthy then a else b)
  | .jump | .loop => jump (← readOffset)
  | .jumpIfFalse =>
    let offset ← readOffset
    if !(← pop).isTruthy then jump offset
  | .call =>
    let argc ← readByte
    callValue (← pop) argc
  | .makeClosure => makeClosure
  | .ret => return ← leaveFrame (← pop)
  | .newArray | .buildList => pushArray (← popMany (← readWord))
  | .getIndex => binary Heap.index
  | .setIndex =>
    let v ← pop
    let key ← pop
    let collection ← pop
    let heap ← ofExcept ((← get).heap.setIndex collection key v)
    modify fun s => { s with heap }
    push v
  | .arrayLen =>
    let v ← pop
    push (.ofNat (← ofExcept ((← get).heap.length v)))
  | .unpack =>
    let count ← readByte
    match ← pop with
    | .array a => pushFirst count ((← get).heap.array a).toList
    | other => raise (.typeError ("cannot unpack " ++ other.typeName))
  | .newMap | .buildMap => pushMap (← readWord)
  | .mapGet =>
    let key ← popKey
    let m ← ofExcept (mapOf (← pop))
    push (← ofExcept (keyed ((← get).heap.map m) key))
  | .mapSet =>
    let v ← pop
    let key ← popKey
    let m ← ofExcept (mapOf (← pop))
    setMap m (((← get).heap.map m).insert key v)
    push v
  | .mapDelete =>
    let key ← popKey
    let m ← ofExcept (mapOf (← pop))
    let entries := (← get).heap.map m
    let removed ← ofExcept (keyed entries key)
    setMap m (entries.erase key)
    push removed
  | .mapKeys =>
    let m ← ofExcept (mapOf (← pop))
    pushArray (((← get).heap.map m).keys.map .string)
  | .mapValues =>
    let m ← ofExcept (mapOf (← pop))
    pushArray ((← get).heap.map m).values
  | .concat => binary fun h a b => .ok (h.concat a b)
  | .stringLen =>
    match ← pop with
    | .string s => push (.ofNat s.length)
    | other => raise (.typeError ("string length of " ++ other.typeName))
  | .substring =>
    let last ← pop
    let first ← pop
    let s ← pop
    push (← ofExcept (Value.substring s first last))
  | .toString =>
    let v ← pop
    push (.string ((← get).heap.display v))
  | .iterStart =>
    let v ← pop
    let items ← ofExcept ((← get).heap.iterationItems v)
    modifyTask fun t => { t with iterations := ⟨items⟩ :: t.iterations }
  | .iterNext =>
    match ← nextItem with
    | some v =>
      push v
      push (.bool true)
    | none =>
      push .nil
      push (.bool false)
  | .iterEnd => endIteration
  | .tryBegin => tryBegin
  | .catchInto =>
    let slot ← readWord
    -- The handler is dropped first, also if there is nothing to store.
    dropHandler
    let v ← pop
    setSlot (← localIndex slot) v
  | .throwValue => return .thrown (← pop)
  | .tryEnd => tryEnd
  | .typeOf => push (.string (← pop).typeName)
  | .isType =>
    let name ← readName
    push (.bool ((← pop).typeName == name))
  | .spawn =>
    let argc ← readByte
    let callee ← pop
    push (← spawn callee (← popMany argc))
  | .channelNew =>
    let v ← pop
    let capacity ← ofExcept (capacityOf (← get).heap v)
    push (.channel (← create (·.newChannel (.ofCapacity capacity))))
  | .channelSend =>
    let v ← pop
    return ← channelSend (← popChannel) v
  | .channelRecv => return ← channelReceive (← popChannel)
  | .channelClose =>
    channelClose (← popChannel)
    push .nil
  | .select =>
    let (cases, hasDefault) ← selectOperands
    return ← select cases hasDefault
  | .yield => return .yield
  | .halt => return .done ((← get).task.stack.back?.getD .nil)
  pure .next

/-- Count an instruction, unless the budget is used up by it. -/
def countInstruction (op : Opcode) : Exec Unit := do
  modify fun s => { s with vm := { s.vm with
    profiler := s.vm.profiler.recordInstruction op
    instructions := s.vm.instructions + 1 } }
  let vm := (← get).vm
  -- The one that is too many is counted, but not executed.
  match vm.config.instructionLimit with
  | some limit => if limit < vm.instructions then raise (.executionLimit limit)
  | none => pure ()

/-- Read the next opcode. -/
def fetch : Exec Opcode := do
  let f ← frame
  match (f.code (← get).heap)[f.ip]? with
  | none => raise (.invalidBytecode f.ip "instruction pointer past end of code")
  | some b =>
    match Opcode.ofByte? b with
    | none => raise (.invalidBytecode f.ip "unknown opcode")
    | some op =>
      modifyTask (·.setFrame { f with ip := f.ip + 1 })
      pure op

/-- Read, count and execute the next instruction. -/
def instruction : Exec Flow := do
  let op ← fetch
  countInstruction op
  execute op

/-- Execute the next instruction. The operands must not have become too many by it. -/
def step : Exec Flow := do
  let flow ← instruction
  let s ← get
  if s.vm.config.stackCapacity < s.task.stack.size then
    raise (.stackOverflow s.task.frames.length)
  else pure flow

end TaskVm.Exec
