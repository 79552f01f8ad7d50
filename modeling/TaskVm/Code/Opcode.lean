/-!
# Opcodes

The instruction set: 71 opcodes, the byte that encodes each of them, and the name a listing
prints. Operands follow the opcode byte, most significant byte first.
-/

namespace TaskVm

/-- An instruction without its operands. -/
inductive Opcode where
  /-- Push a constant: u16 index. -/
  | constant
  /-- Push nil. -/
  | pushNil
  /-- Push true. -/
  | pushTrue
  /-- Push false. -/
  | pushFalse
  /-- Drop the top. -/
  | pop
  /-- Push the top again. -/
  | dup
  /-- Pop a value and write its text as a line of output. -/
  | print
  /-- Push a local: u16 slot. -/
  | getLocal
  /-- Copy the top into a local: u16 slot. -/
  | setLocal
  /-- Push a local: u8 slot. -/
  | loadFast
  /-- Pop into a local: u8 slot. -/
  | storeFast
  /-- Pop into a global, new or not: u16 name constant. -/
  | defineGlobal
  /-- Push a global: u16 name constant. -/
  | getGlobal
  /-- Copy the top into a global: u16 name constant. -/
  | setGlobal
  /-- Push a captured variable: u8 index. -/
  | getUpvalue
  /-- Copy the top into a captured variable: u8 index. -/
  | setUpvalue
  /-- Pop b, pop a, push a + b. -/
  | add
  /-- Pop b, pop a, push a - b. -/
  | sub
  /-- Pop b, pop a, push a * b. -/
  | mul
  /-- Pop b, pop a, push a / b. -/
  | div
  /-- Pop b, pop a, push the remainder. -/
  | mod
  /-- Pop a, push -a. -/
  | negate
  /-- Pop b, pop a, push whether they are equal. -/
  | equal
  /-- Pop b, pop a, push whether they differ. -/
  | notEqual
  /-- Pop b, pop a, push a > b. -/
  | greater
  /-- Pop b, pop a, push a < b. -/
  | less
  /-- Pop b, pop a, push a >= b. -/
  | greaterEqual
  /-- Pop b, pop a, push a <= b. -/
  | lessEqual
  /-- Pop a, push whether it counts as false. -/
  | not
  /-- Pop b, pop a, push a if it counts as false, else b. -/
  | and
  /-- Pop b, pop a, push a if it counts as true, else b. -/
  | or
  /-- Jump: i16 offset. -/
  | jump
  /-- Pop a condition, jump if it counts as false: i16 offset. -/
  | jumpIfFalse
  /-- Jump back: i16 offset. -/
  | loop
  /-- Call the callee on top: u8 argument count. -/
  | call
  /-- Make a closure: u16 template, u8 count, then for each capture u8 local flag and u8 index. -/
  | makeClosure
  /-- Return from the function. -/
  | ret
  /-- Make an array of the topmost values: u16 count. -/
  | newArray
  /-- Make an array of the topmost values, sized in advance: u16 count. -/
  | buildList
  /-- Pop key, pop collection, push the element. -/
  | getIndex
  /-- Pop value, pop key, pop collection, store the value, push it. -/
  | setIndex
  /-- Pop a collection, push its length. -/
  | arrayLen
  /-- Pop an array, push its first elements: u8 count. -/
  | unpack
  /-- Make a map of keys and values on the stack: u16 pair count. -/
  | newMap
  /-- Make a map of keys and values, sized in advance: u16 pair count. -/
  | buildMap
  /-- Pop key, pop map, push the value. -/
  | mapGet
  /-- Pop value, pop key, pop map, store the value, push it. -/
  | mapSet
  /-- Pop key, pop map, remove the key, push its value. -/
  | mapDelete
  /-- Pop a map, push an array of its keys. -/
  | mapKeys
  /-- Pop a map, push an array of its values. -/
  | mapValues
  /-- Pop b, pop a, push their texts one after the other. -/
  | concat
  /-- Pop a string, push the number of its characters. -/
  | stringLen
  /-- Pop end, pop start, pop string, push that range of characters. -/
  | substring
  /-- Pop a, push its text. -/
  | toString
  /-- Pop a collection, start iterating over a snapshot of it. -/
  | iterStart
  /-- Push the next element and true, or nil and false. -/
  | iterNext
  /-- Drop the innermost iteration. -/
  | iterEnd
  /-- Register a handler: i16 offset of its code. -/
  | tryBegin
  /-- Drop the handler, pop the thrown value into a local: u16 slot. -/
  | catchInto
  /-- Pop a value and throw it. -/
  | throwValue
  /-- Drop the handler of this frame, the protected code being done. -/
  | tryEnd
  /-- Pop a, push the name of its type. -/
  | typeOf
  /-- Pop a, push whether its type has this name: u16 name constant. -/
  | isType
  /-- Start a task on the callee on top: u8 argument count. -/
  | spawn
  /-- Pop a capacity, push a new channel. -/
  | channelNew
  /-- Pop value, pop channel, send, push nil. -/
  | channelSend
  /-- Pop channel, receive, push the value. -/
  | channelRecv
  /-- Pop channel, close it, push nil. -/
  | channelClose
  /-- Choose among channel operations: u8 count, u8 flags, u8 kind for each case. -/
  | select
  /-- Go to the back of the run queue. -/
  | yield
  /-- End the task with the top of the stack as its result. -/
  | halt
deriving DecidableEq, Inhabited

namespace Opcode

/-- The byte that encodes an opcode. -/
def byte : Opcode → UInt8
  | constant => 0x01
  | pushNil => 0x02
  | pushTrue => 0x03
  | pushFalse => 0x04
  | pop => 0x08
  | dup => 0x09
  | print => 0x0a
  | getLocal => 0x10
  | setLocal => 0x11
  | loadFast => 0x12
  | storeFast => 0x13
  | defineGlobal => 0x14
  | getGlobal => 0x15
  | setGlobal => 0x16
  | getUpvalue => 0x17
  | setUpvalue => 0x18
  | add => 0x20
  | sub => 0x21
  | mul => 0x22
  | div => 0x23
  | mod => 0x24
  | negate => 0x25
  | equal => 0x30
  | notEqual => 0x31
  | greater => 0x32
  | less => 0x33
  | greaterEqual => 0x34
  | lessEqual => 0x35
  | not => 0x40
  | and => 0x41
  | or => 0x42
  | jump => 0x50
  | jumpIfFalse => 0x51
  | loop => 0x52
  | call => 0x60
  | makeClosure => 0x61
  | ret => 0x62
  | newArray => 0x70
  | buildList => 0x71
  | getIndex => 0x72
  | setIndex => 0x73
  | arrayLen => 0x74
  | unpack => 0x75
  | newMap => 0x78
  | buildMap => 0x79
  | mapGet => 0x7a
  | mapSet => 0x7b
  | mapDelete => 0x7c
  | mapKeys => 0x7d
  | mapValues => 0x7e
  | concat => 0x88
  | stringLen => 0x89
  | substring => 0x8a
  | toString => 0x8b
  | iterStart => 0x90
  | iterNext => 0x91
  | iterEnd => 0x92
  | tryBegin => 0xa0
  | catchInto => 0xa1
  | throwValue => 0xa2
  | tryEnd => 0xa3
  | typeOf => 0xa8
  | isType => 0xa9
  | spawn => 0xb0
  | channelNew => 0xb1
  | channelSend => 0xb2
  | channelRecv => 0xb3
  | channelClose => 0xb4
  | select => 0xb5
  | yield => 0xb6
  | halt => 0xff

/-- The name of an opcode. -/
def name : Opcode → String
  | constant => "Constant"
  | pushNil => "Nil"
  | pushTrue => "True"
  | pushFalse => "False"
  | pop => "Pop"
  | dup => "Dup"
  | print => "Print"
  | getLocal => "GetLocal"
  | setLocal => "SetLocal"
  | loadFast => "LoadFast"
  | storeFast => "StoreFast"
  | defineGlobal => "DefineGlobal"
  | getGlobal => "GetGlobal"
  | setGlobal => "SetGlobal"
  | getUpvalue => "GetUpvalue"
  | setUpvalue => "SetUpvalue"
  | add => "Add"
  | sub => "Sub"
  | mul => "Mul"
  | div => "Div"
  | mod => "Mod"
  | negate => "Negate"
  | equal => "Equal"
  | notEqual => "NotEqual"
  | greater => "Greater"
  | less => "Less"
  | greaterEqual => "GreaterEqual"
  | lessEqual => "LessEqual"
  | not => "Not"
  | and => "And"
  | or => "Or"
  | jump => "Jump"
  | jumpIfFalse => "JumpIfFalse"
  | loop => "Loop"
  | call => "Call"
  | makeClosure => "Closure"
  | ret => "Return"
  | newArray => "Array"
  | buildList => "BuildList"
  | getIndex => "Index"
  | setIndex => "SetIndex"
  | arrayLen => "ArrayLen"
  | unpack => "Unpack"
  | newMap => "Map"
  | buildMap => "BuildMap"
  | mapGet => "MapGet"
  | mapSet => "MapSet"
  | mapDelete => "MapDelete"
  | mapKeys => "MapKeys"
  | mapValues => "MapValues"
  | concat => "Concat"
  | stringLen => "StringLen"
  | substring => "Substring"
  | toString => "ToString"
  | iterStart => "IterStart"
  | iterNext => "IterNext"
  | iterEnd => "IterEnd"
  | tryBegin => "Try"
  | catchInto => "Catch"
  | throwValue => "Throw"
  | tryEnd => "EndTry"
  | typeOf => "TypeOf"
  | isType => "IsType"
  | spawn => "Spawn"
  | channelNew => "ChannelNew"
  | channelSend => "ChannelSend"
  | channelRecv => "ChannelRecv"
  | channelClose => "ChannelClose"
  | select => "Select"
  | yield => "Yield"
  | halt => "Halt"

/-- Every opcode, in the order of the bytes. -/
def all : List Opcode := [
    constant, pushNil, pushTrue, pushFalse, pop, dup, print, getLocal, setLocal, loadFast,
    storeFast, defineGlobal, getGlobal, setGlobal, getUpvalue, setUpvalue, add, sub, mul, div,
    mod, negate, equal, notEqual, greater, less, greaterEqual, lessEqual, not, and, or, jump,
    jumpIfFalse, loop, call, makeClosure, ret, newArray, buildList, getIndex, setIndex,
    arrayLen, unpack, newMap, buildMap, mapGet, mapSet, mapDelete, mapKeys, mapValues, concat,
    stringLen, substring, toString, iterStart, iterNext, iterEnd, tryBegin, catchInto,
    throwValue, tryEnd, typeOf, isType, spawn, channelNew, channelSend, channelRecv,
    channelClose, select, yield, halt]

/-- The opcode that a byte encodes; most bytes encode none. -/
def ofByte? (b : UInt8) : Option Opcode :=
  match b.toNat with
  | 0x01 => some constant
  | 0x02 => some pushNil
  | 0x03 => some pushTrue
  | 0x04 => some pushFalse
  | 0x08 => some pop
  | 0x09 => some dup
  | 0x0a => some print
  | 0x10 => some getLocal
  | 0x11 => some setLocal
  | 0x12 => some loadFast
  | 0x13 => some storeFast
  | 0x14 => some defineGlobal
  | 0x15 => some getGlobal
  | 0x16 => some setGlobal
  | 0x17 => some getUpvalue
  | 0x18 => some setUpvalue
  | 0x20 => some add
  | 0x21 => some sub
  | 0x22 => some mul
  | 0x23 => some div
  | 0x24 => some mod
  | 0x25 => some negate
  | 0x30 => some equal
  | 0x31 => some notEqual
  | 0x32 => some greater
  | 0x33 => some less
  | 0x34 => some greaterEqual
  | 0x35 => some lessEqual
  | 0x40 => some not
  | 0x41 => some and
  | 0x42 => some or
  | 0x50 => some jump
  | 0x51 => some jumpIfFalse
  | 0x52 => some loop
  | 0x60 => some call
  | 0x61 => some makeClosure
  | 0x62 => some ret
  | 0x70 => some newArray
  | 0x71 => some buildList
  | 0x72 => some getIndex
  | 0x73 => some setIndex
  | 0x74 => some arrayLen
  | 0x75 => some unpack
  | 0x78 => some newMap
  | 0x79 => some buildMap
  | 0x7a => some mapGet
  | 0x7b => some mapSet
  | 0x7c => some mapDelete
  | 0x7d => some mapKeys
  | 0x7e => some mapValues
  | 0x88 => some concat
  | 0x89 => some stringLen
  | 0x8a => some substring
  | 0x8b => some toString
  | 0x90 => some iterStart
  | 0x91 => some iterNext
  | 0x92 => some iterEnd
  | 0xa0 => some tryBegin
  | 0xa1 => some catchInto
  | 0xa2 => some throwValue
  | 0xa3 => some tryEnd
  | 0xa8 => some typeOf
  | 0xa9 => some isType
  | 0xb0 => some spawn
  | 0xb1 => some channelNew
  | 0xb2 => some channelSend
  | 0xb3 => some channelRecv
  | 0xb4 => some channelClose
  | 0xb5 => some select
  | 0xb6 => some yield
  | 0xff => some halt
  | _ => none

/-- The opcode of a name. -/
def ofName? (s : String) : Option Opcode := all.find? fun op => op.name == s

/-- Decoding undoes encoding. -/
@[simp] theorem ofByte?_byte (op : Opcode) : ofByte? op.byte = some op := by
  cases op <;> rfl

/-- Only the byte of an opcode decodes to it. -/
theorem byte_of_ofByte? {b : UInt8} {op : Opcode} (h : ofByte? b = some op) : b = op.byte := by
  unfold ofByte? at h
  split at h <;> first | (injection h with h; subst h; apply UInt8.toNat.inj; assumption) | cases h

end Opcode

end TaskVm
