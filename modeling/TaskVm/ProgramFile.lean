import TaskVm.Heap

/-!
# Program files

The layout of a compiled program on disk, least significant byte first: a header of four
words, which are the magic number, the version, the number of chunks and the number of the
main chunk; then for each chunk its code in words of four bytes, its constants with a tag
before each, and the line of every byte of code.

Functions name their chunks by number. `RawChunk` is a chunk as the file has it, with these
numbers still in it.
-/

namespace TaskVm

namespace ProgramFile

/-- The first word of every file. -/
def magic : UInt32 := 0x53454e54

/-- The newest version that can be read. -/
def version : UInt32 := 1

/-- The tags that tell constants apart. -/
def tagNil : UInt8 := 0
def tagBool : UInt8 := 1
def tagInteger : UInt8 := 2
def tagFloat : UInt8 := 3
def tagString : UInt8 := 4
def tagFunction : UInt8 := 5

/-- Why a program could not be written or read. -/
inductive Error where
  | badMagic
  | unsupportedVersion (found : UInt32)
  | unknownConstantTag (tag : UInt8)
  /-- The file ends in the middle of a part. -/
  | truncated (part : String)
  | invalidText
  | tooManyConstants (count : Nat)
  | badChunkIndex (index count : Nat)
  /-- A chunk reaches itself through its functions. -/
  | cyclicChunk (index : Nat)
  /-- There are more lines than bytes of code. -/
  | lineTableMismatch (lines code : Nat)
  /-- A constant of a type that files do not hold. -/
  | unsupportedConstant (typeName : String)
  /-- There is no such file. -/
  | missingFile
deriving DecidableEq

namespace Error

/-- The name of the kind of error. -/
def kind : Error → String
  | badMagic => "BadMagic"
  | unsupportedVersion _ => "UnsupportedVersion"
  | unknownConstantTag _ => "UnknownConstantTag"
  | truncated _ => "Truncated"
  | invalidText => "InvalidUtf8"
  | tooManyConstants _ => "TooManyConstants"
  | badChunkIndex _ _ => "BadChunkIndex"
  | cyclicChunk _ => "CyclicChunk"
  | lineTableMismatch _ _ => "LineTableMismatch"
  | unsupportedConstant _ => "UnsupportedConstant"
  | missingFile => "Io"

/-- The error in words. -/
def message : Error → String
  | badMagic => "not a Sentra bytecode file (bad magic number)"
  | unsupportedVersion found =>
    "bytecode version " ++ toString found.toNat ++ " is newer than supported version " ++
      toString version.toNat
  | unknownConstantTag tag => "unknown constant tag " ++ toString tag.toNat
  | truncated part => "bytecode truncated in " ++ part
  | invalidText => "string constant is not valid UTF-8"
  | tooManyConstants count =>
    "chunk has " ++ toString count ++ " constants; at most 65536 are addressable"
  | badChunkIndex index count =>
    "chunk index " ++ toString index ++ " out of range (" ++ toString count ++ " chunks)"
  | cyclicChunk index =>
    "chunk " ++ toString index ++ " contains itself through function constants"
  | lineTableMismatch lines code =>
    "line table has " ++ toString lines ++ " entries but code has only " ++ toString code ++
      " bytes"
  | unsupportedConstant typeName => typeName ++ " values cannot be stored in a constant pool"
  | missingFile => "I/O error"

end Error

/-- A constant as a file has it. -/
inductive RawConstant where
  /-- Anything but a function. -/
  | value (v : Value)
  /-- A function, its chunk replaced by the chunk's number in the file. -/
  | function (t : Template) (chunk : Nat)
deriving DecidableEq

/-- A chunk as a file has it. -/
structure RawChunk where
  code : List UInt8
  constants : List RawConstant
  lines : List Int32
deriving DecidableEq

end ProgramFile

end TaskVm
