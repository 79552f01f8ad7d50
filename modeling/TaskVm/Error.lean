import TaskVm.Number.Text
import TaskVm.Text.Quoted

/-!
# Runtime errors

Every error an instruction or a native can raise, its wording, and the one distinction the
machine makes between them: an ordinary error is thrown into the task and can be caught, a
fatal one ends the whole run.
-/

namespace TaskVm

/-- What went wrong while a program ran. -/
inductive RuntimeError where
  /-- Operands of types the operation does not take. -/
  | typeError (msg : String)
  /-- A call with the wrong number of arguments. -/
  | arityError (name expected : String) (got : Nat)
  | divisionByZero
  /-- A position outside an array or a string. -/
  | indexOutOfBounds (index : Number) (len : Nat)
  /-- A key a map does not have. -/
  | keyNotFound (key : String)
  /-- A bound method its receiver does not have. -/
  | unknownMethod (typeName method : String)
  /-- More frames or more operands than the limits allow. -/
  | stackOverflow (depth : Nat)
  /-- A thrown value that nobody caught, as text. -/
  | unhandledException (value : String)
  /-- A send on a closed channel, or a second close. -/
  | channelClosed
  /-- A global that was never defined. -/
  | undefinedVariable (name : String)
  /-- Nothing left to run while the main task is blocked. -/
  | deadlock
  /-- The instruction budget is used up. -/
  | executionLimit (limit : Nat)
  /-- Code that cannot be executed. -/
  | invalidBytecode (ip : Nat) (reason : String)
deriving DecidableEq, Inhabited

namespace RuntimeError

/-- Fatal errors pass by every handler. -/
def isFatal : RuntimeError → Bool
  | deadlock | executionLimit _ | invalidBytecode _ _ => true
  | _ => false

/-- The name of the kind of error. -/
def kind : RuntimeError → String
  | typeError _ => "TypeError"
  | arityError _ _ _ => "ArityError"
  | divisionByZero => "DivisionByZero"
  | indexOutOfBounds _ _ => "IndexOutOfBounds"
  | keyNotFound _ => "KeyNotFound"
  | unknownMethod _ _ => "UnknownMethod"
  | stackOverflow _ => "StackOverflow"
  | unhandledException _ => "UnhandledException"
  | channelClosed => "ChannelClosed"
  | undefinedVariable _ => "UndefinedVariable"
  | deadlock => "Deadlock"
  | executionLimit _ => "ExecutionLimit"
  | invalidBytecode _ _ => "InvalidBytecode"

/-- The error in words. -/
def message : RuntimeError → String
  | typeError msg => "Type error: " ++ msg
  | arityError name expected got =>
    "Arity error: " ++ name ++ " expects " ++ expected ++ " argument(s), got " ++ toString got
  | divisionByZero => "Division by zero"
  | indexOutOfBounds index len =>
    "Index " ++ index.text .plain ++ " out of bounds for length " ++ toString len
  | keyNotFound key => "Key not found: " ++ key
  | unknownMethod typeName method => "Unknown method '" ++ method ++ "' for " ++ typeName
  | stackOverflow depth => "Stack overflow: call depth exceeded " ++ toString depth
  | unhandledException value => "Unhandled exception: " ++ value
  | channelClosed => "Channel closed"
  | undefinedVariable name => "Undefined variable: " ++ name
  | deadlock => "Deadlock: all tasks are blocked"
  | executionLimit limit => "Execution limit of " ++ toString limit ++ " instructions exceeded"
  | invalidBytecode ip reason => "Invalid bytecode at offset " ++ toString ip ++ ": " ++ reason

/-- A kind with its named parts in braces; a kind without parts stands alone. -/
def record (kind : String) (parts : List (String × String)) : String :=
  if parts.isEmpty then kind
  else kind ++ " \x7b " ++ ", ".intercalate (parts.map fun p => p.1 ++ ": " ++ p.2) ++ " \x7d"

/-- The parts of an error as a debug listing shows them. -/
def parts : RuntimeError → List (String × String)
  | typeError msg => [("msg", Text.quote msg)]
  | arityError name expected got =>
    [("name", Text.quote name), ("expected", Text.quote expected), ("got", toString got)]
  | indexOutOfBounds index len => [("index", index.text .exact), ("len", toString len)]
  | keyNotFound key => [("key", Text.quote key)]
  | unknownMethod typeName method =>
    [("type_name", Text.quote typeName), ("method", Text.quote method)]
  | stackOverflow depth => [("depth", toString depth)]
  | unhandledException value => [("value", Text.quote value)]
  | undefinedVariable name => [("name", Text.quote name)]
  | executionLimit limit => [("limit", toString limit)]
  | invalidBytecode ip reason => [("ip", toString ip), ("reason", Text.quote reason)]
  | divisionByZero | channelClosed | deadlock => []

/-- The error with all its parts. -/
def debug (e : RuntimeError) : String := record e.kind e.parts

/-- Two errors are equal when they agree in kind and in every part, positions compared as
numbers: two errors about the position NaN differ. -/
def equal : RuntimeError → RuntimeError → Bool
  | indexOutOfBounds i n, indexOutOfBounds j m => i.equal j && n == m
  | a, b => a == b

end RuntimeError

/-- One active call at the point of failure. -/
structure TraceEntry where
  function : String
  line : Int32
deriving DecidableEq

/-- How a task ends when nobody catches its error: the error and the calls it escaped from,
innermost first. -/
structure Failure where
  error : RuntimeError
  trace : List TraceEntry
deriving DecidableEq

namespace Failure

/-- One line of the call stack. -/
def traceLine (t : TraceEntry) : String :=
  "\n  at " ++ t.function ++ " (line " ++ toString t.line.toInt ++ ")"

/-- The error in words, followed by the call stack if there is one. -/
def report (f : Failure) : String :=
  if f.trace.isEmpty then f.error.message
  else f.error.message ++ "\nCall stack:" ++ String.join (f.trace.map traceLine)

end Failure

end TaskVm
