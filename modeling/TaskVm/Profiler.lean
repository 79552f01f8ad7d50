import TaskVm.Code.Opcode
import TaskVm.Json.Writer
import TaskVm.Number.Percent

/-!
# The profiler

Counts of executed instructions by opcode, of native calls and of task switches. Nothing
is counted while the profiler is off, and what was counted before stays.
-/

namespace TaskVm

/-- The counters. -/
structure Profiler where
  enabled : Bool := false
  instructions : Nat := 0
  /-- The count of each opcode, at the place of its byte. -/
  counts : Array Nat := Array.replicate 256 0
  nativeCalls : Nat := 0
  taskSwitches : Nat := 0
deriving DecidableEq, Inhabited

/-- What the profiler has seen. -/
structure ProfileSummary where
  instructions : Nat
  nativeCalls : Nat
  taskSwitches : Nat
  /-- The executed opcodes with their counts, the most frequent first. -/
  opcodes : List (String × Nat)
deriving DecidableEq

namespace Profiler

def enable (p : Profiler) : Profiler := { p with enabled := true }

def disable (p : Profiler) : Profiler := { p with enabled := false }

/-- Set all counters to zero. -/
def reset (p : Profiler) : Profiler := { enabled := p.enabled }

/-- Count an instruction. -/
def recordInstruction (p : Profiler) (op : Opcode) : Profiler :=
  if p.enabled then
    { p with instructions := p.instructions + 1, counts := p.counts.modify op.byte.toNat (· + 1) }
  else p

/-- Count a native call. -/
def recordNativeCall (p : Profiler) : Profiler :=
  if p.enabled then { p with nativeCalls := p.nativeCalls + 1 } else p

/-- Count a turn of a task. -/
def recordTaskSwitch (p : Profiler) : Profiler :=
  if p.enabled then { p with taskSwitches := p.taskSwitches + 1 } else p

/-- How often an opcode was executed. -/
def count (p : Profiler) (op : Opcode) : Nat := p.counts.getD op.byte.toNat 0

/-- The more frequent opcode goes first; among equals, the name decides. -/
def before (a b : String × Nat) : Bool :=
  b.2 < a.2 || (a.2 == b.2 && (a.1 < b.1 || a.1 == b.1))

/-- What has been counted. -/
def summary (p : Profiler) : ProfileSummary :=
  let seen := (Opcode.all.map fun op => (op.name, p.count op)).filter fun e => 0 < e.2
  ⟨p.instructions, p.nativeCalls, p.taskSwitches, seen.mergeSort before⟩

/-- The share of a count among all instructions, in percent. -/
def percentage (count total : Nat) : Number :=
  ((Number.ofNat count).div (Number.ofNat total)).mul (Number.ofNat 100)

/-- One line of the report. -/
def reportLine (total : Nat) (e : String × Nat) : String :=
  "  " ++ padRight 20 e.1 ++ " " ++ padLeft 10 (toString e.2) ++ " (" ++
    padLeft 6 (percentage e.2 total).hundredths ++ "%)\n"

/-- The summary for people. -/
def report (p : Profiler) : String :=
  if !p.enabled then "Profiling not enabled"
  else
    let s := p.summary
    "Total instructions executed: " ++ toString s.instructions ++
      "\nNative calls: " ++ toString s.nativeCalls ++
      "\nTask switches: " ++ toString s.taskSwitches ++ "\n\n" ++
      if s.opcodes.isEmpty then "No instructions recorded\n"
      else
        "Instruction counts by opcode:\n" ++
          String.join (s.opcodes.map (reportLine s.instructions))

end Profiler

namespace ProfileSummary

/-- The summary as a document. -/
def toJson (s : ProfileSummary) : Json :=
  .object [
    ("total_instructions", .integer s.instructions),
    ("native_calls", .integer s.nativeCalls),
    ("task_switches", .integer s.taskSwitches),
    ("opcodes", .array (s.opcodes.map fun e => .array [.string e.1, .integer e.2]))]

/-- The summary as indented text. -/
def pretty (s : ProfileSummary) : String := String.ofList (s.toJson.pretty 0)

end ProfileSummary

end TaskVm
