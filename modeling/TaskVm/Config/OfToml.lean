import TaskVm.Config.Project
import TaskVm.Toml

/-!
# Configuration from TOML

A section is a table whose keys are all known, or an array that gives the values in order,
all of them; what an array has beyond that does not matter. Limits are integers that are not
negative.
-/

namespace TaskVm

namespace Toml

/-- A text. -/
def text? : Toml → Option String
  | string s => some s
  | _ => none

/-- A truth value. -/
def flag? : Toml → Option Bool
  | boolean b => some b
  | _ => none

/-- A limit. -/
def limit? : Toml → Option Nat
  | integer n => if 0 ≤ n then some n.toNat else none
  | _ => none

/-- What may be left out, but must be right if it is there. -/
def optional? {α : Type} (read : Toml → Option α) : Option Toml → Option (Option α)
  | none => some none
  | some v => (read v).map some

/-- The values of a section, in the order of its keys. -/
def section? (keys : List String) : Toml → Option (List (Option Toml))
  | table _ entries =>
    if entries.all fun e => keys.contains e.1 then some (keys.map fun k => entries.lookup k)
    else none
  | array items =>
    if keys.length ≤ items.length then some ((items.take keys.length).map some) else none
  | _ => none

end Toml

open Toml

/-- The limits of a section. -/
def RuntimeConfig.ofToml? (t : Toml) : Option RuntimeConfig := do
  let keys := ["max_frames", "stack_capacity", "instruction_limit", "select_seed"]
  let [frames, stack, limit, seed] ← section? keys t | none
  some {
    maxFrames := ← optional? limit? frames
    stackCapacity := ← optional? limit? stack
    instructionLimit := ← optional? limit? limit
    selectSeed := ← optional? limit? seed }

/-- The package of a section. -/
def PackageConfig.ofToml? (t : Toml) : Option PackageConfig := do
  let [name, version, description] ← section? ["name", "version", "description"] t | none
  some {
    name := ← name.bind text?
    version := ← version.bind text?
    description := ← optional? text? description }

/-- How to debug, from a section. -/
def DebugConfig.ofToml? (t : Toml) : Option DebugConfig := do
  let [sourceName, profile] ← section? ["source_name", "profile"] t | none
  some { sourceName := ← optional? text? sourceName, profile := ← optional? flag? profile }

/-- The project of a document. -/
def ProjectConfig.ofToml? (t : Toml) : Option ProjectConfig := do
  let [package, runtime, debug] ← section? ["package", "runtime", "debug"] t | none
  some {
    package := ← optional? PackageConfig.ofToml? package
    runtime := ← optional? RuntimeConfig.ofToml? runtime
    debug := ← optional? DebugConfig.ofToml? debug }

/-- The user's configuration, from a document. -/
def GlobalConfig.ofToml? (t : Toml) : Option GlobalConfig := do
  let [runtime] ← section? ["runtime"] t | none
  some { runtime := ← optional? RuntimeConfig.ofToml? runtime }

end TaskVm
