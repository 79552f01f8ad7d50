import TaskVm.Config.Runtime
import TaskVm.Native.Builtins
import TaskVm.Native.Cache
import TaskVm.Profiler
import TaskVm.Scheduler

/-!
# The machine

A `Vm` is what one machine keeps to itself: limits, globals, tasks and counters. A `Machine`
is a `Vm` together with the heap it works on, which it may share with other machines, and
the task that is having its turn.
-/

namespace TaskVm

/-- What one machine keeps to itself. -/
structure Vm where
  id : VmId
  config : VmConfig := {}
  globals : Globals := {}
  natives : NativeCache := {}
  /-- The host has had its say, and the native cache is in use. -/
  warmedUp : Bool := false
  scheduler : Scheduler := {}
  /-- The main task of the program that is loaded. -/
  main : Option TaskId := none
  /-- The handles of the tasks of the program that is or was loaded. -/
  handles : Std.ExtTreeMap TaskId HandleId := {}
  /-- Where programs print. -/
  sink : SinkId
  profiler : Profiler := {}
  /-- What select draws from. -/
  dice : Dice := {}
  /-- The number of instructions since the program was loaded. -/
  instructions : Nat := 0
  /-- The name of the source file, for debuggers. -/
  sourceName : String := "<script>"

instance : Inhabited Vm := ⟨{ id := 0, sink := 0 }⟩

/-- A machine at work. -/
structure Machine where
  /-- The functions the host has registered. -/
  hosts : Array HostFunction := #[]
  heap : Heap := {}
  vm : Vm
  /-- The task that is having its turn. -/
  running : Option Task := none

namespace Vm

/-- Bind a global. A binding that makes or unmakes a native invalidates the cache. -/
def setGlobal (vm : Vm) (name : String) (value : Value) : Vm :=
  let isNative : Value → Bool
    | .native _ => true
    | _ => false
  let wasNative := match vm.globals.get? name with
    | some old => isNative old
    | none => false
  let vm := { vm with globals := vm.globals.insert name value }
  if vm.warmedUp && (isNative value || wasNative) then
    { vm with natives := vm.natives.invalidate }
  else vm

/-- Build the native cache, once. -/
def warmUp (vm : Vm) : Vm :=
  if vm.warmedUp then vm
  else { vm with natives := vm.natives.build vm.globals, warmedUp := true }

/-- The stage of a task of the program that is or was loaded. -/
def taskStatus? (vm : Vm) (h : Heap) (id : TaskId) : Option TaskStatus :=
  vm.handles[id]?.map fun handle => (h.handle handle).status

end Vm

namespace Machine

/-- A new machine, with its builtins bound. With a seed in its limits it draws from dice of
that seed, else from the given ones. -/
def create (hosts : Array HostFunction) (h : Heap) (id : VmId) (config : VmConfig) (dice : Dice) :
    Machine :=
  let (sink, h) := h.newSink
  let (named, h) := h.newBuiltins sink
  let globals := OrderedMap.ofList (named.map fun n => (n.1, Value.native n.2))
  let dice := match config.selectSeed with
    | some seed => Dice.ofSeed seed
    | none => dice
  { hosts, heap := h, vm := { id, config, globals, sink, dice } }

/-- Give up all tasks, closing what was captured from them. -/
def shutdown (m : Machine) : Machine :=
  let (dropped, scheduler) := m.vm.scheduler.drain
  let heap := dropped.foldl (fun h t => (t.openUpvalues.closeAll h t.stack).2) m.heap
  { m with heap, vm := { m.vm with scheduler, main := none } }

/-- The function that running a chunk by itself runs: as many locals as the code names. -/
def mainTemplate (h : Heap) (chunk : ChunkId) : Template :=
  let locals := min (h.chunk chunk).code.localSlots 65535
  { name := "<main>", localCount := UInt16.ofNat locals, chunk }

/-- Load a program: its main chunk becomes the main task, and any earlier program is gone. -/
def load (m : Machine) (chunk : ChunkId) : TaskId × Machine :=
  let m := m.shutdown
  let (template, heap) := m.heap.newTemplate (mainTemplate m.heap chunk)
  let (closure, heap) := heap.newClosure { template }
  let (id, scheduler) := m.vm.scheduler.takeId
  let (task, heap) := Task.new heap id "main"
  let frame := Frame.enter heap closure 0 0
  let task := task.enter frame (Array.replicate frame.localCount .nil)
  let (scheduler, heap) := scheduler.requeue heap task
  (id, { m with
    heap
    vm := { m.vm with
      scheduler
      main := some id
      instructions := 0
      handles := Std.ExtTreeMap.empty.insert id task.handle } })

/-- Bind a global from outside. -/
def define (m : Machine) (name : String) (value : Value) : Machine :=
  { m with vm := m.vm.setGlobal name value }

end Machine

end TaskVm
