import TaskVm.Config.Loader
import TaskVm.Machine.Run
import TaskVm.Native.Builder

/-!
# The host

A host is the program that machines are embedded in. Its machines share the heap and the
functions it has registered; everything else each of them has for itself. A machine is
taken out, does something, and is put back.
-/

namespace TaskVm

namespace Machine

/-- Build a native and bind it under its name. -/
def register (m : Machine) (b : NativeBuilder) : Except BuildError Machine :=
  (b.build m.hosts m.heap).map fun (id, hosts, heap) =>
    { m with hosts, heap }.define b.name (.native id)

/-- Begin to count instructions, native calls and turns. -/
def enableProfiling (m : Machine) : Machine :=
  { m with vm := { m.vm with profiler := m.vm.profiler.enable } }

/-- Give debuggers a source file name. -/
def setSourceName (m : Machine) (name : String) : Machine :=
  { m with vm := { m.vm with sourceName := name } }

/-- Forget what has been printed. -/
def clearOutput (m : Machine) : Machine := { m with heap := m.heap.clearSink m.vm.sink }

/-- What has been printed. -/
def output (m : Machine) : Array String := m.heap.sink m.vm.sink

end Machine

/-- Several machines on one heap. -/
structure Host where
  /-- The functions that natives of the host's own call. -/
  functions : Array HostFunction := #[]
  heap : Heap := {}
  vms : Array Vm := #[]

namespace Host

/-- A machine of the host, to work with. -/
def machine (w : Host) (i : Nat) : Machine :=
  { hosts := w.functions, heap := w.heap, vm := w.vms.getD i default }

/-- Put a machine back. -/
def put (w : Host) (i : Nat) (m : Machine) : Host :=
  { functions := m.hosts, heap := m.heap, vms := w.vms.setIfInBounds i m.vm }

/-- A further machine, its number not used by any other. -/
def add (w : Host) (config : VmConfig) (dice : Dice := {}) : Host :=
  let m := Machine.create w.functions w.heap w.vms.size config dice
  { functions := m.hosts, heap := m.heap, vms := w.vms.push m.vm }

/-- A further machine as a project wants it: with its limits, counting instructions if it
says so, and with its source file name. -/
def addForProject (w : Host) (c : Config) (dice : Dice := {}) : Host :=
  let i := w.vms.size
  let w := w.add (.ofRuntime c.runtime) dice
  let m := w.machine i
  let m := if c.project.profileEnabled then m.enableProfiling else m
  let m := match c.project.debug.bind (·.sourceName) with
    | some name => m.setSourceName name
    | none => m
  w.put i m

end Host

end TaskVm
