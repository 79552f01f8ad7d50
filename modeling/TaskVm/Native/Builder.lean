import TaskVm.Native.Builtins

/-!
# Registering natives

The host describes a native by its name, its arity and its function, and nothing is built
before both of the latter are there.
-/

namespace TaskVm

/-- Why a native could not be built. -/
inductive BuildError where
  | missingImplementation (name : String)
  | missingArity (name : String)
deriving DecidableEq

/-- The error in words. -/
def BuildError.message : BuildError → String
  | missingImplementation name => "native function '" ++ name ++ "' has no implementation"
  | missingArity name => "native function '" ++ name ++ "' needs an arity or variadic()"

/-- A native under construction. -/
structure NativeBuilder where
  name : String
  arity : Option Arity := none
  implementation : Option HostFunction := none

namespace NativeBuilder

/-- Build the native: its function joins those of the host. A missing arity is reported
before a missing function. -/
def build (b : NativeBuilder) (hosts : Array HostFunction) (h : Heap) :
    Except BuildError (NativeId × Array HostFunction × Heap) :=
  match b.arity, b.implementation with
  | none, _ => .error (.missingArity b.name)
  | some _, none => .error (.missingImplementation b.name)
  | some arity, some f =>
    let (id, h) := h.newNative ⟨b.name, arity, .host hosts.size⟩
    .ok (id, hosts.push f, h)

end NativeBuilder

end TaskVm
