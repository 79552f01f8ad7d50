import TaskVm.Native.Call

/-!
# The native cache

Methods are found by the name of a global. The cache remembers which globals are natives,
and the four most called ones have a place of their own. It is built once the host is done,
and built again on the first look-up after a global that is or was a native has been bound
anew.
-/

namespace TaskVm

/-- The global variables, each keeping the place it was first given. -/
abbrev Globals := OrderedMap Value

/-- The natives among the globals, as of the last time it was built. -/
structure NativeCache where
  byName : Std.TreeMap String NativeId := {}
  log : Option NativeId := none
  push : Option NativeId := none
  len : Option NativeId := none
  time : Option NativeId := none
  valid : Bool := false
  /-- How often it has been built. -/
  builds : Nat := 0

namespace NativeCache

instance : Inhabited NativeCache := ⟨{}⟩

/-- The natives among some bindings, by name. -/
def nativesOf (bindings : List (String × Value)) : Std.TreeMap String NativeId :=
  bindings.foldl (fun found b =>
    match b.2 with
    | .native id => found.insert b.1 id
    | _ => found) {}

/-- Look through the globals. -/
def build (c : NativeCache) (globals : Globals) : NativeCache :=
  let byName := nativesOf globals.toList
  { byName, log := byName["log"]?, push := byName["push"]?, len := byName["len"]?,
    time := byName["time"]?, valid := true, builds := c.builds + 1 }

/-- Have the cache built again before it is next used. -/
def invalidate (c : NativeCache) : NativeCache := { c with valid := false }

/-- What a name stands for in a cache that is up to date. -/
def found (c : NativeCache) (name : String) : Option NativeId :=
  if name = "push" then c.push
  else if name = "len" then c.len
  else if name = "log" then c.log
  else if name = "time" then c.time
  else c.byName[name]?

/-- Find a native by name. -/
def lookup (c : NativeCache) (globals : Globals) (name : String) :
    Option NativeId × NativeCache :=
  let c := if c.valid then c else c.build globals
  (c.found name, c)

end NativeCache

end TaskVm
