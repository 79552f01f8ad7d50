import TaskVm.Heap.Equality
import TaskVm.Heap.Json
import TaskVm.Heap.Operations
import TaskVm.Native.Call
import TaskVm.Text.Blank
import TaskVm.Text.Case
import TaskVm.Text.Split

/-!
# The builtins

Names, arities and meanings of the functions every machine offers. Each checks its
arguments before it changes anything.
-/

namespace TaskVm

namespace Builtin

/-- The name a builtin is bound to. -/
def name : Builtin → String
  | log => "log" | len => "len" | push => "push" | pop => "pop" | shift => "shift"
  | unshift => "unshift" | time => "time" | str => "str" | join => "join"
  | contains => "contains" | keys => "keys" | values => "values" | has => "has"
  | remove => "remove" | upper => "upper" | lower => "lower" | trim => "trim"
  | split => "split" | replace => "replace" | startsWith => "starts_with"
  | endsWith => "ends_with" | sort => "sort" | reverse => "reverse" | slice => "slice"
  | insert => "insert" | indexOf => "index_of" | clear => "clear" | abs => "abs"
  | sqrt => "sqrt" | round => "round" | floor => "floor" | ceil => "ceil" | sin => "sin"
  | cos => "cos" | tan => "tan" | pow => "pow" | random => "random" | randint => "randint"
  | type => "type" | parse => "parse" | stringify => "stringify"

/-- How many arguments a builtin takes. -/
def arity : Builtin → Arity
  | log | slice => .variadic
  | time | random => .fixed 0
  | push | unshift | join | contains | has | remove | split | startsWith | endsWith
  | indexOf | pow | randint => .fixed 2
  | replace | insert => .fixed 3
  | _ => .fixed 1

/-- Every builtin, in the order in which they are bound. -/
def all : List Builtin := [
  log, len, push, pop, shift, unshift, time, str, join, contains, keys, values, has, remove,
  upper, lower, trim, split, replace, startsWith, endsWith, sort, reverse, slice, insert,
  indexOf, clear, abs, sqrt, round, floor, ceil, sin, cos, tan, pow, random, randint, type,
  parse, stringify]

/-! ### Arguments -/

/-- An argument of a type that the builtin does not take. -/
def expected (b : Builtin) (what : String) (got : Value) : RuntimeError :=
  .typeError (b.name ++ " expects " ++ what ++ ", got " ++ got.typeName)

def arrayArg (b : Builtin) : Value → Except RuntimeError ArrayId
  | .array i => .ok i
  | other => .error (b.expected "an array" other)

def mapArg (b : Builtin) : Value → Except RuntimeError MapId
  | .map i => .ok i
  | other => .error (b.expected "a map" other)

def numberArg (b : Builtin) : Value → Except RuntimeError Number
  | .number n => .ok n
  | other => .error (b.expected "a number" other)

def stringArg (b : Builtin) : Value → Except RuntimeError String
  | .string s => .ok s
  | other => .error (b.expected "a string" other)

/-! ### Positions -/

/-- A bound of a slice: counted from the end if negative, then held between 0 and the
length; a NaN is 0. -/
def sliceBound (n : Number) (len : Nat) : Nat :=
  let n := n.trunc
  let n := if n.less (.zero false) then n.add (.ofNat len) else n
  (n.clamp (.zero false) (.ofNat len)).toWord

/-- A bound of a slice that may be left out. -/
def sliceBound? (bounds : List Value) (i len missing : Nat) : Except RuntimeError Nat :=
  match bounds[i]? with
  | none | some .nil => .ok missing
  | some v => (numberArg slice v).map fun n => sliceBound n len

/-- Where an element is inserted: held between 0 and the length; a NaN is 0. -/
def insertionPoint (n : Number) (len : Nat) : Nat :=
  if n.isNaN || !(Number.zero false).less n then 0 else min n.toWord len

/-! ### Sorting -/

/-- The numbers of a list that has nothing else in it. -/
def allNumbers? (vs : List Value) : Option (List Number) :=
  vs.mapM fun
    | .number n => some n
    | _ => none

/-- The strings of a list that has nothing else in it. -/
def allStrings? (vs : List Value) : Option (List String) :=
  vs.mapM fun
    | .string s => some s
    | _ => none

/-- The sorted list of only numbers, in total order, or only strings. -/
def sorted (vs : List Value) : Except RuntimeError (List Value) :=
  match allNumbers? vs, allStrings? vs with
  | some ns, _ => .ok ((ns.mergeSort fun x y => x.totalKey ≤ y.totalKey).map .number)
  | none, some ss => .ok ((ss.mergeSort fun s t => Value.compareText s t != .gt).map .string)
  | none, none =>
    .error (.typeError "sort expects an array of only numbers or only strings")

/-! ### Searching -/

/-- The first place of a value in a list. -/
def findIndex (h : Heap) (v : Value) : List Value → Nat → Option (Option Nat)
  | [], _ => some none
  | x :: xs, i =>
    match h.equal? x v with
    | some true => some (some i)
    | some false => findIndex h v xs (i + 1)
    | none => none

/-- The first place of a value in an array, if the comparisons end. -/
def find (h : Heap) (a : ArrayId) (v : Value) : HeapM (Option Nat) :=
  match findIndex h v (h.array a).toList 0 with
  | some found => pure found
  | none => throw .endless

/-! ### Meanings -/

/-- Return a new array. -/
def giveArray (items : List Value) : HeapM Value := do
  let (id, h) := (← get).newArray items.toArray
  set h
  pure (.array id)

/-- Change the elements of an array. -/
def changeArray (a : ArrayId) (f : Array Value → Array Value) : HeapM Unit :=
  modify fun h => { h with arrays := h.arrays.modify a f }

/-- A function on numbers. -/
def math (b : Builtin) (f : Number → Number) (v : Value) : HeapM Value := do
  pure (.number (f (← HeapM.ofExcept (b.numberArg v))))

/-- How many evenly spaced numbers from 0 up to 1 there are to draw from. -/
def randomSteps : Nat := 0x20000000000000

/-- Draw an integer between two bounds. -/
def drawInteger (lo hi : Value) : HeapM Value := do
  let low := (← HeapM.ofExcept (randint.numberArg lo)).ceil
  let high := (← HeapM.ofExcept (randint.numberArg hi)).floor
  let h ← get
  if !(low.isFinite && high.isFinite) || high.less low then
    HeapM.raise (.typeError
      ("randint expects min <= max, got " ++ h.display lo ++ " and " ++ h.display hi))
  else
    let least := low.toSignedWord
    let (n, dice) := h.dice.roll ((high.toSignedWord - least).toNat + 1)
    set { h with dice }
    pure (.ofInt (least + n))

/-- Cut a slice out of an array. -/
def cutSlice (args : List Value) : HeapM Value := do
  match args with
  | [] => HeapM.raise (.arityError "slice" "1 to 3" 0)
  | subject :: bounds =>
    if 2 < bounds.length then HeapM.raise (.arityError "slice" "1 to 3" args.length)
    else
      let a ← HeapM.ofExcept (slice.arrayArg subject)
      let items := ((← get).array a).toList
      let stop ← HeapM.ofExcept (sliceBound? bounds 1 items.length items.length)
      let start ← HeapM.ofExcept (sliceBound? bounds 0 items.length 0)
      let start := min start stop
      giveArray ((items.drop start).take (stop - start))

/-- What a builtin does with as many arguments as it takes. -/
def apply (b : Builtin) (sink : SinkId) (args : List Value) : HeapM Value := do
  match b, args with
  | log, args =>
    modify fun h => h.writeLine sink (" ".intercalate (args.map h.display))
    pure .nil
  | len, [v] =>
    match v with
    | .string s => pure (.ofNat s.length)
    | .array a => pure (.ofNat ((← get).array a).size)
    | .map m => pure (.ofNat ((← get).map m).size)
    | other => HeapM.raise (len.expected "a string, array or map" other)
  | push, [subject, v] =>
    let a ← HeapM.ofExcept (push.arrayArg subject)
    changeArray a (·.push v)
    pure subject
  | pop, [subject] =>
    let a ← HeapM.ofExcept (pop.arrayArg subject)
    let last := ((← get).array a).back?
    changeArray a (·.pop)
    pure (last.getD .nil)
  | shift, [subject] =>
    let a ← HeapM.ofExcept (shift.arrayArg subject)
    let first := ((← get).array a)[0]?
    changeArray a (·.eraseIdxIfInBounds 0)
    pure (first.getD .nil)
  | unshift, [subject, v] =>
    let a ← HeapM.ofExcept (unshift.arrayArg subject)
    changeArray a (#[v] ++ ·)
    pure subject
  | time, [] => pure (.ofInt (← get).clock)
  | str, [v] => pure (.string ((← get).display v))
  | join, [subject, separator] =>
    let a ← HeapM.ofExcept (join.arrayArg subject)
    let sep ← HeapM.ofExcept (join.stringArg separator)
    let h ← get
    pure (.string (Text.joinWith sep ((h.array a).toList.map h.display)))
  | contains, [subject, v] =>
    match subject with
    | .array a => pure (.bool (← find (← get) a v).isSome)
    | .string s => pure (.bool (Text.contains s (← HeapM.ofExcept (contains.stringArg v))))
    | other => HeapM.raise (contains.expected "an array or string" other)
  | keys, [subject] =>
    let m ← HeapM.ofExcept (keys.mapArg subject)
    giveArray (((← get).map m).keys.map .string)
  | values, [subject] =>
    let m ← HeapM.ofExcept (values.mapArg subject)
    giveArray ((← get).map m).values
  | has, [subject, key] =>
    let m ← HeapM.ofExcept (has.mapArg subject)
    let h ← get
    pure (.bool ((h.map m).contains (h.mapKey key)))
  | remove, [subject, key] =>
    let h ← get
    match subject with
    | .map m =>
      let k := h.mapKey key
      set (h.setMap m ((h.map m).erase k))
      pure (((h.map m).get? k).getD .nil)
    | .array a =>
      let i ← HeapM.ofExcept (key.position (h.array a).size)
      changeArray a (·.eraseIdxIfInBounds i)
      pure ((h.array a).getD i .nil)
    | other => HeapM.raise (remove.expected "a map or array" other)
  | upper, [v] => pure (.string (Text.upper (← HeapM.ofExcept (upper.stringArg v))))
  | lower, [v] => pure (.string (Text.lower (← HeapM.ofExcept (lower.stringArg v))))
  | trim, [v] => pure (.string (Text.trim (← HeapM.ofExcept (trim.stringArg v))))
  | split, [subject, separator] =>
    let s ← HeapM.ofExcept (split.stringArg subject)
    let sep ← HeapM.ofExcept (split.stringArg separator)
    giveArray ((Text.split s sep).map .string)
  | replace, [subject, old, new] =>
    let h ← get
    pure (.string (Text.replace (h.display subject) (h.display old) (h.display new)))
  | startsWith, [subject, start] =>
    let h ← get
    pure (.bool (Text.startsWith (h.display subject) (h.display start)))
  | endsWith, [subject, ending] =>
    let h ← get
    pure (.bool (Text.endsWith (h.display subject) (h.display ending)))
  | sort, [subject] =>
    let a ← HeapM.ofExcept (sort.arrayArg subject)
    let items ← HeapM.ofExcept (sorted ((← get).array a).toList)
    changeArray a fun _ => items.toArray
    pure subject
  | reverse, [subject] =>
    let a ← HeapM.ofExcept (reverse.arrayArg subject)
    changeArray a (·.reverse)
    pure subject
  | slice, args => cutSlice args
  | insert, [subject, position, v] =>
    let a ← HeapM.ofExcept (insert.arrayArg subject)
    let n ← HeapM.ofExcept (insert.numberArg position)
    changeArray a fun items => items.insertIdxIfInBounds (insertionPoint n items.size) v
    pure subject
  | indexOf, [subject, v] =>
    let a ← HeapM.ofExcept (indexOf.arrayArg subject)
    match ← find (← get) a v with
    | some i => pure (.ofNat i)
    | none => pure (.ofInt (-1))
  | clear, [subject] =>
    let a ← HeapM.ofExcept (clear.arrayArg subject)
    changeArray a fun _ => #[]
    pure subject
  | abs, [v] => math abs .abs v
  | sqrt, [v] => math sqrt .sqrt v
  | round, [v] => math round .round v
  | floor, [v] => math floor .floor v
  | ceil, [v] => math ceil .ceil v
  | sin, [v] => math sin .sin v
  | cos, [v] => math cos .cos v
  | tan, [v] => math tan .tan v
  | pow, [base, exponent] =>
    let x ← HeapM.ofExcept (pow.numberArg base)
    let y ← HeapM.ofExcept (pow.numberArg exponent)
    pure (.number (x.pow y))
  | random, [] =>
    let h ← get
    let (n, dice) := h.dice.roll (randomSteps)
    set { h with dice }
    pure (.number (.ofRatio false n (randomSteps)))
  | randint, [lo, hi] => drawInteger lo hi
  | type, [v] => pure (.string v.typeName)
  | parse, [v] =>
    let text ← HeapM.ofExcept (parse.stringArg v)
    let (v, h) ← HeapM.ofExcept ((← get).parse text)
    set h
    pure v
  | stringify, [v] =>
    let text ← HeapM.ofExcept ((← get).stringify v)
    pure (.string text)
  | b, args => HeapM.raise (.arityError b.name b.arity.text args.length)

end Builtin

/-- The natives of a new machine, printing to a sink. -/
def Heap.newBuiltins (h : Heap) (sink : SinkId) : List (String × NativeId) × Heap :=
  Builtin.all.foldl (fun (named, h) b =>
    let (id, h) := h.newNative ⟨b.name, b.arity, .builtin b sink⟩
    (named ++ [(b.name, id)], h)) ([], h)

/-- What a native does once its arguments have been counted. -/
def Native.run (hosts : Array HostFunction) (n : Native) (args : List Value) : HeapM Value :=
  match n.body with
  | .builtin b sink => b.apply sink args
  | .host i =>
    match hosts[i]? with
    | some f => f args
    | none => pure .nil

/-- Call a native. -/
def Native.call (hosts : Array HostFunction) (n : Native) (args : List Value) : HeapM Value :=
  match n.arity with
  | .fixed expected =>
    if args.length = expected then n.run hosts args
    else HeapM.raise (n.arityError expected args.length)
  | .variadic => n.run hosts args

end TaskVm
