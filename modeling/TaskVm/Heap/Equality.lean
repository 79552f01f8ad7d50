import TaskVm.Heap

/-!
# Equality of values

Arrays and maps are equal when their contents are, and the order of a map's keys does not
matter. Closures, natives and channels are equal to themselves only, tasks by their number,
and a NaN not even to itself. Two collections that contain themselves are compared by
remembering the pairs already under comparison: such a pair is taken to be equal, and a
difference shows elsewhere.

Compiled functions are compared by what they are made of, constants included. The
constants are compared one by one, each without a memory of what came before, so a constant
that leads back to its own function makes the comparison go on for ever. `equalWithin`
therefore counts how deep it has gone and gives up at a limit, and `equal?` sets the limit
beyond every depth that a comparison that ends can reach.
-/

namespace TaskVm.Heap

/-- Pairs of collections under comparison, the latest first. -/
abbrev Seen := List (Value × Value)

/-- Compare pairs one after the other up to the first difference. A missing partner is a
difference. -/
def allEqual (eq : Seen → Value → Value → Option (Bool × Seen)) :
    Seen → List (Value × Option Value) → Option (Bool × Seen)
  | seen, [] => some (true, seen)
  | seen, (_, none) :: _ => some (false, seen)
  | seen, (a, some b) :: rest =>
    match eq seen a b with
    | some (true, seen) => allEqual eq seen rest
    | other => other

/-- The elements of two arrays, side by side. -/
def elementPairs (xs ys : Array Value) : List (Value × Option Value) :=
  xs.toList.zip (ys.toList.map some)

/-- The values of a map, each beside the other map's value of the same key. -/
def entryPairs (m n : OrderedMap Value) : List (Value × Option Value) :=
  m.toList.map fun e => (e.2, n.get? e.1)

/-- Two compiled functions agree in everything but the constants and the lines of their
code. -/
def sameHead (h : Heap) (s t : Template) : Bool :=
  s.name == t.name && s.arity == t.arity && s.variadic == t.variadic &&
    s.localCount == t.localCount && s.upvalueCount == t.upvalueCount &&
    (h.chunk s.chunk).code == (h.chunk t.chunk).code

/-- Compare two values, going at most `limit` deep. The memory of pairs is passed on, and
returned with the answer. -/
def equalWithin (h : Heap) : (limit : Nat) → Seen → Value → Value → Option (Bool × Seen)
  | 0, _, _, _ => none
  | limit + 1, seen, a, b =>
    match a, b with
    | .nil, .nil => some (true, seen)
    | .bool x, .bool y => some (x == y, seen)
    | .number x, .number y => some (x.equal y, seen)
    | .string x, .string y => some (x == y, seen)
    | .array i, .array j =>
      if i = j || seen.contains (a, b) then some (true, seen)
      else if (h.array i).size = (h.array j).size then
        allEqual (h.equalWithin limit) ((a, b) :: seen) (elementPairs (h.array i) (h.array j))
      else some (false, (a, b) :: seen)
    | .map i, .map j =>
      if i = j || seen.contains (a, b) then some (true, seen)
      else if (h.map i).size = (h.map j).size then
        allEqual (h.equalWithin limit) ((a, b) :: seen) (entryPairs (h.map i) (h.map j))
      else some (false, (a, b) :: seen)
    | .function i, .function j =>
      let s := h.template i
      let t := h.template j
      let xs := (h.chunk s.chunk).constants
      let ys := (h.chunk t.chunk).constants
      if i = j then some (true, seen)
      else if h.sameHead s t && xs.size == ys.size then
        match allEqual (fun _ => h.equalWithin limit []) [] (elementPairs xs ys) with
        | some (same, _) =>
          some (same && (h.chunk s.chunk).lines == (h.chunk t.chunk).lines, seen)
        | none => none
      else some (false, seen)
    | .closure i, .closure j => some (i == j, seen)
    | .native i, .native j => some (i == j, seen)
    | .boundMethod x m, .boundMethod y n =>
      if m = n then h.equalWithin limit seen x y else some (false, seen)
    | .channel i, .channel j => some (i == j, seen)
    | .task i, .task j => some ((h.handle i).id == (h.handle j).id, seen)
    | .error x, .error y => some (x.equal y, seen)
    | _, _ => some (false, seen)

/-- The value has parts that equality looks at. -/
def hasParts : Value → Bool
  | .array _ | .map _ | .function _ | .boundMethod _ _ => true
  | _ => false

/-- More than a comparison that ends can go deep. Between two functions whose constants are
compared, no pair of collections is entered twice, and between two collections there are
only bound methods; and a pair of functions inside itself means that there is no end. -/
def equalityLimit (h : Heap) (a b : Value) : Nat :=
  if hasParts a && hasParts b then
    (h.collections * h.collections + 2) * (h.deepest + a.depth + b.depth + 2) *
      (h.templates.size * h.templates.size + 2)
  else 1

/-- Whether two values are equal, unless the comparison would go on for ever. -/
def equal? (h : Heap) (a b : Value) : Option Bool :=
  (h.equalWithin (h.equalityLimit a b) [] a b).map (·.1)

/-- Whether two maps have the same keys with equal values. -/
def mapsEqual? (h : Heap) (m n : OrderedMap Value) : Option Bool :=
  if m.size = n.size then
    let limit := (entryPairs m n).foldl
      (fun l p => max l (h.equalityLimit p.1 (p.2.getD .nil))) 0
    (allEqual (h.equalWithin limit) [] (entryPairs m n)).map (·.1)
  else some false

/-- Whether two chunks have the same code, equal constants and the same lines. -/
def chunksEqual? (h : Heap) (c d : Chunk) : Option Bool :=
  if c.code == d.code && c.constants.size == d.constants.size then
    let eq := fun _ a b => h.equalWithin (h.equalityLimit a b) [] a b
    (allEqual eq [] (elementPairs c.constants d.constants)).map fun r =>
      r.1 && c.lines == d.lines
  else some false

end TaskVm.Heap
