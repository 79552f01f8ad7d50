import TaskVm.Heap.Render
import TaskVm.Number.Percent

/-!
# Listings

A chunk as text: its constants with their numbers, then a line for each instruction and for
each byte that begins none. The line column shows a bar where the source line is that of the
line above.
-/

namespace TaskVm.Heap

/-- The text of a constant: strings quoted, functions with their parameters. -/
def constantText (h : Heap) : Value → String
  | .string s => Text.quote s
  | .function i =>
    let t := h.template i
    let dots := if t.variadic then ", ..." else ""
    "<fn " ++ t.name ++ "(" ++ toString t.arity.toNat ++ dots ++ ")>"
  | other => h.display other

/-- A byte to base 16. -/
def byteText (b : UInt8) : String :=
  "0x" ++ Text.hexOfBytes [b]

/-- One capture of a closure instruction. -/
def captureText (code : Code) (place : Nat) : String :=
  let source := if code.byteAt place != 0 then "local " else "upvalue "
  source ++ toString (code.byteAt (place + 1)).toNat

/-- A two-byte operand as a signed number. -/
def offsetAt (code : Code) (place : Nat) : Int :=
  let w := (code.wordAt place).toNat
  if w < 32768 then w else (w : Int) - 65536

/-- The operands of an instruction, as a listing shows them. -/
def operandText (h : Heap) (c : Chunk) (offset length : Nat) (op : Opcode) : String :=
  let word := (c.code.wordAt (offset + 1)).toNat
  let byte := (c.code.byteAt (offset + 1)).toNat
  match op with
  | .constant | .defineGlobal | .getGlobal | .setGlobal | .isType =>
    let value := match c.constants[word]? with
      | some v => h.constantText v
      | none => "<missing>"
    " " ++ toString word ++ " (" ++ value ++ ")"
  | .getLocal | .setLocal | .catchInto | .newArray | .buildList | .newMap | .buildMap =>
    " " ++ toString word
  | .loadFast | .storeFast | .getUpvalue | .setUpvalue | .call | .spawn | .unpack =>
    " " ++ toString byte
  | .jump | .jumpIfFalse | .loop | .tryBegin =>
    let jump := offsetAt c.code (offset + 1)
    " " ++ toString jump ++ " (-> " ++ padZeros 4 ((offset + length : Nat) + jump) ++ ")"
  | .makeClosure =>
    let name := match c.constants[word]? with
      | some (.function i) => (h.template i).name
      | _ => "?"
    let count := (c.code.byteAt (offset + 3)).toNat
    let captures := (List.range count).map fun i => captureText c.code (offset + 4 + 2 * i)
    " " ++ toString word ++ " (" ++ name ++ ")" ++
      if captures.isEmpty then "" else " [" ++ ", ".intercalate captures ++ "]"
  | .select =>
    let kinds := (List.range byte).map fun i =>
      if c.code.byteAt (offset + 3 + i) == 1 then "send" else "recv"
    let flags := (c.code.byteAt (offset + 2)).toNat
    " " ++ toString byte ++ " [" ++ ", ".intercalate kinds ++ "]" ++
      if flags % 2 == 1 then " +default" else ""
  | _ => ""

/-- Where a piece of code begins. -/
def itemOffset : Code.Item → Nat
  | .instruction offset _ => offset
  | .invalid offset => offset

/-- What a piece of code is. -/
def itemText (h : Heap) (c : Chunk) : Code.Item → String
  | .invalid offset => "<invalid: " ++ byteText (c.code.byteAt offset) ++ ">"
  | .instruction offset length =>
    match c.code.opcode? offset with
    | some op => op.name ++ h.operandText c offset length op
    | none => ""

/-- The lines of a listing, given the source line of the line above. -/
def itemLines (h : Heap) (c : Chunk) : Option Int32 → List Code.Item → List String
  | _, [] => []
  | previous, item :: rest =>
    let line := c.lineAt (itemOffset item)
    let column := if previous = some line then "   |" else padLeft 4 (toString line.toInt)
    (padZeros 4 (itemOffset item) ++ " " ++ column ++ "  " ++ h.itemText c item ++ "\n") ::
      h.itemLines c (some line) rest

/-- The lines of the constants, with a heading; none for an empty pool. -/
def constantLines (h : Heap) (c : Chunk) : List String :=
  if c.constants.isEmpty then []
  else
    ["=== Constants ===\n"] ++
      (c.constants.toList.zipIdx.map fun v =>
        toString v.2 ++ ": " ++ h.constantText v.1 ++ "\n") ++ ["\n"]

/-- The listing of a chunk. -/
def listing (h : Heap) (c : Chunk) : String :=
  String.join
    (h.constantLines c ++ ["=== Instructions ===\n"] ++ h.itemLines c none c.code.items)

end TaskVm.Heap
