import TaskVm.Chunk.Listing

/-!
# Pieces of code

Any byte string falls into whole instructions and single bytes that begin none, one after the
other, and each byte is in one of them. So a listing, which shows the pieces, leaves nothing out,
and what it reads to show a piece is within that piece.

That it reads nothing else is said with a second listing, which gives up where it would have to
read a byte that is not there. It never gives up, and it is the same text.
-/

namespace TaskVm

namespace Code

variable {code : Code} {offset length : Nat}

theorem instructionLength?_eq_some : code.instructionLength? offset = some length ↔
    ∃ op tail, code.opcode? offset = some op ∧ code.tailLength? offset op = some tail ∧
      length = 1 + op.operandSize + tail ∧ offset + length ≤ code.size := by
  unfold instructionLength? opcode?
  cases code[offset]?.bind Opcode.ofByte? with
  | none => simp
  | some op =>
    cases htail : code.tailLength? offset op with
    | none => simp [htail]
    | some tail =>
      simp only [htail]
      split
      · rename_i hfits
        constructor
        · rintro ⟨⟩
          exact ⟨op, tail, rfl, htail, rfl, hfits⟩
        · rintro ⟨_, _, ⟨⟩, ht, rfl, -⟩
          rw [htail] at ht
          cases ht
          rfl
      · rename_i hover
        constructor
        · nofun
        · rintro ⟨_, _, ⟨⟩, ht, rfl, hfits⟩
          rw [htail] at ht
          cases ht
          exact absurd hfits hover

/-! ## No byte is left out -/

/-- The bytes of a piece. -/
def Item.bytes : Item → List Nat
  | .instruction offset length => List.range' offset length
  | .invalid offset => [offset]

/-- A piece is a whole instruction, or a byte that begins none. -/
def Item.Fits (code : Code) : Item → Prop
  | .instruction offset length => code.instructionLength? offset = some length
  | .invalid offset => offset < code.size ∧ code.instructionLength? offset = none

theorem itemsFrom_bytes : ∀ (fuel offset : Nat), code.size ≤ offset + fuel →
    (code.itemsFrom offset fuel).flatMap Item.bytes = List.range' offset (code.size - offset)
  | 0, offset, hfuel => by
    rw [itemsFrom, Nat.sub_eq_zero_of_le (by omega)]
    rfl
  | fuel + 1, offset, hfuel => by
    rw [itemsFrom]
    split
    · rename_i hlt
      split
      · rename_i length hlength
        -- No instruction is empty or goes beyond the end, so that the rest is shorter.
        obtain ⟨hpos, hwithin⟩ := instructionLength?_bounds hlength
        rw [List.flatMap_cons, itemsFrom_bytes fuel (offset + length) (by omega), Item.bytes,
          List.range'_append_1]
        congr 1
        omega
      · rw [List.flatMap_cons, itemsFrom_bytes fuel (offset + 1) (by omega), Item.bytes,
          List.singleton_append, ← List.range'_succ]
        congr 1
        omega
    · rename_i hend
      rw [Nat.sub_eq_zero_of_le (Nat.le_of_not_lt hend)]
      rfl

/-- **Each byte is in one piece**, and the pieces are in the order of the bytes. -/
theorem items_bytes (code : Code) : code.items.flatMap Item.bytes = List.range code.size := by
  rw [items, itemsFrom_bytes code.size 0 (by omega), Nat.sub_zero, List.range_eq_range']

theorem itemsFrom_fits : ∀ (fuel offset : Nat), ∀ item ∈ code.itemsFrom offset fuel, item.Fits code
  | 0, _, _, hitem => nomatch hitem
  | fuel + 1, offset, item, hitem => by
    rw [itemsFrom] at hitem
    split at hitem
    · rename_i hlt
      split at hitem
      · rename_i length hlength
        rcases List.mem_cons.mp hitem with rfl | hitem
        · exact hlength
        · exact itemsFrom_fits fuel _ item hitem
      · rename_i hnone
        rcases List.mem_cons.mp hitem with rfl | hitem
        · exact ⟨hlt, hnone⟩
        · exact itemsFrom_fits fuel _ item hitem
    · cases hitem

theorem items_fits : ∀ item ∈ code.items, item.Fits code := itemsFrom_fits code.size 0

/-- There are not more pieces than bytes, so that it does not matter how many are allowed. -/
theorem itemsFrom_enough : ∀ (fuel fuel' offset : Nat), code.size ≤ offset + fuel →
    code.size ≤ offset + fuel' → code.itemsFrom offset fuel = code.itemsFrom offset fuel'
  | 0, 0, _, _, _ => rfl
  | 0, fuel' + 1, offset, hfuel, _ => by
    have hend : ¬ offset < code.size := Nat.not_lt_of_le hfuel
    rw [itemsFrom, itemsFrom, if_neg hend]
  | fuel + 1, 0, offset, _, hfuel' => by
    have hend : ¬ offset < code.size := Nat.not_lt_of_le hfuel'
    rw [itemsFrom, itemsFrom, if_neg hend]
  | fuel + 1, fuel' + 1, offset, hfuel, hfuel' => by
    rw [itemsFrom, itemsFrom]
    split
    · split
      · rename_i length hlength
        obtain ⟨hpos, -⟩ := instructionLength?_bounds hlength
        rw [itemsFrom_enough fuel fuel' (offset + length) (by omega) (by omega)]
      · rw [itemsFrom_enough fuel fuel' (offset + 1) (by omega) (by omega)]
    · rfl

/-- The pieces from an offset to the end. -/
def itemsBehind (code : Code) (offset : Nat) : List Item :=
  code.itemsFrom offset (code.size - offset)

theorem itemsBehind_instruction (h : code.instructionLength? offset = some length) :
    code.itemsBehind offset = .instruction offset length :: code.itemsBehind (offset + length) := by
  obtain ⟨hpos, hwithin⟩ := instructionLength?_bounds h
  have hlt : offset < code.size := by omega
  obtain ⟨fuel, hfuel⟩ : ∃ fuel, code.size - offset = fuel + 1 := ⟨code.size - offset - 1, by omega⟩
  rw [itemsBehind, hfuel, itemsFrom, if_pos hlt, h]
  dsimp only
  rw [itemsBehind, itemsFrom_enough fuel (code.size - (offset + length)) _ (by omega) (by omega)]

/-- A piece is an instruction. -/
def Item.isInstruction : Item → Bool
  | .instruction _ _ => true
  | .invalid _ => false

theorem leadingInstructions_eq (code : Code) :
    code.leadingInstructions = code.items.takeWhile Item.isInstruction := rfl

theorem itemsBehind_invalid (h : code.instructionLength? offset = none) :
    (code.itemsBehind offset).takeWhile Item.isInstruction = [] := by
  rw [itemsBehind]
  cases code.size - offset with
  | zero => rfl
  | succ fuel =>
    rw [itemsFrom]
    split
    · rw [h]
      rfl
    · rfl

/-! ## Reading only what is there -/

/-- The two bytes at an offset as an unsigned number, if they are there. -/
def wordAt? (code : Code) (offset : Nat) : Option UInt16 := do
  let hi ← code[offset]?
  let lo ← code[offset + 1]?
  pure (UInt16.ofNat (hi.toNat * 256 + lo.toNat))

theorem getElem?_byteAt (h : offset < code.size) : code[offset]? = some (code.byteAt offset) := by
  rw [byteAt, Array.getD_eq_getD_getElem?, Array.getElem?_eq_getElem h, Option.getD_some]

theorem wordAt?_eq (h : offset + 1 < code.size) :
    code.wordAt? offset = some (code.wordAt offset) := by
  rw [wordAt?, getElem?_byteAt (Nat.lt_of_succ_lt h), getElem?_byteAt h]
  rfl

end Code

namespace Heap

variable {h : Heap} {c : Chunk} {offset length : Nat}

/-- The text of a capture, if its bytes are there. -/
def captureText? (code : Code) (place : Nat) : Option String := do
  let isLocal ← code[place]?
  let index ← code[place + 1]?
  let source := if isLocal != 0 then "local " else "upvalue "
  pure (source ++ toString index.toNat)

/-- The text of a case of a select, if its byte is there. -/
def kindText? (code : Code) (place : Nat) : Option String :=
  code[place]?.map fun kind => if kind == 1 then "send" else "recv"

/-- The text of operands, if their bytes are there. -/
def operandText? (h : Heap) (c : Chunk) (offset length : Nat) : Opcode → Option String
  | .constant | .defineGlobal | .getGlobal | .setGlobal | .isType => do
    let word := (← c.code.wordAt? (offset + 1)).toNat
    let value := match c.constants[word]? with
      | some v => h.constantText v
      | none => "<missing>"
    pure (" " ++ toString word ++ " (" ++ value ++ ")")
  | .getLocal | .setLocal | .catchInto | .newArray | .buildList | .newMap | .buildMap => do
    pure (" " ++ toString (← c.code.wordAt? (offset + 1)).toNat)
  | .loadFast | .storeFast | .getUpvalue | .setUpvalue | .call | .spawn | .unpack => do
    pure (" " ++ toString (← c.code[offset + 1]?).toNat)
  | .jump | .jumpIfFalse | .loop | .tryBegin => do
    let word := (← c.code.wordAt? (offset + 1)).toNat
    let jump : Int := if word < 32768 then word else (word : Int) - 65536
    pure (" " ++ toString jump ++ " (-> " ++ padZeros 4 ((offset + length : Nat) + jump) ++ ")")
  | .makeClosure => do
    let word := (← c.code.wordAt? (offset + 1)).toNat
    let name := match c.constants[word]? with
      | some (.function i) => (h.template i).name
      | _ => "?"
    let count := (← c.code[offset + 3]?).toNat
    let captures ← (List.range count).mapM fun i => captureText? c.code (offset + 4 + 2 * i)
    pure (" " ++ toString word ++ " (" ++ name ++ ")" ++
      if captures.isEmpty then "" else " [" ++ ", ".intercalate captures ++ "]")
  | .select => do
    let count := (← c.code[offset + 1]?).toNat
    let flags := (← c.code[offset + 2]?).toNat
    let kinds ← (List.range count).mapM fun i => kindText? c.code (offset + 3 + i)
    pure (" " ++ toString count ++ " [" ++ ", ".intercalate kinds ++ "]" ++
      if flags % 2 == 1 then " +default" else "")
  | _ => some ""

/-- What a piece of code is, if its bytes are there. -/
def itemText? (h : Heap) (c : Chunk) : Code.Item → Option String
  | .invalid offset => do
    pure ("<invalid: " ++ byteText (← c.code[offset]?) ++ ">")
  | .instruction offset length => do
    let op ← Opcode.ofByte? (← c.code[offset]?)
    pure (op.name ++ (← h.operandText? c offset length op))

theorem mapM_eq_some {α β : Type} {f : α → Option β} {g : α → β} : ∀ {xs : List α},
    (∀ x ∈ xs, f x = some (g x)) → xs.mapM f = some (xs.map g)
  | [], _ => rfl
  | x :: xs, hf => by
    rw [List.mapM_cons, hf x List.mem_cons_self,
      mapM_eq_some fun y hy => hf y (List.mem_cons_of_mem x hy)]
    rfl

theorem captureText?_eq {code : Code} {place : Nat} (h : place + 1 < code.size) :
    captureText? code place = some (captureText code place) := by
  rw [captureText?, Code.getElem?_byteAt (Nat.lt_of_succ_lt h), Code.getElem?_byteAt h]
  rfl

theorem makeClosureText?_eq {tail : Nat}
    (htail : c.code.tailLength? offset .makeClosure = some tail)
    (hfits : offset + (4 + tail) ≤ c.code.size) :
    h.operandText? c offset length .makeClosure =
      some (h.operandText c offset length .makeClosure) := by
  have hcount : c.code[offset + 3]? = some (c.code.byteAt (offset + 3)) :=
    Code.getElem?_byteAt (by omega)
  simp only [Code.tailLength?, hcount, Option.map_some, Option.some.injEq] at htail
  have hcaptures : (List.range (c.code.byteAt (offset + 3)).toNat).mapM
      (fun i => captureText? c.code (offset + 4 + 2 * i)) = some
        ((List.range (c.code.byteAt (offset + 3)).toNat).map
          fun i => captureText c.code (offset + 4 + 2 * i)) := by
    refine mapM_eq_some fun i hi => captureText?_eq ?_
    have hlt := List.mem_range.mp hi
    omega
  rw [operandText?, Code.wordAt?_eq (by omega), Option.bind_eq_bind, Option.bind_some, hcount,
    Option.bind_eq_bind, Option.bind_some]
  dsimp only
  rw [hcaptures]
  rfl

theorem selectText?_eq {tail : Nat} (htail : c.code.tailLength? offset .select = some tail)
    (hfits : offset + (3 + tail) ≤ c.code.size) :
    h.operandText? c offset length .select = some (h.operandText c offset length .select) := by
  have hcount : c.code[offset + 1]? = some (c.code.byteAt (offset + 1)) :=
    Code.getElem?_byteAt (by omega)
  have hflags : c.code[offset + 2]? = some (c.code.byteAt (offset + 2)) :=
    Code.getElem?_byteAt (by omega)
  simp only [Code.tailLength?, hcount, Option.map_some, Option.some.injEq] at htail
  have hkinds : (List.range (c.code.byteAt (offset + 1)).toNat).mapM
      (fun i => kindText? c.code (offset + 3 + i)) = some
        ((List.range (c.code.byteAt (offset + 1)).toNat).map
          fun i => if c.code.byteAt (offset + 3 + i) == 1 then "send" else "recv") := by
    refine mapM_eq_some fun i hi => ?_
    have hlt := List.mem_range.mp hi
    rw [kindText?, Code.getElem?_byteAt (by omega), Option.map_some]
  rw [operandText?, hcount, Option.bind_eq_bind, Option.bind_some, hflags, Option.bind_eq_bind,
    Option.bind_some, hkinds]
  rfl

/-- The operands of a whole instruction are there. -/
theorem operandText?_eq {op : Opcode} {tail : Nat}
    (htail : c.code.tailLength? offset op = some tail)
    (hfits : offset + (1 + op.operandSize + tail) ≤ c.code.size) :
    h.operandText? c offset length op = some (h.operandText c offset length op) := by
  have hword (hsize : op.operandSize = 2) :
      c.code.wordAt? (offset + 1) = some (c.code.wordAt (offset + 1)) :=
    Code.wordAt?_eq (by omega)
  have hbyte (hsize : op.operandSize = 1) :
      c.code[offset + 1]? = some (c.code.byteAt (offset + 1)) :=
    Code.getElem?_byteAt (by omega)
  -- Only two opcodes have more operands than their size says.
  cases op
  case makeClosure => exact makeClosureText?_eq htail hfits
  case select => exact selectText?_eq htail hfits
  all_goals
    first
      | rfl
      | (simp only [operandText?, hword rfl]; rfl)
      | (simp only [operandText?, hbyte rfl]; rfl)

/-- A piece is shown without reading past its end. -/
theorem itemText?_eq {item : Code.Item} (hitem : item.Fits c.code) :
    h.itemText? c item = some (h.itemText c item) := by
  cases item with
  | invalid offset =>
    rw [itemText?, Code.getElem?_byteAt hitem.1]
    rfl
  | instruction offset length =>
    obtain ⟨op, tail, hop, htail, rfl, hfits⟩ := Code.instructionLength?_eq_some.mp hitem
    obtain ⟨byte, hbyte, hdecode⟩ := Option.bind_eq_some_iff.mp hop
    rw [itemText?, hbyte, Option.bind_eq_bind, Option.bind_some, hdecode, Option.bind_eq_bind,
      Option.bind_some, operandText?_eq htail hfits, itemText, hop]
    rfl

/-- The lines of a listing, if all their bytes are there. -/
def itemLines? (h : Heap) (c : Chunk) : Option Int32 → List Code.Item → Option (List String)
  | _, [] => some []
  | previous, item :: rest => do
    let line := c.lineAt (itemOffset item)
    let column := if previous = some line then "   |" else padLeft 4 (toString line.toInt)
    let text ← h.itemText? c item
    let lines ← h.itemLines? c (some line) rest
    pure ((padZeros 4 (itemOffset item) ++ " " ++ column ++ "  " ++ text ++ "\n") :: lines)

theorem itemLines?_eq : ∀ (previous : Option Int32) (items : List Code.Item),
    (∀ item ∈ items, item.Fits c.code) →
    h.itemLines? c previous items = some (h.itemLines c previous items)
  | _, [], _ => rfl
  | previous, item :: rest, hitems => by
    have hrest := itemLines?_eq (some (c.lineAt (itemOffset item))) rest fun i hi =>
      hitems i (List.mem_cons_of_mem item hi)
    rw [itemLines?, itemText?_eq (hitems item List.mem_cons_self), Option.bind_eq_bind,
      Option.bind_some, hrest]
    rfl

/-- The listing of a chunk, if it can be made from the bytes that are there. -/
def listing? (h : Heap) (c : Chunk) : Option String := do
  let lines ← h.itemLines? c none c.code.items
  pure (String.join (h.constantLines c ++ ["=== Instructions ===\n"] ++ lines))

/-- **A listing reads nothing past the end of the code**, whatever the code is. -/
theorem listing?_eq (h : Heap) (c : Chunk) : h.listing? c = some (h.listing c) := by
  rw [listing?, itemLines?_eq none c.code.items Code.items_fits]
  rfl

end Heap

end TaskVm
