import TaskVm.Heap

/-!
# Open upvalues

While a frame is active, the variables captured from it live on the stack, and a cell only
says where. Each task keeps its open cells sorted by slot, so that leaving a frame closes
everything at or above its base in one cut. Two captures of one slot share a cell.
-/

namespace TaskVm

/-- A task's open cells, each with the stack slot it names, lowest first. -/
structure OpenUpvalues where
  cells : List (Nat × CellId) := []
deriving DecidableEq, Inhabited

namespace OpenUpvalues

/-- The cell of a slot, if one is open. -/
def cell? (u : OpenUpvalues) (slot : Nat) : Option CellId :=
  (u.cells.find? fun c => c.1 == slot).map (·.2)

/-- Put a cell where its slot belongs. -/
def insertSorted (slot : Nat) (id : CellId) : List (Nat × CellId) → List (Nat × CellId)
  | [] => [(slot, id)]
  | c :: cs => if c.1 < slot then c :: insertSorted slot id cs else (slot, id) :: c :: cs

/-- A cell that is found is one of the open cells. -/
theorem mem_of_cell? {u : OpenUpvalues} {slot : Nat} {id : CellId} (h : u.cell? slot = some id) :
    (slot, id) ∈ u.cells := by
  obtain ⟨c, hc, rfl⟩ := Option.map_eq_some_iff.mp h
  have hs := List.find?_some hc
  rw [← beq_iff_eq.mp hs]
  exact List.mem_of_find?_eq_some hc

/-- Where none is found there is none. -/
theorem ne_of_cell? {u : OpenUpvalues} {slot : Nat} (h : u.cell? slot = none) :
    ∀ c ∈ u.cells, c.1 ≠ slot := by
  intro c hc heq
  exact List.find?_eq_none.mp (Option.map_eq_none_iff.mp h) c hc (beq_iff_eq.mpr heq)

theorem mem_insertSorted {slot : Nat} {id : CellId} {c : Nat × CellId} :
    ∀ {cs : List (Nat × CellId)}, c ∈ insertSorted slot id cs ↔ c = (slot, id) ∨ c ∈ cs
  | [] => by simp [insertSorted]
  | d :: ds => by
    unfold insertSorted
    split
    · rw [List.mem_cons, mem_insertSorted, List.mem_cons]
      exact or_left_comm
    · rw [List.mem_cons]

/-- The cell of a slot, made on first capture. -/
def capture (u : OpenUpvalues) (h : Heap) (task : TaskId) (slot : Nat) :
    CellId × OpenUpvalues × Heap :=
  match u.cell? slot with
  | some id => (id, u, h)
  | none =>
    let (id, h) := h.newCell (.onStack task slot)
    (id, ⟨insertSorted slot id u.cells⟩, h)

/-- Capturing touches cells only. -/
theorem capture_frame (u : OpenUpvalues) (h : Heap) (task : TaskId) (slot : Nat) :
    (u.capture h task slot).2.2 = { h with cells := (u.capture h task slot).2.2.cells } := by
  unfold capture
  split <;> rfl

/-- After a capture the cell is open, and so is what was open before. -/
theorem mem_capture (u : OpenUpvalues) (h : Heap) (task : TaskId) (slot : Nat) :
    (slot, (u.capture h task slot).1) ∈ (u.capture h task slot).2.1.cells ∧
      ∀ c ∈ u.cells, c ∈ (u.capture h task slot).2.1.cells := by
  unfold capture
  split
  · rename_i id hid
    exact ⟨mem_of_cell? hid, fun c hc => hc⟩
  · exact ⟨mem_insertSorted.mpr (.inl rfl), fun c hc => mem_insertSorted.mpr (.inr hc)⟩

/-- Give each of some cells the value its slot has; a slot that is gone counts as nil. -/
def closeCells (h : Heap) (stack : Array Value) (cells : List (Nat × CellId)) : Heap :=
  cells.foldl (fun h c => h.setCell c.2 (.closed (stack.getD c.1 .nil))) h

/-- Closing touches cells only. -/
theorem closeCells_frame (stack : Array Value) (cells : List (Nat × CellId)) (h : Heap) :
    closeCells h stack cells = { h with cells := (closeCells h stack cells).cells } := by
  induction cells generalizing h with
  | nil => rfl
  | cons c cs ih =>
    rw [closeCells, List.foldl_cons]
    exact ih _

/-- Close the cells of the slots at or above a base. -/
def closeFrom (u : OpenUpvalues) (h : Heap) (base : Nat) (stack : Array Value) :
    OpenUpvalues × Heap :=
  (⟨u.cells.takeWhile fun c => c.1 < base⟩,
    closeCells h stack (u.cells.dropWhile fun c => c.1 < base))

/-- Close all cells. -/
def closeAll (u : OpenUpvalues) (h : Heap) (stack : Array Value) : OpenUpvalues × Heap :=
  u.closeFrom h 0 stack

theorem closeFrom_frame (u : OpenUpvalues) (h : Heap) (base : Nat) (stack : Array Value) :
    (u.closeFrom h base stack).2 = { h with cells := (u.closeFrom h base stack).2.cells } :=
  closeCells_frame stack _ h

theorem closeAll_frame (u : OpenUpvalues) (h : Heap) (stack : Array Value) :
    (u.closeAll h stack).2 = { h with cells := (u.closeAll h stack).2.cells } :=
  u.closeFrom_frame h 0 stack

end OpenUpvalues

end TaskVm
