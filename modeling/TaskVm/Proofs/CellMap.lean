import TaskVm.Proofs.Upvalues

/-!
# Open cells as a map

What a task has open is a map from slots to cells, kept as a list in the order of the slots. Three
calls change it: a slot is captured, the slots from a base on are closed, or all of them are. Here
nothing is asked of the calls. They may come in any order, with any slots, bases and stacks.

Each call keeps the list in order, and keeps each listed cell open for the slot that it is listed
with. A cell leaves the list only by being closed, and a closed cell is never listed again. So two
captures give the same cell exactly if no call in between has closed it.
-/

namespace TaskVm

/-- A call on the open cells of a task. -/
inductive CellCall where
  | capture (slot : Nat)
  | closeFrom (base : Nat) (stack : Array Value)
  | closeAll (stack : Array Value)
deriving DecidableEq

/-- The call closes a slot, if anything is open for it. -/
def CellCall.closes (slot : Nat) : CellCall → Bool
  | capture _ => false
  | closeFrom base _ => base ≤ slot
  | closeAll _ => true

namespace OpenUpvalues

/-- The open cells after a call of their task, and the heap. -/
def call (task : TaskId) (s : OpenUpvalues × Heap) : CellCall → OpenUpvalues × Heap
  | .capture slot => (s.1.capture s.2 task slot).2
  | .closeFrom base stack => s.1.closeFrom s.2 base stack
  | .closeAll stack => s.1.closeAll s.2 stack

/-- The open cells and the heap after calls one after the other. -/
def calls (task : TaskId) (s : OpenUpvalues × Heap) (cs : List CellCall) : OpenUpvalues × Heap :=
  cs.foldl (call task) s

/-- The list is in order, and what it lists is open. -/
structure Sound (u : OpenUpvalues) (h : Heap) (task : TaskId) : Prop where
  sorted : u.cells.Pairwise fun lower upper => lower.1 < upper.1
  /-- Each cell points at the slot that it is listed with, on the stack of the task. -/
  opened : ∀ c ∈ u.cells, h.cells[c.2]? = some (.onStack task c.1)

/-- What closing from a base on makes of open cells and a heap. -/
structure ClosedFrom (base : Nat) (stack : Array Value) (u : OpenUpvalues) (h : Heap)
    (u' : OpenUpvalues) (h' : Heap) : Prop where
  listed : ∀ c, c ∈ u'.cells ↔ c ∈ u.cells ∧ c.1 < base
  /-- What is closed has the value of its slot, and nil where the stack does not have the slot. -/
  closed : ∀ c ∈ u.cells, base ≤ c.1 → h'.cells[c.2]? = some (.closed (stack[c.1]?.getD .nil))
  others : ∀ id, (∀ c ∈ u.cells, base ≤ c.1 → c.2 ≠ id) → h'.cells[id]? = h.cells[id]?
  frame : h' = { h with cells := h'.cells }

variable {task : TaskId} {u : OpenUpvalues} {h : Heap} {s : OpenUpvalues × Heap} {slot slot' : Nat}
  {id : CellId} {v : Value}

theorem sound_empty (h : Heap) (task : TaskId) : Sound {} h task where
  sorted := List.Pairwise.nil
  opened := nofun

namespace Sound

/-- A cell is listed once only. -/
theorem slot_unique (hu : u.Sound h task) (hslot : (slot, id) ∈ u.cells)
    (hslot' : (slot', id) ∈ u.cells) : slot' = slot := by
  have heq := (hu.opened (slot', id) hslot').symm.trans (hu.opened (slot, id) hslot)
  injection heq with heq
  exact (Cell.onStack.inj heq).2

theorem lt_size (hu : u.Sound h task) (hmem : (slot, id) ∈ u.cells) : id < h.cells.size :=
  (Array.getElem?_eq_some_iff.mp (hu.opened _ hmem)).1

/-- What is closed is not listed. -/
theorem not_mem_of_closed (hu : u.Sound h task) (hc : h.cells[id]? = some (.closed v)) :
    (slot, id) ∉ u.cells := by
  intro hmem
  cases (hu.opened _ hmem).symm.trans hc

/-- The cell of a slot is the one that is listed with it. -/
theorem cell?_eq_some (hu : u.Sound h task) : u.cell? slot = some id ↔ (slot, id) ∈ u.cells := by
  refine ⟨mem_of_cell?, fun hmem => ?_⟩
  obtain ⟨l₁, l₂, hsplit⟩ := List.append_of_mem hmem
  have hsorted := hu.sorted
  rw [hsplit, List.pairwise_append] at hsorted
  have hfind : u.cells.find? (fun c => c.1 == slot) = some (slot, id) := by
    rw [hsplit, List.find?_append, List.find?_eq_none.mpr, Option.none_or, List.find?_cons_of_pos]
    · exact beq_self_eq_true slot
    · intro c hc
      have hlt := hsorted.2.2 c hc _ List.mem_cons_self
      exact fun heq => Nat.ne_of_lt hlt (beq_iff_eq.mp heq)
  rw [cell?, hfind, Option.map_some]

/-! ## Captures -/

/-- A capture lists one cell more, if the slot has none. -/
theorem mem_capture_iff (hu : u.Sound h task) (slot : Nat) (c : Nat × CellId) :
    c ∈ (u.capture h task slot).2.1.cells ↔ c = (slot, (u.capture h task slot).1) ∨ c ∈ u.cells := by
  unfold capture
  split
  · rename_i id hid
    refine ⟨.inr, ?_⟩
    rintro (rfl | hc)
    · exact hu.cell?_eq_some.mp hid
    · exact hc
  · exact mem_insertSorted

/-- A capture leaves the cells on the heap alone. -/
theorem capture_old (u : OpenUpvalues) (h : Heap) (task : TaskId) (slot : Nat)
    (hid : id < h.cells.size) : (u.capture h task slot).2.2.cells[id]? = h.cells[id]? := by
  unfold capture
  split
  · rfl
  · rw [Array.getElem?_eq_getElem hid]
    exact Array.getElem?_push_lt hid

theorem capture (hu : u.Sound h task) (slot : Nat) :
    (u.capture h task slot).2.1.Sound (u.capture h task slot).2.2 task := by
  unfold OpenUpvalues.capture
  split
  · exact hu
  · rename_i hnone
    refine ⟨Turn.pairwise_insertSorted hu.sorted (ne_of_cell? hnone), fun c hc => ?_⟩
    rcases mem_insertSorted.mp hc with rfl | hc
    · exact Array.getElem?_push_size
    · exact (Array.getElem?_push_lt (hu.lt_size hc)).trans
        ((Array.getElem?_eq_getElem (hu.lt_size hc)).symm.trans (hu.opened c hc))

/-! ## Closing -/

/-- **Closing from a base on closes the cells of the slots at or above it and no others.** -/
theorem closedFrom (hu : u.Sound h task) (base : Nat) (stack : Array Value) :
    ClosedFrom base stack u h (u.closeFrom h base stack).1 (u.closeFrom h base stack).2 where
  listed c := Storage.mem_takeWhile_slot hu.sorted
  closed c hc hbase := by
    have hdrop := (Storage.mem_dropWhile_slot hu.sorted).mpr ⟨hc, hbase⟩
    rw [← Array.getD_eq_getD_getElem?]
    refine closeCells_mem hdrop (fun slot' hmem => ?_) (hu.lt_size hc)
    exact hu.slot_unique hc ((Storage.mem_dropWhile_slot hu.sorted).mp hmem).1
  others id hne := by
    refine closeCells_other fun slot hmem => ?_
    obtain ⟨hlisted, hbase⟩ := (Storage.mem_dropWhile_slot hu.sorted).mp hmem
    exact hne _ hlisted hbase rfl
  frame := u.closeFrom_frame h _ stack

theorem closeFrom (hu : u.Sound h task) (base : Nat) (stack : Array Value) :
    (u.closeFrom h base stack).1.Sound (u.closeFrom h base stack).2 task where
  sorted := hu.sorted.sublist (List.takeWhile_sublist _)
  opened c hc := by
    have hclosed := hu.closedFrom base stack
    obtain ⟨hlisted, hlow⟩ := (hclosed.listed c).mp hc
    rw [hclosed.others c.2 ?_]
    · exact hu.opened c hlisted
    · rintro ⟨n, id⟩ hd hbase rfl
      have heq := hu.slot_unique hlisted hd
      omega

/-! ## Calls -/

theorem call (hs : s.1.Sound s.2 task) (c : CellCall) :
    (call task s c).1.Sound (OpenUpvalues.call task s c).2 task := by
  cases c with
  | capture slot => exact hs.capture slot
  | closeFrom base stack => exact hs.closeFrom base stack
  | closeAll stack => exact hs.closeFrom 0 stack

/-- **Any calls keep the list in order, and what it lists open.** -/
theorem calls (hs : s.1.Sound s.2 task) (cs : List CellCall) :
    (calls task s cs).1.Sound (OpenUpvalues.calls task s cs).2 task := by
  induction cs generalizing s with
  | nil => exact hs
  | cons c cs ih => exact ih (hs.call c)

/-- A call leaves what is closed alone. -/
theorem closed_call (hs : s.1.Sound s.2 task) (hc : s.2.cells[id]? = some (.closed v))
    (c : CellCall) : (OpenUpvalues.call task s c).2.cells[id]? = some (.closed v) := by
  have hapart : ∀ base, ∀ d ∈ s.1.cells, base ≤ d.1 → d.2 ≠ id := by
    rintro base ⟨n, id⟩ hd - rfl
    exact hs.not_mem_of_closed hc hd
  cases c with
  | capture slot => exact (capture_old _ _ _ _ (Array.getElem?_eq_some_iff.mp hc).1).trans hc
  | closeFrom base stack => exact ((hs.closedFrom base stack).others id (hapart base)).trans hc
  | closeAll stack => exact ((hs.closedFrom 0 stack).others id (hapart 0)).trans hc

/-- **What is closed stays as it is.** -/
theorem closed_calls (hs : s.1.Sound s.2 task) (hc : s.2.cells[id]? = some (.closed v))
    (cs : List CellCall) : (OpenUpvalues.calls task s cs).2.cells[id]? = some (.closed v) := by
  induction cs generalizing s with
  | nil => exact hc
  | cons c cs ih => exact ih (hs.call c) (hs.closed_call hc c)

/-- A listed cell stays listed, or it is closed. -/
theorem listed_call (hs : s.1.Sound s.2 task) (hmem : (slot, id) ∈ s.1.cells) (c : CellCall) :
    if c.closes slot then ∃ v, (OpenUpvalues.call task s c).2.cells[id]? = some (.closed v)
    else (slot, id) ∈ (OpenUpvalues.call task s c).1.cells := by
  have hfrom : ∀ base stack, if base ≤ slot then
      ∃ v, (s.1.closeFrom s.2 base stack).2.cells[id]? = some (.closed v)
      else (slot, id) ∈ (s.1.closeFrom s.2 base stack).1.cells := by
    intro base stack
    have hclosed := hs.closedFrom base stack
    split
    · exact ⟨_, hclosed.closed _ hmem ‹_›⟩
    · exact (hclosed.listed _).mpr ⟨hmem, Nat.lt_of_not_le ‹_›⟩
  cases c with
  | capture slot' => exact (hs.mem_capture_iff slot' _).mpr (.inr hmem)
  | closeFrom base stack =>
    simp only [CellCall.closes, decide_eq_true_eq]
    exact hfrom base stack
  | closeAll stack =>
    have hall := hfrom 0 stack
    rwa [if_pos (Nat.zero_le slot)] at hall

/-- **A listed cell stays listed until a call closes its slot.** After that it is closed. -/
theorem listed_calls (hs : s.1.Sound s.2 task) (hmem : (slot, id) ∈ s.1.cells)
    (cs : List CellCall) : if cs.any (CellCall.closes slot) then
      ∃ v, (OpenUpvalues.calls task s cs).2.cells[id]? = some (.closed v)
      else (slot, id) ∈ (OpenUpvalues.calls task s cs).1.cells := by
  induction cs generalizing s with
  | nil => exact hmem
  | cons c cs ih =>
    have hcall := hs.listed_call hmem c
    rw [List.any_cons]
    cases hcloses : c.closes slot with
    | true =>
      rw [if_pos hcloses] at hcall
      obtain ⟨v, hv⟩ := hcall
      exact ⟨v, (hs.call c).closed_calls hv cs⟩
    | false =>
      rw [if_neg (ne_true_of_eq_false hcloses)] at hcall
      exact ih (hs.call c) hcall

/-- **A cell is captured again if its slot is, and no call in between has closed the slot.** -/
theorem captured_again (hs : s.1.Sound s.2 task) (slot slot' : Nat) (between : List CellCall) :
    let first := s.1.capture s.2 task slot
    let s' := OpenUpvalues.calls task first.2 between
    (s'.1.capture s'.2 task slot').1 = first.1 ↔
      slot' = slot ∧ ∀ c ∈ between, c.closes slot = false := by
  intro first s'
  have hfirst : first.2.1.Sound first.2.2 task := hs.capture slot
  have hcaptured : (slot, first.1) ∈ first.2.1.cells := (hs.mem_capture_iff slot _).mpr (.inl rfl)
  have hs' : s'.1.Sound s'.2 task := hfirst.calls between
  let again := s'.1.capture s'.2 task slot'
  have hlast : again.2.1.Sound again.2.2 task := hs'.capture slot'
  have hagain : (slot', again.1) ∈ again.2.1.cells := (hs'.mem_capture_iff slot' _).mpr (.inl rfl)
  have hnone : (∀ c ∈ between, c.closes slot = false) ↔
      between.any (CellCall.closes slot) = false := by simp
  have hfate := hfirst.listed_calls hcaptured between
  rw [hnone]
  split at hfate
  · -- The first cell is closed by now, and what is captured is open.
    rename_i hany
    obtain ⟨v, hv⟩ := hfate
    have hlt := (Array.getElem?_eq_some_iff.mp hv).1
    have hclosed := (capture_old s'.1 s'.2 task slot' hlt).trans hv
    refine ⟨fun heq => ?_, fun hboth => ?_⟩
    · exact absurd (heq ▸ hagain) (hlast.not_mem_of_closed hclosed)
    · exact absurd hboth.2 (ne_false_of_eq_true hany)
  · -- The first cell is listed still.
    rename_i hany
    have hstill : (slot, first.1) ∈ again.2.1.cells := (hs'.mem_capture_iff slot' _).mpr (.inr hfate)
    refine ⟨fun heq => ⟨?_, eq_false_of_ne_true hany⟩, ?_⟩
    · exact hlast.slot_unique hstill (heq ▸ hagain)
    · rintro ⟨rfl, -⟩
      exact Option.some.inj ((hlast.cell?_eq_some.mpr hagain).symm.trans
        (hlast.cell?_eq_some.mpr hstill))

end Sound

/-- **The open cells of a task are a sorted map of shared cells.** After any calls on no open cells
the list is in order and what it lists is open. Two captures give the same cell exactly if they are
of one slot and no call in between has closed it. Closing from a base on closes what is listed for
the slots at or above it, and leaves the rest listed and open. What has been closed is never touched
again. -/
theorem calls_map_slots (task : TaskId) (h : Heap) (cs : List CellCall) :
    let s := calls task ({}, h) cs
    s.1.Sound s.2 task ∧
      (∀ slot slot' between,
        let first := s.1.capture s.2 task slot
        let s' := calls task first.2 between
        (s'.1.capture s'.2 task slot').1 = first.1 ↔
          slot' = slot ∧ ∀ c ∈ between, c.closes slot = false) ∧
      (∀ base stack,
        let s' := s.1.closeFrom s.2 base stack
        ClosedFrom base stack s.1 s.2 s'.1 s'.2 ∧ s'.1.Sound s'.2 task) ∧
      ∀ (later : List CellCall) (id : CellId) (v : Value), s.2.cells[id]? = some (.closed v) →
        (calls task s later).2.cells[id]? = some (.closed v) := by
  intro s
  have hs : s.1.Sound s.2 task := (sound_empty h task).calls cs
  refine ⟨hs, hs.captured_again, ?_, ?_⟩
  · exact fun base stack => ⟨hs.closedFrom base stack, hs.closeFrom base stack⟩
  · exact fun later _ _ hc => hs.closed_calls hc later

end OpenUpvalues

end TaskVm
