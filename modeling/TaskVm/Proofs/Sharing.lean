import TaskVm.Proofs.Boxes

/-!
# Sharing

A machine keeps what boxes hold when each variable that has a box is either still at its place
on a stack, with a cell that points there, or gone, with its value in the cell. Other cells
belong to nobody and have values of their own.
-/

namespace TaskVm

theorem getElem?_take {α : Type} {xs : Array α} {i n : Nat} (h : i < n) :
    (xs.take n)[i]? = xs[i]? := by
  rw [Array.take, Array.getElem?_extract]
  split
  · rw [Nat.zero_add]
  · rw [Array.getElem?_eq_none (by omega)]

namespace OpenUpvalues

variable {stack : Array Value} {c : CellId} {slot : Nat}

theorem closeCells_size (stack : Array Value) : ∀ (cells : List (Nat × CellId)) (h : Heap),
    (closeCells h stack cells).cells.size = h.cells.size
  | [], _ => rfl
  | _ :: cells, _ => (closeCells_size stack cells _).trans Array.size_setIfInBounds

/-- Cells that are not to be closed are left alone. -/
theorem closeCells_other : ∀ {cells : List (Nat × CellId)} {h : Heap},
    (∀ slot, (slot, c) ∉ cells) → (closeCells h stack cells).cells[c]? = h.cells[c]?
  | [], _, _ => rfl
  | d :: cells, h, hne => by
    show (closeCells (h.setCell d.2 _) stack cells).cells[c]? = _
    rw [closeCells_other fun slot hmem => hne slot (List.mem_cons_of_mem d hmem)]
    refine Array.getElem?_setIfInBounds_ne ?_
    rintro rfl
    exact hne d.1 List.mem_cons_self

/-- A cell that is closed has the value of its slot. -/
theorem closeCells_mem : ∀ {cells : List (Nat × CellId)} {h : Heap}, (slot, c) ∈ cells →
    (∀ slot', (slot', c) ∈ cells → slot' = slot) → c < h.cells.size →
    (closeCells h stack cells).cells[c]? = some (.closed (stack.getD slot .nil))
  | d :: cells, h, hmem, honly, hlt => by
    show (closeCells (h.setCell d.2 _) stack cells).cells[c]? = _
    by_cases hin : (slot, c) ∈ cells
    · refine closeCells_mem hin (fun slot' hmem' => ?_) ?_
      · exact honly slot' (List.mem_cons_of_mem d hmem')
      · rwa [Heap.setCell, Array.size_setIfInBounds]
    · have hd : d = (slot, c) := by
        rcases List.mem_cons.mp hmem with rfl | hmem
        · rfl
        · exact absurd hmem hin
      subst hd
      rw [closeCells_other fun slot' hmem' => ?_]
      · exact Array.getElem?_setIfInBounds_self_of_lt hlt
      · rw [honly slot' (List.mem_cons_of_mem _ hmem')] at hmem'
        exact hin hmem'

end OpenUpvalues

/-- What of a machine concerns variables. -/
@[ext]
structure Store where
  tasks : TaskId → Option Storage
  cells : Array Cell
  closures : Array Closure
  nextId : TaskId

namespace Store

variable {w : Store} {b : Boxes} {id : TaskId} {s s' : Storage} {x : Variable} {c : CellId}
  {v : Value} {slot : Nat}

/-- A cell keeps the value of a variable. -/
inductive Keeps (w : Store) (v : Value) (x : Variable) (c : CellId) : Prop
  | live {s : Storage} {slot : Nat} (hs : w.tasks x.task = some s) (hx : s.Locates x slot)
      (hopen : (slot, c) ∈ s.cells) (hc : w.cells[c]? = some (.onStack x.task slot))
      (hv : s.stack[slot]? = some v)
  | gone (hgone : ∀ s, w.tasks x.task = some s → ∀ p ∈ s.spans, p.activation ≠ x.activation)
      (hc : w.cells[c]? = some (.closed v))

/-- The machine keeps what the boxes hold. -/
structure Shares (w : Store) (b : Boxes) : Prop where
  size : w.cells.size = b.contents.size
  /-- What closures have captured has a cell. -/
  bound : ∀ k ∈ w.closures, ∀ u ∈ k.upvalues, u < w.cells.size
  numbered : ∀ id s, w.tasks id = some s → id < w.nextId
  neat : ∀ id s, w.tasks id = some s → s.Neat
  boxed : ∀ x c, b.box x = some c → ∃ v, b.contents[c]? = some v ∧ w.Keeps v x c
  /-- Frames and tasks that are still to come have no boxes yet. -/
  early : ∀ x c, b.box x = some c →
    x.task < w.nextId ∧ ∀ s, w.tasks x.task = some s → x.activation < s.entered
  opened : ∀ id s, w.tasks id = some s → ∀ slot c, (slot, c) ∈ s.cells →
    ∃ x, b.box x = some c ∧ x.task = id ∧ s.Locates x slot
  single : ∀ x y c, b.box x = some c → b.box y = some c → x = y
  bare : ∀ c v, b.contents[c]? = some v → (∀ x, b.box x ≠ some c) → w.cells[c]? = some (.closed v)

/-- Another state of one task. -/
def put (w : Store) (id : TaskId) (s : Storage) : Store :=
  { w with tasks := fun k => if k = id then some s else w.tasks k }

/-- A task is there no longer. -/
def drop (w : Store) (id : TaskId) : Store :=
  { w with tasks := fun k => if k = id then none else w.tasks k }

theorem put_same (w : Store) (id : TaskId) (s : Storage) : (w.put id s).tasks id = some s :=
  if_pos rfl

theorem put_other (w : Store) {id k : TaskId} (h : k ≠ id) (s : Storage) :
    (w.put id s).tasks k = w.tasks k := if_neg h

/-- Nothing has happened to the variable's task, nor to the cell. -/
theorem Keeps.carry (hk : w.Keeps v x c) {w' : Store} (ht : w'.tasks x.task = w.tasks x.task)
    (hc : w'.cells[c]? = w.cells[c]?) : w'.Keeps v x c := by
  cases hk with
  | live hs hloc hopen hc' hstack => exact .live (ht.trans hs) hloc hopen (hc.trans hc') hstack
  | gone hgone hc' => exact .gone (fun s hs => hgone s (ht.symm.trans hs)) (hc.trans hc')

/-- How a cell keeps a variable of a task that is there. -/
theorem Keeps.own (hk : w.Keeps v x c) (hs : w.tasks id = some s) (hid : x.task = id) :
    (∃ slot, s.Locates x slot ∧ (slot, c) ∈ s.cells ∧
      w.cells[c]? = some (.onStack x.task slot) ∧ s.stack[slot]? = some v) ∨
    (∀ p ∈ s.spans, p.activation ≠ x.activation) ∧ w.cells[c]? = some (.closed v) := by
  subst hid
  cases hk with
  | @live s₁ slot hs₁ hloc hopen hc hstack =>
    have hsame : s₁ = s := Option.some.inj (hs₁.symm.trans hs)
    exact .inl ⟨slot, hsame ▸ hloc, hsame ▸ hopen, hc, hsame ▸ hstack⟩
  | gone hgone hc => exact .inr ⟨hgone s hs, hc⟩

theorem Shares.box_lt (h : w.Shares b) (hx : b.box x = some c) : c < b.contents.size := by
  obtain ⟨v, hv, -⟩ := h.boxed x c hx
  exact (Array.getElem?_eq_some_iff.mp hv).1

/-- A variable whose frame is there is on the stack. -/
theorem Shares.live (h : w.Shares b) (hs : w.tasks x.task = some s) (hbox : b.box x = some c)
    (hx : s.Locates x slot) : (slot, c) ∈ s.cells ∧ w.cells[c]? = some (.onStack x.task slot) ∧
      s.stack[slot]? = b.contents[c]? := by
  obtain ⟨v, hcontents, hkeeps⟩ := h.boxed x c hbox
  rcases hkeeps.own hs rfl with ⟨slot₁, hx₁, hopen, hc, hv⟩ | ⟨hgone, -⟩
  · have hslot := hx.slot_unique (h.neat _ _ hs) hx₁
    subst hslot
    exact ⟨hopen, hc, by rw [hv, hcontents]⟩
  · obtain ⟨p, hp, hact, -, -⟩ := hx
    exact absurd hact (hgone p hp)

/-- An open cell is that of the variable at its slot. -/
theorem Shares.open_box (h : w.Shares b) (hs : w.tasks id = some s) (hopen : (slot, c) ∈ s.cells)
    (hx : s.Locates x slot) (htask : x.task = id) : b.box x = some c := by
  obtain ⟨y, hy, htask', hloc⟩ := h.opened id s hs slot c hopen
  rw [hx.unique (h.neat id s hs) hloc (htask.trans htask'.symm)]
  exact hy

/-- An open cell is that of its slot only. -/
theorem Shares.open_slot (h : w.Shares b) (hs : w.tasks id = some s) {slot' : Nat}
    (hopen : (slot, c) ∈ s.cells) (hopen' : (slot', c) ∈ s.cells) : slot = slot' := by
  obtain ⟨x, hx, -, hloc⟩ := h.opened id s hs slot c hopen
  obtain ⟨y, hy, -, hloc'⟩ := h.opened id s hs slot' c hopen'
  rw [h.single x y c hx hy] at hloc
  exact hloc.slot_unique (h.neat id s hs) hloc'

/-- A cell that points at a stack is that of a variable there. -/
theorem Shares.onStack (h : w.Shares b) {task : TaskId}
    (hc : w.cells[c]? = some (.onStack task slot)) : ∃ x s, b.box x = some c ∧ x.task = task ∧
      w.tasks task = some s ∧ s.Locates x slot ∧ s.stack[slot]? = b.contents[c]? := by
  obtain ⟨hlt, -⟩ := Array.getElem?_eq_some_iff.mp hc
  rw [h.size] at hlt
  have hcontents := Array.getElem?_eq_getElem hlt
  by_cases hbox : ∃ x, b.box x = some c
  · obtain ⟨x, hx⟩ := hbox
    obtain ⟨v, hv, hkeeps⟩ := h.boxed x c hx
    cases hkeeps with
    | @live s slot₁ hs hloc hopen hc' hstack =>
      rw [hc] at hc'
      injection hc' with hc'
      injection hc' with htask hslot
      subst htask hslot
      exact ⟨x, s, hx, rfl, hs, hloc, by rw [hstack, hv]⟩
    | gone hgone hc' =>
      rw [hc] at hc'
      cases hc'
  · have hbare := h.bare c _ hcontents fun x hx => hbox ⟨x, hx⟩
    rw [hc] at hbare
    cases hbare

/-- What a cell is read as. -/
theorem Shares.closed (h : w.Shares b) (hc : w.cells[c]? = some (.closed v)) :
    b.contents[c]? = some v := by
  obtain ⟨hlt, -⟩ := Array.getElem?_eq_some_iff.mp hc
  rw [h.size] at hlt
  have hcontents := Array.getElem?_eq_getElem hlt
  by_cases hbox : ∃ x, b.box x = some c
  · obtain ⟨x, hx⟩ := hbox
    obtain ⟨u, hu, hkeeps⟩ := h.boxed x c hx
    cases hkeeps with
    | live _ _ _ hc' _ =>
      rw [hc] at hc'
      cases hc'
    | gone _ hc' =>
      rw [hc] at hc'
      injection hc' with hc'
      injection hc' with hc'
      rw [hu, hc']
  · have hbare := h.bare c _ hcontents fun x hx => hbox ⟨x, hx⟩
    rw [hc] at hbare
    injection hbare with hbare
    injection hbare with hbare
    rw [hcontents, hbare]

theorem put_self (hs : w.tasks id = some s) : w.put id s = w := by
  refine Store.ext ?_ rfl rfl rfl
  funext k
  show (if k = id then some s else w.tasks k) = w.tasks k
  split
  · rename_i hk
    rw [hk, hs]
  · rfl

theorem put_cases {k : TaskId} {s₁ : Storage} (hk : (w.put id s).tasks k = some s₁) :
    (k = id ∧ s₁ = s) ∨ (k ≠ id ∧ w.tasks k = some s₁) := by
  by_cases hid : k = id
  · subst hid
    rw [put_same] at hk
    exact .inl ⟨rfl, (Option.some.inj hk).symm⟩
  · rw [put_other w hid] at hk
    exact .inr ⟨hid, hk⟩

theorem Keeps.live_put {cells : Array Cell} (hid : x.task = id) (hx : s.Locates x slot)
    (hopen : (slot, c) ∈ s.cells) (hc : cells[c]? = some (.onStack x.task slot))
    (hv : s.stack[slot]? = some v) : { w.put id s with cells }.Keeps v x c :=
  .live (hid ▸ w.put_same id s) hx hopen hc hv

theorem Keeps.gone_put {cells : Array Cell} (hid : x.task = id)
    (hgone : ∀ p ∈ s.spans, p.activation ≠ x.activation) (hc : cells[c]? = some (.closed v)) :
    { w.put id s with cells }.Keeps v x c := by
  refine .gone (fun s₁ hs₁ => ?_) hc
  rcases put_cases hs₁ with ⟨-, rfl⟩ | ⟨hne, -⟩
  · exact hgone
  · exact absurd hid hne

/-! ## Steps of one task -/

/-- When a task changes, it is its own variables that have to be looked at. -/
theorem Shares.revise (h : w.Shares b) (hs : w.tasks id = some s) {b' : Boxes}
    (cells : Array Cell) (hbox : b'.box = b.box) (hcells : cells.size = w.cells.size)
    (hcontents : b'.contents.size = b.contents.size) (hneat : s'.Neat)
    (hentered : s.entered ≤ s'.entered)
    (hopened : ∀ slot c, (slot, c) ∈ s'.cells →
      (slot, c) ∈ s.cells ∧ ∀ x, s.Locates x slot → s'.Locates x slot)
    (hown : ∀ x c v, b.box x = some c → x.task = id → b.contents[c]? = some v → w.Keeps v x c →
      ∃ v', b'.contents[c]? = some v' ∧ { w.put id s' with cells }.Keeps v' x c)
    (hother : ∀ c, (∀ x, b.box x = some c → x.task ≠ id) →
      cells[c]? = w.cells[c]? ∧ b'.contents[c]? = b.contents[c]?) :
    { w.put id s' with cells }.Shares b' := by
  -- A box is one variable's, so that of another task's variable is none of this task's.
  have hsingle : ∀ x c, b.box x = some c → x.task ≠ id → ∀ y, b.box y = some c → y.task ≠ id :=
    fun x c hx hne y hy => h.single x y c hx hy ▸ hne
  -- What concerns boxes is the same as before, and so is all that other tasks have.
  constructor
  case size => rw [hcontents, ← h.size, hcells]
  case bound => exact fun k hk u hu => hcells ▸ h.bound k hk u hu
  case numbered =>
    intro k s₁ hk
    rcases put_cases hk with ⟨rfl, rfl⟩ | ⟨-, hk⟩
    · exact h.numbered k s hs
    · exact h.numbered k s₁ hk
  case neat =>
    intro k s₁ hk
    rcases put_cases hk with ⟨rfl, rfl⟩ | ⟨-, hk⟩
    · exact hneat
    · exact h.neat k s₁ hk
  case boxed =>
    intro x c hx
    rw [hbox] at hx
    obtain ⟨v, hv, hkeeps⟩ := h.boxed x c hx
    by_cases hid : x.task = id
    · exact hown x c v hx hid hv hkeeps
    · obtain ⟨hcell, hcontent⟩ := hother c (hsingle x c hx hid)
      exact ⟨v, hcontent.trans hv, hkeeps.carry (w.put_other hid s') hcell⟩
  case early =>
    intro x c hx
    rw [hbox] at hx
    obtain ⟨hlt, hact⟩ := h.early x c hx
    refine ⟨hlt, fun s₁ hs₁ => ?_⟩
    rcases put_cases hs₁ with ⟨hid, rfl⟩ | ⟨-, hk⟩
    · exact Nat.lt_of_lt_of_le (hact s (hid ▸ hs)) hentered
    · exact hact s₁ hk
  case opened =>
    intro k s₁ hk slot c hopen
    rw [hbox]
    rcases put_cases hk with ⟨rfl, rfl⟩ | ⟨-, hk⟩
    · obtain ⟨hold, hloc⟩ := hopened slot c hopen
      obtain ⟨x, hx, htask, hlocates⟩ := h.opened k s hs slot c hold
      exact ⟨x, hx, htask, hloc x hlocates⟩
    · exact h.opened k s₁ hk slot c hopen
  case single => exact fun x y c => hbox ▸ h.single x y c
  case bare =>
    intro c v hv hnone
    rw [hbox] at hnone
    obtain ⟨hcell, hcontent⟩ := hother c fun x hx => absurd hx (hnone x)
    rw [hcell]
    exact h.bare c v (hcontent ▸ hv) hnone

/-- Operands and handlers come and go. -/
theorem Shares.restack (h : w.Shares b) (hs : w.tasks id = some s) (hspans : s'.spans = s.spans)
    (hcells : s'.cells = s.cells) (hentered : s'.entered = s.entered) (hneat : s'.Neat)
    (hstack : ∀ slot c, (slot, c) ∈ s.cells → s'.stack[slot]? = s.stack[slot]?) :
    (w.put id s').Shares b := by
  refine h.revise hs w.cells rfl rfl rfl hneat (Nat.le_of_eq hentered.symm) ?_ ?_ ?_
  · exact fun slot c hopen => ⟨hcells ▸ hopen, fun x hloc => hloc.of_spans hspans⟩
  · intro x c v hx hid hv hkeeps
    refine ⟨v, hv, ?_⟩
    rcases hkeeps.own hs hid with ⟨slot, hloc, hopen, hc, hstack₁⟩ | ⟨hgone, hc⟩
    · exact .live_put hid (hloc.of_spans hspans) (hcells ▸ hopen) hc
        ((hstack slot c hopen).trans hstack₁)
    · exact .gone_put hid (hspans ▸ hgone) hc
  · exact fun c _ => ⟨rfl, rfl⟩

/-- A variable on a stack is changed, and its box with it. -/
theorem Shares.write_live (h : w.Shares b) (hs : w.tasks id = some s) (hx : s.Locates x slot)
    (htask : x.task = id) (hbox : b.box x = some c) (v : Value) :
    (w.put id { s with stack := s.stack.setIfInBounds slot v }).Shares (b.put c v) := by
  have hneat := h.neat id s hs
  refine h.revise hs w.cells rfl rfl ?_ ?_ (Nat.le_refl _) ?_ ?_ ?_
  · exact Array.size_setIfInBounds
  · exact hneat.write slot v
  · exact fun slot c hopen => ⟨hopen, fun x hloc => hloc⟩
  · intro y d u hy hid hu hkeeps
    -- The other variables of the task are at other slots.
    by_cases hyx : y = x
    · subst hyx
      have hdc : d = c := Option.some.inj (hy.symm.trans hbox)
      subst hdc
      obtain ⟨hopen, hcell, -⟩ := h.live (htask ▸ hs) hbox hx
      refine ⟨v, ?_, .live_put htask hx hopen hcell ?_⟩
      · exact Array.getElem?_setIfInBounds_self_of_lt (h.box_lt hbox)
      · exact Array.getElem?_setIfInBounds_self_of_lt (hx.lt_size hneat)
    · have hdc : c ≠ d := fun heq => hyx (h.single y x c (heq ▸ hy) hbox)
      refine ⟨u, ?_, ?_⟩
      · rw [Boxes.put, Array.getElem?_setIfInBounds_ne hdc]
        exact hu
      · rcases hkeeps.own hs hid with ⟨slot₁, hloc, hopen, hc, hstack₁⟩ | ⟨hgone, hc⟩
        · refine .live_put hid hloc hopen hc ?_
          have hne : slot ≠ slot₁ := by
            rintro rfl
            exact hyx (hloc.unique hneat hx (hid.trans htask.symm))
          exact (Array.getElem?_setIfInBounds_ne hne).trans hstack₁
        · exact .gone_put hid hgone hc
  · intro d hd
    have hdc : c ≠ d := by
      rintro rfl
      exact hd x hbox htask
    exact ⟨rfl, Array.getElem?_setIfInBounds_ne hdc⟩

/-- A variable without a box is changed. -/
theorem Shares.write_plain (h : w.Shares b) (hs : w.tasks id = some s)
    (hslot : ∀ x, s.Locates x slot → x.task = id → b.box x = none) (v : Value) :
    (w.put id { s with stack := s.stack.setIfInBounds slot v }).Shares b := by
  refine h.restack hs rfl rfl rfl ((h.neat id s hs).write slot v) fun slot₁ c hopen => ?_
  obtain ⟨x, hx, htask, hloc⟩ := h.opened id s hs slot₁ c hopen
  have hne : slot ≠ slot₁ := by
    rintro rfl
    rw [hslot x hloc htask] at hx
    cases hx
  exact Array.getElem?_setIfInBounds_ne hne

/-- A variable in a cell of its own is changed. -/
theorem Shares.write_closed (h : w.Shares b) {u : Value} (hc : w.cells[c]? = some (.closed u))
    (v : Value) :
    { w with cells := w.cells.setIfInBounds c (.closed v) }.Shares (b.put c v) := by
  have hlt : c < w.cells.size := (Array.getElem?_eq_some_iff.mp hc).1
  have hself : (w.cells.setIfInBounds c (.closed v))[c]? = some (.closed v) :=
    Array.getElem?_setIfInBounds_self_of_lt hlt
  have hself' : (b.put c v).contents[c]? = some v :=
    Array.getElem?_setIfInBounds_self_of_lt (h.size ▸ hlt)
  -- No stack changes, so that only what the cell itself holds has to be looked at.
  constructor
  case size =>
    rw [Boxes.put, Array.size_setIfInBounds, Array.size_setIfInBounds]
    exact h.size
  case bound =>
    rw [Array.size_setIfInBounds]
    exact h.bound
  case numbered => exact h.numbered
  case neat => exact h.neat
  case boxed =>
    intro x d hx
    obtain ⟨u', hu', hkeeps⟩ := h.boxed x d hx
    by_cases hdc : c = d
    · subst hdc
      refine ⟨v, hself', ?_⟩
      -- The cell is closed, so the frame of its variable is gone.
      cases hkeeps with
      | live _ _ _ hc' _ =>
        rw [hc] at hc'
        cases hc'
      | gone hgone _ => exact .gone hgone hself
    · have hcell : (w.cells.setIfInBounds c (.closed v))[d]? = w.cells[d]? :=
        Array.getElem?_setIfInBounds_ne hdc
      exact ⟨u', (Array.getElem?_setIfInBounds_ne hdc).trans hu', hkeeps.carry rfl hcell⟩
  case early => exact h.early
  case opened => exact h.opened
  case single => exact h.single
  case bare =>
    intro d v' hv' hnone
    by_cases hdc : c = d
    · subst hdc
      rw [hself'] at hv'
      exact Option.some.inj hv' ▸ hself
    · have hold := (Array.getElem?_setIfInBounds_ne hdc).symm.trans hv'
      exact (Array.getElem?_setIfInBounds_ne hdc).trans (h.bare d v' hold hnone)

/-- A frame is entered. Its locals have no boxes yet. -/
theorem Shares.enter (h : w.Shares b) (hs : w.tasks id = some s) {base count : Nat}
    {locals : Array Value} (hneat : Storage.Neat { s with
      spans := ⟨s.entered, base, count⟩ :: s.spans
      stack := s.stack ++ locals
      entered := s.entered + 1 }) :
    (w.put id { s with
      spans := ⟨s.entered, base, count⟩ :: s.spans
      stack := s.stack ++ locals
      entered := s.entered + 1 }).Shares b := by
  have hlocates : ∀ {x : Variable} {slot : Nat}, s.Locates x slot → Storage.Locates { s with
      spans := ⟨s.entered, base, count⟩ :: s.spans
      stack := s.stack ++ locals
      entered := s.entered + 1 } x slot := by
    rintro x slot ⟨p, hp, hrest⟩
    exact ⟨p, List.mem_cons_of_mem _ hp, hrest⟩
  refine h.revise hs w.cells rfl rfl rfl hneat (Nat.le_succ _) ?_ ?_ ?_
  · exact fun slot c hopen => ⟨hopen, fun x hloc => hlocates hloc⟩
  · intro x c v hx hid hv hkeeps
    refine ⟨v, hv, ?_⟩
    rcases hkeeps.own hs hid with ⟨slot, hloc, hopen, hc, hstack⟩ | ⟨hgone, hc⟩
    · refine .live_put hid (hlocates hloc) hopen hc ?_
      exact (Array.getElem?_append_left (hloc.lt_size (h.neat id s hs))).trans hstack
    · refine .gone_put hid (fun p hp => ?_) hc
      rcases List.mem_cons.mp hp with rfl | hp
      · -- the new frame has a number that no variable with a box can have
        have hearly := (h.early x c hx).2 s (hid ▸ hs)
        exact (Nat.ne_of_lt hearly).symm
      · exact hgone p hp
  · exact fun c _ => ⟨rfl, rfl⟩

/-- The cells of frames that are left are closed, each with the value its slot had. -/
theorem Shares.cut (h : w.Shares b) (hs : w.tasks id = some s) {left : List Span} {n : Nat}
    {cells : Array Cell} (hspans : s.spans = left ++ s'.spans) (hneat : s'.Neat)
    (hentered : s'.entered = s.entered) (hcut : s'.cells = s.cells.takeWhile fun c => c.1 < n)
    (hstack : ∀ slot < n, s'.stack[slot]? = s.stack[slot]?)
    (htop : ∀ p ∈ s'.spans, p.top ≤ n) (hbase : ∀ p ∈ left, n ≤ p.base)
    (hsize : cells.size = w.cells.size)
    (hshut : ∀ slot c, (slot, c) ∈ s.cells → n ≤ slot →
      cells[c]? = some (.closed (s.stack.getD slot .nil)))
    (hkept : ∀ c, (∀ slot, (slot, c) ∈ s.cells → slot < n) → cells[c]? = w.cells[c]?) :
    { w.put id s' with cells }.Shares b := by
  have hold := h.neat id s hs
  have hmem : ∀ slot c, (slot, c) ∈ s'.cells ↔ (slot, c) ∈ s.cells ∧ slot < n := by
    intro slot c
    rw [hcut]
    exact Storage.mem_takeWhile_slot hold.sorted
  refine h.revise hs cells rfl hsize rfl hneat (Nat.le_of_eq hentered.symm) ?_ ?_ ?_
  · intro slot c hopen
    obtain ⟨hopen, hslot⟩ := (hmem slot c).mp hopen
    refine ⟨hopen, fun x hloc => ?_⟩
    obtain ⟨p, hp, hact, hindex, rfl⟩ := hloc
    rw [hspans] at hp
    rcases List.mem_append.mp hp with hp | hp
    · have := hbase p hp
      omega
    · exact ⟨p, hp, hact, hindex, rfl⟩
  · intro x c v hx hid hv hkeeps
    refine ⟨v, hv, ?_⟩
    rcases hkeeps.own hs hid with
      ⟨slot, ⟨p, hp, hact, hindex, rfl⟩, hopen, hc, hstack₁⟩ | ⟨hgone, hc⟩
    · rw [hspans] at hp
      rcases List.mem_append.mp hp with hp | hp
      · -- The frame is left, and no other frame has its number.
        have hslot : n ≤ p.base + x.index := Nat.le_add_right_of_le (hbase p hp)
        refine .gone_put hid (fun q hq heq => ?_) ?_
        · have hapart := hold.apart
          rw [hspans] at hapart
          have hlt := (List.pairwise_append.mp hapart).2.2 p hp q hq
          omega
        · rw [hshut _ c hopen hslot, Array.getD_eq_getD_getElem?, hstack₁]
          rfl
      · have htop := htop p hp
        have hslot : p.base + x.index < n := by
          unfold Span.top at htop
          omega
        refine .live_put hid ⟨p, hp, hact, hindex, rfl⟩ ((hmem _ c).mpr ⟨hopen, hslot⟩) ?_ ?_
        · rw [hkept c fun slot hslot' => h.open_slot hs hopen hslot' ▸ hslot]
          exact hc
        · exact (hstack _ hslot).trans hstack₁
    · refine .gone_put hid (fun p hp => hgone p ?_) ?_
      · rw [hspans]
        exact List.mem_append_right _ hp
      -- A variable whose frame was gone before has no open cell.
      · rw [hkept c fun slot hopen => ?_]
        · exact hc
        · obtain ⟨y, hy, -, p, hp, hact, -⟩ := h.opened id s hs slot c hopen
          rw [h.single x y c hx hy] at hgone
          exact absurd hact (hgone p hp)
  · intro c hc
    refine ⟨hkept c fun slot hopen => ?_, rfl⟩
    obtain ⟨x, hx, htask, -⟩ := h.opened id s hs slot c hopen
    exact absurd htask (hc x hx)

/-- Closing what a task has open from some slot on does just that. -/
theorem Shares.cut_from (h : w.Shares b) (hs : w.tasks id = some s) {left : List Span} {n : Nat}
    {u : OpenUpvalues} {heap : Heap} {stack : Array Value} (hu : s.cells = u.cells)
    (hspans : s.spans = left ++ s'.spans) (hneat : s'.Neat) (hentered : s'.entered = s.entered)
    (hcut : s'.cells = (u.closeFrom heap n stack).1.cells)
    (hstack : ∀ slot < n, s'.stack[slot]? = s.stack[slot]?)
    (htop : ∀ p ∈ s'.spans, p.top ≤ n) (hbase : ∀ p ∈ left, n ≤ p.base)
    (hheap : heap.cells = w.cells) (hst : stack = s.stack) :
    { w.put id s' with cells := (u.closeFrom heap n stack).2.cells }.Shares b := by
  have hold := h.neat id s hs
  have hmem : ∀ slot c, (slot, c) ∈ u.cells.dropWhile (fun c => c.1 < n) ↔
      (slot, c) ∈ s.cells ∧ n ≤ slot := by
    intro slot c
    rw [← hu]
    exact Storage.mem_dropWhile_slot hold.sorted
  refine h.cut hs hspans hneat hentered (hu ▸ hcut) hstack htop hbase ?_ ?_ ?_
  · rw [← hheap]
    exact OpenUpvalues.closeCells_size _ _ _
  · intro slot c hc hslot
    obtain ⟨x, hx, -, -⟩ := h.opened id s hs slot c hc
    have hlt := h.box_lt hx
    rw [← h.size, ← hheap] at hlt
    rw [← hst]
    refine OpenUpvalues.closeCells_mem ((hmem slot c).mpr ⟨hc, hslot⟩) (fun slot' hc' => ?_) hlt
    exact h.open_slot hs ((hmem slot' c).mp hc').1 hc
  · intro c hc
    rw [← hheap]
    refine OpenUpvalues.closeCells_other fun slot hmem' => ?_
    obtain ⟨hopen, hslot⟩ := (hmem slot c).mp hmem'
    exact absurd (hc slot hopen) (Nat.not_lt.mpr hslot)

/-- A variable is captured for the first time. -/
theorem Shares.allot (h : w.Shares b) (hs : w.tasks id = some s) (hx : s.Locates x slot)
    (htask : x.task = id) (hbox : b.box x = none) (hv : s.stack[slot]? = some v)
    {opened : List (Nat × CellId)}
    (hopened : ∀ c, c ∈ opened ↔ c = (slot, w.cells.size) ∨ c ∈ s.cells)
    (hsorted : opened.Pairwise fun lower upper => lower.1 < upper.1) :
    { w.put id { s with cells := opened } with
      cells := w.cells.push (.onStack id slot) }.Shares (b.allot x v) := by
  have hneat := h.neat id s hs
  -- The new cell has the number that the new box has.
  have hcell : ∀ c < b.contents.size, (w.cells.push (.onStack id slot))[c]? = w.cells[c]? := by
    intro c hc
    exact Array.getElem?_push_lt (h.size ▸ hc) |>.trans (Array.getElem?_eq_getElem _).symm
  have hself : (b.allot x v).contents[b.contents.size]? = some v := Array.getElem?_push_size
  have hcellself : (w.cells.push (.onStack id slot))[b.contents.size]? =
      some (.onStack id slot) := by
    rw [← h.size]
    exact Array.getElem?_push_size
  -- Cells and boxes get one more each, and so does the list of what the task has open.
  constructor
  case size =>
    show (w.cells.push _).size = (b.contents.push v).size
    rw [Array.size_push, Array.size_push, h.size]
  case bound =>
    intro k hk u hu
    show u < (w.cells.push _).size
    rw [Array.size_push]
    exact Nat.lt_succ_of_lt (h.bound k hk u hu)
  case numbered =>
    intro k s₁ hk
    rcases put_cases hk with ⟨rfl, -⟩ | ⟨-, hk⟩
    · exact h.numbered k s hs
    · exact h.numbered k s₁ hk
  case neat =>
    intro k s₁ hk
    rcases put_cases hk with ⟨-, rfl⟩ | ⟨-, hk⟩
    · exact ⟨hneat.apart, hneat.begun, hneat.owned, hneat.within, hneat.stacked, hneat.above,
        hneat.nested, hneat.outside, hneat.inside, hsorted⟩
    · exact h.neat k s₁ hk
  case boxed =>
    intro y c hy
    rcases Boxes.box_allot hy with ⟨rfl, rfl⟩ | ⟨-, hy⟩
    · refine ⟨v, hself, .live_put htask hx ((hopened _).mpr (.inl (by rw [h.size]))) ?_ hv⟩
      rw [htask]
      exact hcellself
    · have hc := h.box_lt hy
      obtain ⟨u, hu, hkeeps⟩ := h.boxed y c hy
      refine ⟨u, (Boxes.contents_allot hc x v).trans hu, ?_⟩
      by_cases hid : y.task = id
      · rcases hkeeps.own hs hid with ⟨slot₁, hloc, hopen, hc', hstack⟩ | ⟨hgone, hc'⟩
        · exact .live_put hid hloc ((hopened _).mpr (.inr hopen)) ((hcell c hc).trans hc') hstack
        · exact .gone_put hid hgone ((hcell c hc).trans hc')
      · exact hkeeps.carry (w.put_other hid _) (hcell c hc)
  case early =>
    intro y c hy
    have hearly : y.task < w.nextId ∧ ∀ s, w.tasks y.task = some s → y.activation < s.entered := by
      rcases Boxes.box_allot hy with ⟨rfl, -⟩ | ⟨-, hy⟩
      · refine ⟨htask ▸ h.numbered id s hs, fun s₁ hs₁ => ?_⟩
        rw [htask, hs] at hs₁
        injection hs₁ with hs₁
        subst hs₁
        obtain ⟨p, hp, hact, -⟩ := hx
        exact hact ▸ hneat.begun p hp
      · exact h.early y c hy
    refine ⟨hearly.1, fun s₁ hs₁ => ?_⟩
    rcases put_cases hs₁ with ⟨hid, rfl⟩ | ⟨-, hk⟩
    · exact hearly.2 s (hid ▸ hs)
    · exact hearly.2 s₁ hk
  case opened =>
    intro k s₁ hk slot₁ c hopen
    rcases put_cases hk with ⟨rfl, rfl⟩ | ⟨-, hk⟩
    · rcases (hopened _).mp hopen with heq | hopen
      · obtain ⟨rfl, rfl⟩ := Prod.mk.inj heq
        refine ⟨x, ?_, htask, hx⟩
        rw [h.size]
        exact if_pos rfl
      · obtain ⟨y, hy, htask', hloc⟩ := h.opened k s hs slot₁ c hopen
        exact ⟨y, Boxes.box_allot_of hbox hy, htask', hloc⟩
    · obtain ⟨y, hy, htask', hloc⟩ := h.opened k s₁ hk slot₁ c hopen
      exact ⟨y, Boxes.box_allot_of hbox hy, htask', hloc⟩
  case single =>
    intro y z c hy hz
    rcases Boxes.box_allot hy with ⟨rfl, rfl⟩ | ⟨-, hold⟩
    · rcases Boxes.box_allot hz with ⟨rfl, -⟩ | ⟨-, hold'⟩
      · rfl
      · exact absurd (h.box_lt hold') (Nat.lt_irrefl _)
    · rcases Boxes.box_allot hz with ⟨rfl, rfl⟩ | ⟨-, hold'⟩
      · exact absurd (h.box_lt hold) (Nat.lt_irrefl _)
      · exact h.single y z c hold hold'
  case bare =>
    intro c u hu hnone
    have hne : c ≠ b.contents.size := by
      rintro rfl
      exact hnone x (if_pos rfl)
    have hc : c < b.contents.size := by
      obtain ⟨hlt, -⟩ := Array.getElem?_eq_some_iff.mp hu
      have hlt : c < (b.contents.push v).size := hlt
      rw [Array.size_push] at hlt
      exact Nat.lt_of_le_of_ne (Nat.lt_succ_iff.mp hlt) hne
    have hold := (Boxes.contents_allot hc x v).symm.trans hu
    exact (hcell c hc).trans (h.bare c u hold fun y hy => hnone y (Boxes.box_allot_of hbox hy))

/-! ## Tasks that come and go -/

/-- A task without frames has nothing to keep. -/
theorem Shares.vanish (h : w.Shares b) (hs : w.tasks id = some s) (hspans : s.spans = []) :
    (w.drop id).Shares b := by
  have htasks : ∀ {k : TaskId} {s₁ : Storage}, (if k = id then none else w.tasks k) = some s₁ →
      k ≠ id ∧ w.tasks k = some s₁ := by
    intro k s₁ hk
    split at hk
    · cases hk
    · exact ⟨by assumption, hk⟩
  -- Its variables have all been closed by then, and no stack is left that a cell could point at.
  constructor
  case size => exact h.size
  case bound => exact h.bound
  case numbered => exact fun k s₁ hk => h.numbered k s₁ (htasks hk).2
  case neat => exact fun k s₁ hk => h.neat k s₁ (htasks hk).2
  case boxed =>
    intro x c hx
    obtain ⟨v, hv, hkeeps⟩ := h.boxed x c hx
    refine ⟨v, hv, ?_⟩
    by_cases hid : x.task = id
    · rcases hkeeps.own hs hid with ⟨slot, ⟨p, hp, -⟩, -⟩ | ⟨-, hc⟩
      · rw [hspans] at hp
        cases hp
      · exact .gone (fun s₁ hs₁ => absurd hid (htasks hs₁).1) hc
    · exact hkeeps.carry (if_neg hid) rfl
  case early =>
    intro x c hx
    obtain ⟨hlt, hact⟩ := h.early x c hx
    exact ⟨hlt, fun s₁ hs₁ => hact s₁ (htasks hs₁).2⟩
  case opened => exact fun k s₁ hk => h.opened k s₁ (htasks hk).2
  case single => exact h.single
  case bare => exact h.bare

/-- The variables of a task that has come to its end are closed. -/
theorem Shares.retire (h : w.Shares b) {t : Task} {heap : Heap}
    (hs : w.tasks id = some t.storage) (hheap : heap.cells = w.cells) :
    { w.drop id with cells := (t.openUpvalues.closeAll heap t.stack).2.cells }.Shares b := by
  have hneat := h.neat id _ hs
  have hspans : t.storage.spans = t.storage.spans ++ [] := (List.append_nil _).symm
  -- All frames are left, and then the task itself.
  have hempty := hneat.cut hspans (List.nil_sublist _) (by simp) (Nat.zero_le _) (by simp)
    (by simp)
  have hcut := @Shares.cut_from w b id _ _ h hs _ 0 t.openUpvalues heap t.stack rfl hspans hempty
    rfl rfl (by simp) (by simp) (by simp) hheap rfl
  have hgone := hcut.vanish (w.put_same id _) rfl
  refine Eq.mpr (congrArg (Shares · b) ?_) hgone
  refine Store.ext ?_ rfl rfl rfl
  funext k
  show (if k = id then none else w.tasks k) =
    if k = id then none else if k = id then some _ else w.tasks k
  split
  · rfl
  · rfl

/-- So are those of all tasks, when all are given up. -/
theorem Shares.retire_all : ∀ {ts : List Task} {w : Store} {heap : Heap}, w.Shares b →
    heap.cells = w.cells → (ts.map (·.id)).Nodup →
    (∀ t ∈ ts, w.tasks t.id = some t.storage) →
    (∀ k s, w.tasks k = some s → k ∈ ts.map (·.id)) →
    { w with
      tasks := fun _ => none
      cells := (ts.foldl (fun (h : Heap) (t : Task) =>
        (t.openUpvalues.closeAll h t.stack).2) heap).cells }.Shares b
  | [], w, heap, h, hheap, _, _, hall => by
    refine Eq.mpr (congrArg (Shares · b) ?_) h
    refine Store.ext ?_ hheap rfl rfl
    funext k
    refine (Option.eq_none_iff_forall_ne_some.mpr fun s hs => ?_).symm
    cases hall k s hs
  | t :: ts, w, heap, h, hheap, hnodup, hthere, hall => by
    obtain ⟨hnew, hnodup⟩ := List.nodup_cons.mp hnodup
    have hretired := h.retire (hthere t List.mem_cons_self) hheap
    have hrest := hretired.retire_all rfl hnodup (fun t' ht' => ?_) fun k s hk => ?_
    · exact hrest
    · have hne : t'.id ≠ t.id := fun heq => hnew (List.mem_map.mpr ⟨t', ht', heq⟩)
      exact (if_neg hne).trans (hthere t' (List.mem_cons_of_mem t ht'))
    · have hk : (if k = t.id then none else w.tasks k) = some s := hk
      split at hk
      · cases hk
      · rename_i hne
        exact (List.mem_cons.mp (hall k s hk)).resolve_left hne

/-- A number is given out. -/
theorem Shares.reserve (h : w.Shares b) : { w with nextId := w.nextId + 1 }.Shares b := by
  constructor
  case size => exact h.size
  case bound => exact h.bound
  case numbered => exact fun k s hk => Nat.lt_succ_of_lt (h.numbered k s hk)
  case neat => exact h.neat
  case boxed =>
    intro x c hx
    obtain ⟨v, hv, hkeeps⟩ := h.boxed x c hx
    exact ⟨v, hv, hkeeps.carry rfl rfl⟩
  case early =>
    intro x c hx
    obtain ⟨hlt, hact⟩ := h.early x c hx
    exact ⟨Nat.lt_succ_of_lt hlt, hact⟩
  case opened => exact h.opened
  case single => exact h.single
  case bare => exact h.bare

/-- A task begins that has captured nothing. -/
theorem Shares.begin (h : w.Shares b) (hid : w.tasks id = none) (hlt : id < w.nextId)
    (hnew : ∀ x c, b.box x = some c → x.task ≠ id) (hneat : s.Neat) (hcells : s.cells = []) :
    (w.put id s).Shares b := by
  constructor
  case size => exact h.size
  case bound => exact h.bound
  case numbered =>
    intro k s₁ hk
    rcases put_cases hk with ⟨rfl, -⟩ | ⟨-, hk⟩
    · exact hlt
    · exact h.numbered k s₁ hk
  case neat =>
    intro k s₁ hk
    rcases put_cases hk with ⟨-, rfl⟩ | ⟨-, hk⟩
    · exact hneat
    · exact h.neat k s₁ hk
  case boxed =>
    intro x c hx
    have hne := hnew x c hx
    obtain ⟨v, hv, hkeeps⟩ := h.boxed x c hx
    exact ⟨v, hv, hkeeps.carry (w.put_other hne s) rfl⟩
  case early =>
    intro x c hx
    have hne := hnew x c hx
    obtain ⟨hlt, hact⟩ := h.early x c hx
    exact ⟨hlt, fun s₁ hs₁ => hact s₁ ((w.put_other hne s).symm.trans hs₁)⟩
  case opened =>
    intro k s₁ hk slot c hopen
    rcases put_cases hk with ⟨-, rfl⟩ | ⟨-, hk⟩
    · rw [hcells] at hopen
      cases hopen
    · exact h.opened k s₁ hk slot c hopen
  case single => exact h.single
  case bare => exact h.bare

/-- Closures capture what has a cell. -/
theorem Shares.close (h : w.Shares b) {fresh : Array Closure}
    (hf : ∀ k ∈ fresh, ∀ u ∈ k.upvalues, u < w.cells.size) :
    { w with closures := w.closures ++ fresh }.Shares b := by
  constructor
  case size => exact h.size
  case bound =>
    intro k hk u hu
    rcases Array.mem_append.mp hk with hk | hk
    · exact h.bound k hk u hu
    · exact hf k hk u hu
  case numbered => exact h.numbered
  case neat => exact h.neat
  case boxed =>
    intro x c hx
    obtain ⟨v, hv, hkeeps⟩ := h.boxed x c hx
    exact ⟨v, hv, hkeeps.carry rfl rfl⟩
  case early => exact h.early
  case opened => exact h.opened
  case single => exact h.single
  case bare => exact h.bare

end Store

end TaskVm
