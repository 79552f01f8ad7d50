import TaskVm.Proofs.Handlers
import TaskVm.Proofs.Sharing

/-!
# Captured variables

Closures share the variables they have captured as if each had a box. The code has to be tidy
for it: it must take its operands from above the locals of its frame and from above what its
handlers go back to, and capture nothing but locals.
-/

namespace TaskVm

open Exec Relation

namespace Machine

/-- The task of a number, with or without the turn. -/
def task? (m : Machine) (id : TaskId) : Option Task :=
  match m.running with
  | some t => if id = t.id then some t else m.vm.scheduler.get? id
  | none => m.vm.scheduler.get? id

/-- What of a machine concerns variables. -/
def store (m : Machine) : Store where
  tasks id := (m.task? id).map Task.storage
  cells := m.heap.cells
  closures := m.heap.closures
  nextId := m.vm.scheduler.nextId

end Machine

namespace Turn

variable {s s' : Turn} {b : Boxes}

def store (s : Turn) : Store := (Machine.ofTurn s).store

theorem store_self (s : Turn) : s.store.tasks s.task.id = some s.task.storage :=
  congrArg (Option.map Task.storage) (if_pos rfl)

theorem store_other {id : TaskId} (h : id ≠ s.task.id) :
    s.store.tasks id = (s.vm.scheduler.get? id).map Task.storage :=
  congrArg (Option.map Task.storage) (if_neg h)

/-- Nothing has happened to tasks other than the running one. -/
theorem store_eq (hid : s'.task.id = s.task.id)
    (htasks : s'.vm.scheduler.tasks = s.vm.scheduler.tasks)
    (hnext : s'.vm.scheduler.nextId = s.vm.scheduler.nextId) :
    s'.store = { s.store.put s.task.id s'.task.storage with
      cells := s'.heap.cells
      closures := s'.heap.closures } := by
  refine Store.ext ?_ rfl rfl hnext
  funext id
  show s'.store.tasks id = if id = s.task.id then some s'.task.storage else s.store.tasks id
  by_cases h : id = s.task.id
  · rw [if_pos h, h, ← hid, s'.store_self]
  · rw [if_neg h, store_other h, store_other (hid ▸ h), Scheduler.get?, htasks, Scheduler.get?]

/-- Only the running task and cells have other states. -/
theorem shares_task {t : Task} {heap : Heap} {events : List Event} {acts : List Act} {tidy : Bool}
    {touched : List Touch} (hid : t.id = s.task.id) (h : Store.Shares { s.store.put s.task.id t.storage with
      cells := heap.cells
      closures := heap.closures } b) :
    Store.Shares (store { s with task := t, heap, events, acts, tidy, touched }) b := by
  have hstore : store { s with task := t, heap, events, acts, tidy, touched } = _ :=
    store_eq (s := s) hid rfl rfl
  rw [hstore]
  exact h

/-- Only another task has another state. -/
theorem shares_put {t : Task} {queue : List TaskId} {heap : Heap}
    {handles : Std.ExtTreeMap TaskId HandleId} {acts : List Act} {touched : List Touch}
    (hne : t.id ≠ s.task.id) (hcells : heap.cells = s.heap.cells)
    (hclosures : heap.closures = s.heap.closures) (h : (s.store.put t.id t.storage).Shares b) :
    Store.Shares (store { s with
      acts
      touched
      heap
      vm := { s.vm with handles, scheduler := { s.vm.scheduler.put t with queue } } }) b := by
  refine Eq.mpr (congrArg (Store.Shares · b) ?_) h
  refine Store.ext ?_ hcells hclosures rfl
  funext id
  show (if id = s.task.id then some s.task else (s.vm.scheduler.put t).get? id).map Task.storage =
    if id = t.id then some t.storage else s.store.tasks id
  rw [Scheduler.get?_put_eq]
  by_cases hid : id = s.task.id
  · rw [if_pos hid, if_neg (hid ▸ hne.symm), hid, s.store_self]
    rfl
  · rw [if_neg hid, store_other hid]
    split <;> rfl

/-- Nothing has happened to variables. -/
theorem store_same (hid : s'.task.id = s.task.id)
    (htasks : s'.vm.scheduler.tasks = s.vm.scheduler.tasks)
    (hnext : s'.vm.scheduler.nextId = s.vm.scheduler.nextId)
    (hstorage : s'.task.storage = s.task.storage) (hcells : s'.heap.cells = s.heap.cells)
    (hclosures : s'.heap.closures = s.heap.closures) : s'.store = s.store := by
  rw [store_eq hid htasks hnext, hstorage, hcells, hclosures]
  refine Store.ext ?_ rfl rfl rfl
  funext id
  show (if id = s.task.id then some s.task.storage else s.store.tasks id) = _
  split
  · rename_i h
    rw [h, s.store_self]
  · rfl

/-- What happens agrees with what happens to boxes. -/
def Mirrors (s s' : Turn) : Prop := ∀ b, s.store.Shares b →
  ∃ acts, s'.acts = s.acts ++ acts ∧ b.Explains acts ∧ s'.store.Shares (b.replay acts)

theorem Mirrors.refl (s : Turn) : s.Mirrors s := fun _ h => ⟨[], by simp, trivial, h⟩

theorem Mirrors.trans {s'' : Turn} (h : s.Mirrors s') (h' : s'.Mirrors s'') : s.Mirrors s'' := by
  intro b hb
  obtain ⟨acts, hacts, hexplains, hb'⟩ := h b hb
  obtain ⟨acts', hacts', hexplains', hb''⟩ := h' _ hb'
  refine ⟨acts ++ acts', ?_, Boxes.explains_append hexplains hexplains', ?_⟩
  · rw [hacts', hacts, List.append_assoc]
  · rw [Boxes.replay_append]
    exact hb''

/-- What happens does not concern boxes. -/
theorem Mirrors.aside {acts : List Act} (hacts : s'.acts = s.acts ++ acts)
    (haside : ∀ a ∈ acts, a.isAside) (h : ∀ b, s.store.Shares b → s'.store.Shares b) :
    s.Mirrors s' := by
  intro b hb
  obtain ⟨hexplains, hreplay⟩ := b.explains_aside haside
  exact ⟨acts, hacts, hexplains, hreplay.symm ▸ h b hb⟩

theorem Mirrors.same {acts : List Act} (hacts : s'.acts = s.acts ++ acts)
    (haside : ∀ a ∈ acts, a.isAside) (h : s'.store = s.store) : s.Mirrors s' :=
  .aside hacts haside fun _ hb => h ▸ hb

/-- Operands come and go, and so do handlers. -/
theorem Mirrors.restack {t : Task} {tidy : Bool} {touched : List Touch} (hid : t.id = s.task.id)
    (hspans : t.storage.spans = s.task.storage.spans)
    (hcells : t.storage.cells = s.task.storage.cells)
    (hentered : t.storage.entered = s.task.storage.entered)
    (hneat : s.task.storage.Neat → t.storage.Neat)
    (hstack : ∀ slot < s.task.stack.size, slot < t.stack.size →
      t.stack[slot]? = s.task.stack[slot]?) : s.Mirrors { s with task := t, tidy, touched } := by
  refine .aside (List.append_nil s.acts).symm (by simp) fun b hb => ?_
  have hneat' := hneat (hb.neat _ _ s.store_self)
  have hstore := hb.restack s.store_self hspans hcells hentered hneat' fun slot c hopen => by
    obtain ⟨x, -, -, hloc⟩ := hb.opened _ _ s.store_self slot c hopen
    exact hstack slot (hloc.lt_size (hb.neat _ _ s.store_self))
      ((hloc.of_spans hspans).lt_size hneat')
  exact shares_task hid hstore

end Turn

/-- The locals of the innermost frame are uppermost. -/
theorem Storage.Neat.top_le {s : Storage} (h : s.Neat) {p : Span} {ps : List Span}
    (hp : s.spans = p :: ps) {n : Nat} (hn : p.top ≤ n) : ∀ q ∈ s.spans, q.top ≤ n := by
  have hstacked := hp ▸ h.stacked
  intro q hq
  rw [hp] at hq
  rcases List.mem_cons.mp hq with rfl | hq
  · exact hn
  · have hle := (List.pairwise_cons.mp hstacked).1 q hq
    unfold Span.top at hn
    omega

/-- Where a stack may be cut. -/
theorem Task.keeps_le {t : Task} (h : t.storage.Neat) {n : Nat} (hk : t.keeps n = true) :
    (∀ p ∈ t.storage.spans, p.top ≤ n) ∧ ∀ k ∈ t.storage.marks, k.height ≤ n := by
  obtain ⟨hframes, hhandlers⟩ := Bool.and_eq_true_iff.mp hk
  constructor
  · intro p hp
    cases hf : t.frames with
    | nil =>
      unfold Task.storage at hp
      rw [hf] at hp
      cases hp
    | cons f fs =>
      rw [hf] at hframes
      have hspans : t.storage.spans = f.span :: fs.map Frame.span := by
        unfold Task.storage
        rw [hf]
        rfl
      exact h.top_le hspans (of_decide_eq_true hframes) p hp
  · intro k hk'
    obtain ⟨hd, hhd, rfl⟩ := List.mem_map.mp hk'
    exact of_decide_eq_true (List.all_eq_true.mp hhandlers hd hhd)

/-- Each handler is that of a frame. -/
theorem Task.Upright.owned {h : Heap} {t : Task} (hu : t.Upright h) :
    ∀ k ∈ t.storage.marks, ∃ p ∈ t.storage.spans, p.activation = k.activation := by
  intro k hk
  obtain ⟨hd, hhd, rfl⟩ := List.mem_map.mp hk
  obtain ⟨-, f, hf, hact, -⟩ := hu.registered hd hhd
  exact ⟨f.span, List.mem_map_of_mem (List.mem_reverse.mp (List.mem_of_getElem? hf)), hact⟩

namespace Turn

variable {s s' : Turn} {b : Boxes}

/-! ## Variables on the stack -/

theorem span_mem {f : Frame} {fs : List Frame} (hf : s.task.frames = f :: fs) :
    f.span ∈ s.task.storage.spans := by
  unfold Task.storage
  rw [hf]
  exact List.mem_cons_self

/-- The variable at a slot above the base of the innermost frame is one of its locals. -/
theorem local_of_locates (h : s.task.storage.Neat) {f : Frame} {fs : List Frame}
    (hf : s.task.frames = f :: fs) {index : Nat} {x : Variable} (htask : x.task = s.task.id)
    (hloc : s.task.storage.Locates x (f.stackBase + index)) :
    x = ⟨s.task.id, f.activation, index⟩ := by
  obtain ⟨p, hp, hact, hindex, hslot⟩ := hloc
  have hspans : s.task.storage.spans = f.span :: fs.map Frame.span := by
    unfold Task.storage
    rw [hf]
    rfl
  have hsame : p = f.span := by
    have hp' := hspans ▸ hp
    rcases List.mem_cons.mp hp' with rfl | hp'
    · rfl
    · have hle : p.top ≤ f.stackBase := (List.pairwise_cons.mp (hspans ▸ h.stacked)).1 p hp'
      unfold Span.top at hle
      omega
  subst hsame
  obtain ⟨xt, xa, xi⟩ := x
  have hslot : f.stackBase + index = f.stackBase + xi := hslot
  rw [show xt = s.task.id from htask, show xa = f.activation from hact.symm,
    show xi = index by omega]

/-- A local of the innermost frame that has a box is one of those that the frame was entered
with. -/
theorem locates_local (hb : s.store.Shares b) {f : Frame} {fs : List Frame}
    (hf : s.task.frames = f :: fs) {index : Nat} {c : CellId}
    (hbox : b.box ⟨s.task.id, f.activation, index⟩ = some c) :
    s.task.storage.Locates ⟨s.task.id, f.activation, index⟩ (f.stackBase + index) := by
  obtain ⟨v, -, hkeeps⟩ := hb.boxed _ c hbox
  rcases hkeeps.own s.store_self rfl with ⟨slot, ⟨p, hp, hact, hindex, -⟩, -⟩ | ⟨hgone, -⟩
  · have hsame := (hb.neat _ _ s.store_self).span_unique hp (span_mem hf) hact
    subst hsame
    exact ⟨f.span, span_mem hf, rfl, hindex, rfl⟩
  · exact absurd rfl (hgone _ (span_mem hf))

/-- What the slot of a local has is what its box holds, if it has one. -/
theorem boxed_local (hb : s.store.Shares b) {f : Frame} {fs : List Frame}
    (hf : s.task.frames = f :: fs) {index : Nat} {c : CellId}
    (hbox : b.box ⟨s.task.id, f.activation, index⟩ = some c) :
    b.contents[c]? = some (s.task.stack.getD (f.stackBase + index) .nil) := by
  have hloc := locates_local hb hf hbox
  obtain ⟨-, -, hstack⟩ := hb.live s.store_self hbox hloc
  have hlt := hloc.lt_size (hb.neat _ _ s.store_self)
  have hlt : f.stackBase + index < s.task.stack.size := hlt
  rw [← hstack, Array.getD_eq_getD_getElem?]
  show s.task.stack[f.stackBase + index]? = _
  rw [Array.getElem?_eq_getElem hlt]
  rfl

theorem mirrors_readLocal {f : Frame} {fs : List Frame} (hf : s.task.frames = f :: fs)
    (index : Nat) : s.Mirrors { s with acts := s.acts ++
      [.localRead ⟨s.task.id, f.activation, index⟩
        (s.task.stack.getD (f.stackBase + index) .nil)] } :=
  fun _ hb => ⟨_, rfl, ⟨fun _ hbox => boxed_local hb hf hbox, trivial⟩, hb⟩

theorem mirrors_writeLocal {f : Frame} {fs : List Frame} (hf : s.task.frames = f :: fs)
    (index : Nat) (v : Value) : s.Mirrors { s with
      acts := s.acts ++ [.localSet ⟨s.task.id, f.activation, index⟩ v]
      task := { s.task with
        stack := s.task.stack.setIfInBounds (f.stackBase + index) v } } := by
  intro b hb
  refine ⟨_, rfl, ⟨trivial, trivial⟩, ?_⟩
  refine shares_task rfl ?_
  show Store.Shares _ (b.after (.localSet _ v))
  unfold Boxes.after
  dsimp only
  split
  · rename_i c hbox
    exact hb.write_live s.store_self (locates_local hb hf hbox) rfl hbox v
  · rename_i hbox
    refine hb.write_plain s.store_self (fun x hloc htask => ?_) v
    rw [local_of_locates (hb.neat _ _ s.store_self) hf htask hloc]
    exact hbox

/-! ## Variables in cells -/

/-- A closure that holds a cell is one of those that there are. -/
theorem mem_closures {h : Heap} {k : ClosureId} {c : CellId} (hc : c ∈ (h.closure k).upvalues) :
    ∃ closure ∈ h.closures, c ∈ closure.upvalues := by
  unfold Heap.closure at hc
  rw [Array.getD_eq_getD_getElem?] at hc
  cases hget : h.closures[k]? with
  | none =>
    rw [hget] at hc
    cases Array.not_mem_empty _ hc
  | some closure =>
    rw [hget] at hc
    exact ⟨closure, Array.mem_of_getElem? hget, hc⟩

/-- The variables that a task has hold of have cells. -/
theorem holds_lt (hb : s.store.Shares b) {c : CellId} (hc : s.Holds c) :
    c < s.heap.cells.size := by
  rcases hc with ⟨k, hk⟩ | ⟨slot, hopen⟩
  · obtain ⟨closure, hmem, hc⟩ := mem_closures hk
    exact hb.bound closure hmem c hc
  · obtain ⟨x, hx, -, -⟩ := hb.opened _ _ s.store_self slot c hopen
    have hlt := hb.box_lt hx
    rw [← hb.size] at hlt
    exact hlt

theorem cell_getElem? {h : Heap} {c : CellId} (hc : c < h.cells.size) :
    h.cells[c]? = some (h.cell c) := by
  rw [Heap.cell, Array.getD_eq_getD_getElem?, Array.getElem?_eq_getElem hc]
  rfl

/-- The stack of a task, as the machine finds it. -/
theorem stackOf_eq {task : TaskId} {st : Storage} (hs : s.store.tasks task = some st) :
    stackOf s task = st.stack := by
  unfold stackOf
  by_cases htask : task = s.task.id
  · rw [if_pos htask]
    rw [htask, s.store_self] at hs
    rw [← Option.some.inj hs]
    rfl
  · rw [if_neg htask]
    rw [store_other htask] at hs
    obtain ⟨t, ht, rfl⟩ := Option.map_eq_some_iff.mp hs
    rw [ht]
    rfl

/-- What the machine finds in a captured variable is what its box holds. -/
theorem boxed_cellValue (hb : s.store.Shares b) {c : CellId} (hc : s.Holds c) :
    b.contents[c]? = some (s.cellValue c) := by
  have hcell := cell_getElem? (holds_lt hb hc)
  unfold cellValue
  cases hvalue : s.heap.cell c with
  | closed v =>
    rw [hvalue] at hcell
    exact hb.closed hcell
  | onStack task slot =>
    rw [hvalue] at hcell
    obtain ⟨x, st, hbox, -, hst, hloc, hstack⟩ := hb.onStack hcell
    have hlt := hloc.lt_size (hb.neat _ _ hst)
    dsimp only
    rw [stackOf_eq hst, ← hstack, Array.getD_eq_getD_getElem?, Array.getElem?_eq_getElem hlt]
    rfl

theorem mirrors_readCell {c : CellId} (hc : s.Holds c) :
    s.Mirrors { s with acts := s.acts ++ [.cellRead c (s.cellValue c)] } :=
  fun _ hb => ⟨_, rfl, ⟨boxed_cellValue hb hc, trivial⟩, hb⟩

theorem mirrors_writeCell (ht : s.crew.Tended) {c : CellId} (hc : s.Holds c) (v : Value) :
    s.Mirrors (endState (writeCell c v) s) := by
  intro b hb
  have hlt := holds_lt hb hc
  have hcell := cell_getElem? hlt
  have hallows : b.Allows (.cellSet c v) := by
    show c < b.contents.size
    rw [← hb.size]
    exact hlt
  cases hvalue : s.heap.cell c with
  | closed u =>
    rw [hvalue] at hcell
    rw [writeCell_closed hvalue]
    refine ⟨_, rfl, ⟨hallows, trivial⟩, ?_⟩
    exact hb.write_closed hcell v
  | onStack task slot =>
    rw [hvalue] at hcell
    obtain ⟨x, st, hbox, hx, hst, hloc, -⟩ := hb.onStack hcell
    have hwritten := hb.write_live hst hloc hx hbox v
    rw [writeCell_onStack hvalue]
    unfold setSlotOf
    dsimp only
    -- The stack is the running task's own or that of a task that is held.
    by_cases htask : task = s.task.id
    · rw [if_pos htask]
      refine ⟨_, rfl, ⟨hallows, trivial⟩, shares_task rfl ?_⟩
      subst htask
      rw [s.store_self] at hst
      injection hst with hst
      subst hst
      exact hwritten
    · rw [if_neg htask]
      rw [store_other htask] at hst
      obtain ⟨t, ht', rfl⟩ := Option.map_eq_some_iff.mp hst
      rw [ht']
      have hkeyed : t.id = task := ht.keyed task t.badge (by
        show (s.vm.scheduler.get? task).map Task.badge = _
        rw [ht']
        rfl)
      subst hkeyed
      exact ⟨_, rfl, ⟨hallows, trivial⟩, shares_put htask rfl rfl hwritten⟩

/-! ## Captures -/

/-- A cell that is put where it belongs keeps the order. -/
theorem pairwise_insertSorted {slot : Nat} {c : CellId} : ∀ {cells : List (Nat × CellId)},
    (cells.Pairwise fun lower upper => lower.1 < upper.1) → (∀ d ∈ cells, d.1 ≠ slot) →
    (OpenUpvalues.insertSorted slot c cells).Pairwise fun lower upper => lower.1 < upper.1
  | [], _, _ => List.pairwise_singleton _ _
  | d :: ds, hp, hne => by
    obtain ⟨hd, hds⟩ := List.pairwise_cons.mp hp
    have hslot := hne d List.mem_cons_self
    unfold OpenUpvalues.insertSorted
    split
    · rename_i hlt
      refine List.pairwise_cons.mpr ⟨fun e he => ?_, pairwise_insertSorted hds fun e he =>
        hne e (List.mem_cons_of_mem d he)⟩
      rcases OpenUpvalues.mem_insertSorted.mp he with rfl | he
      · exact hlt
      · exact hd e he
    · rename_i hge
      refine List.pairwise_cons.mpr ⟨fun e he => ?_, hp⟩
      rcases List.mem_cons.mp he with rfl | he
      · exact Nat.lt_of_le_of_ne (Nat.le_of_not_lt hge) hslot.symm
      · have := hd e he
        dsimp only
        omega

/-- A slot that is a local of the innermost frame is one of its variables. -/
theorem locates_hasLocal {f : Frame} {fs : List Frame} (hf : s.task.frames = f :: fs) {index : Nat}
    (h : s.task.hasLocal (f.stackBase + index) = true) :
    s.task.storage.Locates ⟨s.task.id, f.activation, index⟩ (f.stackBase + index) := by
  unfold Task.hasLocal at h
  rw [hf] at h
  have hlt : f.stackBase + index < f.top := of_decide_eq_true h
  unfold Frame.top at hlt
  exact ⟨f.span, span_mem hf, rfl, Nat.lt_of_add_lt_add_left hlt, rfl⟩

theorem mirrors_capture {f : Frame} {fs : List Frame} (hf : s.task.frames = f :: fs) (index : Nat)
    (htidy : (endState (captureSlot (f.stackBase + index)) s).tidy = true) :
    s.Mirrors (endState (captureSlot (f.stackBase + index)) s) := by
  intro b hb
  have hneat := hb.neat _ _ s.store_self
  have hloc := locates_hasLocal hf (Bool.and_eq_true_iff.mp htidy).2
  have hvalue : s.task.storage.stack[f.stackBase + index]? =
      some (s.task.stack.getD (f.stackBase + index) .nil) := by
    have hlt : f.stackBase + index < s.task.stack.size := hloc.lt_size hneat
    rw [Array.getD_eq_getD_getElem?, Array.getElem?_eq_getElem hlt]
    exact Array.getElem?_eq_getElem hlt
  rw [endState_ok (captureSlot_apply s (f.stackBase + index)), localAt_eq hf index]
  unfold OpenUpvalues.capture
  -- A slot that has an open cell shares it, which is how closures come to share a variable.
  cases hcell : s.task.openUpvalues.cell? (f.stackBase + index) with
  | some c =>
    have hopen := OpenUpvalues.mem_of_cell? hcell
    have hbox := hb.open_box s.store_self hopen hloc rfl
    obtain ⟨-, -, hstack⟩ := hb.live s.store_self hbox hloc
    refine ⟨_, rfl, ⟨?_, trivial⟩, ?_⟩
    · unfold Boxes.Allows
      dsimp only
      rw [hbox]
      exact ⟨rfl, hstack ▸ hvalue⟩
    · show Store.Shares _ (b.after (.captured _ _ c))
      unfold Boxes.after
      dsimp only
      rw [hbox]
      exact hb
  | none =>
    have hnone := OpenUpvalues.ne_of_cell? hcell
    have hbox : b.box ⟨s.task.id, f.activation, index⟩ = none := by
      refine Option.eq_none_iff_forall_ne_some.mpr fun c hbox => ?_
      exact hnone _ (hb.live s.store_self hbox hloc).1 rfl
    refine ⟨_, rfl, ⟨?_, trivial⟩, ?_⟩
    · unfold Boxes.Allows
      dsimp only
      rw [hbox]
      exact hb.size
    · show Store.Shares _ (b.after (.captured _ _ s.heap.cells.size))
      unfold Boxes.after
      dsimp only
      rw [hbox]
      refine shares_task rfl ?_
      exact hb.allot s.store_self hloc rfl hbox hvalue
        (fun _ => OpenUpvalues.mem_insertSorted) (pairwise_insertSorted hneat.sorted hnone)

/-! ## Frames -/

theorem mirrors_enter {f : Frame} {locals : Array Value}
    (hl : f.stackBase + f.localCount ≤ s.task.stack.size + locals.size)
    (htidy : (endState (enterFrame f locals) s).tidy = true) :
    s.Mirrors (endState (enterFrame f locals) s) := by
  refine .aside (List.append_nil s.acts).symm (by simp) fun b hb => ?_
  have hneat := hb.neat _ _ s.store_self
  obtain ⟨hspans, hmarks⟩ := Task.keeps_le hneat (Bool.and_eq_true_iff.mp htidy).2
  exact shares_task rfl (hb.enter s.store_self (hneat.enter hspans hmarks hl))

/-- Frames are left, and what was captured from them is closed. -/
theorem shares_cut (hb : s.store.Shares b) {t : Task} (left : List Span) {n : Nat}
    (hid : t.id = s.task.id) (hspans : s.task.storage.spans = left ++ t.storage.spans)
    (hneat : t.storage.Neat) (hentered : t.activations = s.task.activations)
    (hopen : t.openUpvalues = (s.task.openUpvalues.closeFrom s.heap n s.task.stack).1)
    (hstack : ∀ slot < n, t.stack[slot]? = s.task.stack[slot]?)
    (htop : ∀ p ∈ t.storage.spans, p.top ≤ n) (hbase : ∀ p ∈ left, n ≤ p.base)
    {events : List Event} {acts : List Act} {tidy : Bool} :
    Store.Shares (store { s with
      task := t
      heap := (s.task.openUpvalues.closeFrom s.heap n s.task.stack).2
      events
      acts
      tidy }) b := by
  refine shares_task hid ?_
  have hclosures : (s.task.openUpvalues.closeFrom s.heap n s.task.stack).2.closures =
      s.heap.closures := by
    rw [OpenUpvalues.closeFrom_frame]
  rw [hclosures]
  exact hb.cut_from s.store_self rfl hspans hneat hentered (congrArg OpenUpvalues.cells hopen)
    hstack htop hbase rfl rfl

theorem mirrors_leave {f : Frame} {callers : List Frame} (hf : s.task.frames = f :: callers)
    {h : Heap} (hu : (endState (dropFrame f callers) s).task.Upright h) :
    s.Mirrors (endState (dropFrame f callers) s) := by
  refine .aside rfl (by simp [Act.isAside]) fun b hb => ?_
  have hneat := hb.neat _ _ s.store_self
  have hspans : s.task.storage.spans = [f.span] ++ callers.map Frame.span := by
    unfold Task.storage
    rw [hf]
    rfl
  have hapart := List.pairwise_cons.mp (hspans ▸ hneat.apart)
  have hstacked := List.pairwise_cons.mp (hspans ▸ hneat.stacked)
  have hn : f.stackBase ≤ s.task.stack.size :=
    Nat.le_trans (Nat.le_add_right _ _) (hneat.within _ (span_mem hf))
  have hmarks : ((s.task.handlers.dropWhile fun hd => callers.length < hd.frameDepth).map
      Handler.mark).Sublist s.task.storage.marks := (List.dropWhile_sublist _).map _
  refine shares_cut (t := (endState (dropFrame f callers) s).task) (n := f.stackBase) hb
    [f.span] ?_ hspans ?_ ?_ ?_ ?_ ?_ ?_
  · rfl
  · refine hneat.cut hspans hmarks hu.owned hn hstacked.1 fun k hk => ?_
    -- The handler is one of the frames that stay.
    obtain ⟨p, hp, hact⟩ := hu.owned k hk
    have hlt := hapart.1 p hp
    exact hneat.inside k (hmarks.subset hk) f.span (span_mem hf) (hact ▸ hlt)
  · rfl
  · rfl
  · intro slot hslot
    show (s.task.stack.take f.stackBase)[slot]? = _
    exact getElem?_take hslot
  · exact hstacked.1
  · simp [Frame.span]

/-- What was captured from the frames that a throw leaves is closed, and nothing else. -/
theorem mirrors_unwind (hu : s.task.Upright s.heap) {hd : Handler} {rest : List Handler}
    (hh : s.task.handlers = hd :: rest) (v : Value)
    (hu' : (s.unwind v).2.task.Upright (s.unwind v).2.heap) : s.Mirrors (s.unwind v).2 := by
  obtain ⟨f, callers, hf, hact, -⟩ := hu.caught hh
  -- The task after the throw, written out: the frames above the handler's are gone, the cells above
  -- its mark are closed, and the value lies on what is left of the stack.
  let left := s.task.frames.take (s.task.frames.length - hd.frameDepth)
  let t : Task := { s.task.truncateIterations hd.iterDepth with
    frames := { f with ip := hd.target } :: callers
    openUpvalues := (s.task.openUpvalues.closeFrom s.heap hd.stackDepth s.task.stack).1
    stack := (s.task.stack.take hd.stackDepth).push v }
  have hs : (s.unwind v).2 = { s with
      events := s.events ++ s.returnedByThrow v left
      acts := s.acts ++ [.left s.task.id left]
      heap := (s.task.openUpvalues.closeFrom s.heap hd.stackDepth s.task.stack).2
      task := t } := by
    unfold unwind Task.truncateIterations
    rw [hh]
    dsimp only
    rw [hf, ← hh]
    rfl
  rw [hs] at hu' ⊢
  refine .aside rfl (by simp [Act.isAside]) fun b hb => ?_
  -- The handler belongs to a frame that is left standing, so the cut runs between two frames.
  have hneat := hb.neat _ _ s.store_self
  have hspans : s.task.storage.spans = left.map Frame.span ++ t.storage.spans := by
    show s.task.frames.map Frame.span = left.map Frame.span ++ f.span :: callers.map Frame.span
    rw [← List.map_cons, ← hf, ← List.map_append, List.take_append_drop]
  have hmarks : s.task.storage.marks = hd.mark :: rest.map Handler.mark := by
    show s.task.handlers.map Handler.mark = _
    rw [hh]
    rfl
  have hn : hd.stackDepth ≤ s.task.stack.size :=
    hneat.above hd.mark (hmarks ▸ List.mem_cons_self)
  obtain ⟨htop, hbase, hheight⟩ := hneat.caught hmarks hspans hact
  have hsize : t.stack.size = hd.stackDepth + 1 := by simp [t, hn]
  refine shares_cut (t := t) (n := hd.stackDepth) hb (left.map Frame.span) ?_ hspans ?_ ?_ ?_
    ?_ ?_ ?_
  · rfl
  · have hcut := hneat.cut hspans (List.Sublist.refl _) hu'.owned hn htop hheight
    refine hcut.restack ?_ ?_
    · exact fun p hp => hsize ▸ Nat.le_succ_of_le (htop p hp)
    · exact fun k hk => hsize ▸ Nat.le_succ_of_le (hheight k hk)
  · rfl
  · rfl
  · intro slot hslot
    show ((s.task.stack.take hd.stackDepth).push v)[slot]? = _
    rw [Array.getElem?_push, if_neg, getElem?_take hslot]
    simp only [Array.size_extract, Array.take]
    omega
  · exact htop
  · exact hbase

/-! ## Tasks -/

/-- A task that is about to have its first turn. -/
theorem neat_newborn {t : Task} (hn : t.Newborn) : t.storage.Neat ∧ t.storage.cells = [] := by
  obtain ⟨f, hf, htop, -, hact⟩ := hn.frames
  have hspans : t.storage.spans = [f.span] := by
    unfold Task.storage
    rw [hf]
    rfl
  have hmarks : t.storage.marks = [] := by
    unfold Task.storage
    rw [hn.handlers]
    rfl
  have hcells : t.storage.cells = [] := by
    unfold Task.storage
    rw [hn.openUpvalues]
  refine ⟨?_, hcells⟩
  constructor
  case apart =>
    rw [hspans]
    exact List.pairwise_singleton _ _
  case begun =>
    intro p hp
    rw [hspans, List.mem_singleton] at hp
    subst hp
    show f.activation < t.activations
    rw [hact, hn.activations]
    exact Nat.zero_lt_one
  case within =>
    intro p hp
    rw [hspans, List.mem_singleton] at hp
    exact hp ▸ htop
  case stacked =>
    rw [hspans]
    exact List.pairwise_singleton _ _
  case nested =>
    rw [hmarks]
    exact List.Pairwise.nil
  case sorted =>
    rw [hcells]
    exact List.Pairwise.nil
  all_goals
    intro k hk
    rw [hmarks] at hk
    cases hk

theorem mirrors_spawn {child : Task} (hc : child.Newborn) (name : String)
    (hid : child.id = s.vm.scheduler.nextId) {h : Heap}
    (he : (s.heap.newHandle { id := child.id, name }).2.Extends h) :
    s.Mirrors (endState (start child) { s with
      heap := h
      vm := { s.vm with scheduler := s.vm.scheduler.takeId.2 } }) := by
  refine .aside (List.append_nil s.acts).symm (by simp) fun b hb => ?_
  obtain ⟨hneat, hnone⟩ := neat_newborn hc
  obtain ⟨fresh, hfresh, hbound⟩ := he.closures
  have hnumbered : ∀ k st, s.store.tasks k = some st → k < s.vm.scheduler.nextId := hb.numbered
  have hnew : s.store.tasks child.id = none := by
    refine Option.eq_none_iff_forall_ne_some.mpr fun st hst => ?_
    exact Nat.lt_irrefl _ (hid ▸ hnumbered child.id st hst)
  have hne : child.id ≠ s.task.id := by
    intro heq
    rw [heq, s.store_self] at hnew
    cases hnew
  -- A number is given out, closures have been made, and a task begins.
  have hreserved := hb.reserve.close hbound
  have hbegun := hreserved.begin (s := child.storage) hnew
    (hid ▸ Nat.lt_succ_self _) (fun x c hx heq => ?_) hneat hnone
  · have hcells : h.cells = s.heap.cells := he.cells
    have hclosures : h.closures = s.heap.closures ++ fresh := hfresh
    let s₁ : Turn := { s with
      heap := h
      vm := { s.vm with scheduler := s.vm.scheduler.takeId.2 } }
    have hstore : s₁.store = { s.store with
        nextId := s.store.nextId + 1
        closures := s.store.closures ++ fresh } :=
      Store.ext rfl hcells hclosures rfl
    refine shares_put (s := s₁) hne rfl rfl ?_
    rw [hstore]
    exact hbegun
  · have hlt := (hb.early x c hx).1
    rw [heq, hid] at hlt
    exact Nat.lt_irrefl _ hlt

end Turn

/-! ## Deeds -/

/-- Once code has not been tidy, that is on record. -/
theorem DeedIn.tidy {s s' : Turn} (h : Deed s s') (ht : s'.tidy = true) : s.tidy = true := by
  cases h with
  | change h =>
    cases h with
    | drop | enter | capture => exact (Bool.and_eq_true_iff.mp ht).1
    | @writeCell cell hc v =>
      obtain ⟨cells, tasks, stack, touched, hs⟩ := writeCell_frame s cell v
      rwa [hs] at ht
    | _ => exact ht
  | unwind hh v =>
    obtain ⟨acts, events, cells, frames, openUpvalues, iterations, stack, hs⟩ :=
      Turn.unwind_frame hh v
    rwa [hs] at ht
  | _ => exact ht

/-- **What a change does to variables is what it does to boxes.** -/
theorem ChangeIn.mirrors {s s' : Turn} (h : Change s s') (ht : s.crew.Tended)
    (hu : s'.task.Upright s'.heap) (htidy : s'.tidy = true) : s.Mirrors s' := by
  cases h with
  | heap hh =>
    refine .aside (List.append_nil s.acts).symm (by simp) fun b hb => ?_
    obtain ⟨fresh, hfresh, hbound⟩ := hh.closures
    have hclose := hb.close hbound
    refine Eq.mpr (congrArg (Store.Shares · b) ?_) hclose
    exact Store.ext rfl hh.cells hfresh rfl
  | vm hv =>
    have hsched := hv.alike.scheduler
    refine .same (List.append_nil s.acts).symm (by simp) ?_
    exact Turn.store_same rfl (by rw [hsched]) (by rw [hsched]) rfl rfl rfl
  | push v =>
    refine .restack rfl rfl rfl rfl (fun hneat => hneat.restack ?_ ?_) fun slot hlt _ => ?_
    · intro p hp
      rw [Task.push, Array.size_push]
      exact Nat.le_succ_of_le (hneat.within p hp)
    · intro k hk
      rw [Task.push, Array.size_push]
      exact Nat.le_succ_of_le (hneat.above k hk)
    · exact (Array.getElem?_push_lt hlt).trans (Array.getElem?_eq_getElem hlt).symm
  | @drop n hn =>
    -- A tidy drop stays above every frame's slots and every handler's mark.
    obtain ⟨-, hkeeps⟩ := Bool.and_eq_true_iff.mp htidy
    have hsize : (s.task.stack.take n).size = n := by simp [hn]
    refine .restack rfl rfl rfl rfl (fun hneat => ?_) fun slot _ hlt => ?_
    · obtain ⟨hspans, hmarks⟩ := Task.keeps_le hneat hkeeps
      refine hneat.restack (fun p hp => ?_) fun k hk => ?_
      · exact Nat.le_trans (hspans p hp) (Nat.le_of_eq hsize.symm)
      · exact Nat.le_trans (hmarks k hk) (Nat.le_of_eq hsize.symm)
    · exact getElem?_take (Nat.lt_of_lt_of_eq hlt hsize)
  | readLocal hf index => exact Turn.mirrors_readLocal hf index
  | writeLocal hf index v => exact Turn.mirrors_writeLocal hf index v
  | readCell hc => exact Turn.mirrors_readCell hc
  | writeCell hc v => exact Turn.mirrors_writeCell ht hc v
  | @goto f fs hf ip hip =>
    refine .same (List.append_nil s.acts).symm (by simp) ?_
    refine Turn.store_same rfl rfl rfl ?_ rfl rfl
    unfold Task.storage
    rw [hf]
    rfl
  | @protect f fs hf target htarget =>
    have hspans : s.task.storage.spans = f.span :: fs.map Frame.span := by
      unfold Task.storage
      rw [hf]
      rfl
    exact .restack rfl rfl rfl rfl (fun hneat => hneat.mark hspans) fun _ _ _ => rfl
  | @unprotect hd rest hh | @catchInto hd rest hh =>
    have hsub : rest.Sublist s.task.handlers := hh ▸ List.sublist_cons_self hd rest
    exact .restack rfl rfl rfl rfl (fun hneat => hneat.unmark (hsub.map _)) fun _ _ _ => rfl
  | capture hf index => exact Turn.mirrors_capture hf index htidy
  | @close c hc =>
    refine .aside (List.append_nil s.acts).symm (by simp) fun b hb => ?_
    have hbound : ∀ k ∈ #[c], ∀ u ∈ k.upvalues, u < s.store.cells.size := by
      intro k hk u hu
      rw [Array.mem_singleton.mp hk] at hu
      exact Turn.holds_lt hb (hc u hu)
    exact hb.close hbound
  | enter hip hbase hi hl => exact Turn.mirrors_enter hl htidy
  | leave hf => exact Turn.mirrors_leave hf hu
  | reserve name => exact .aside (List.append_nil s.acts).symm (by simp) fun b hb => hb.reserve
  | spawn hc name hid hh he => exact Turn.mirrors_spawn hc name hid he.toExtends
  | tell es => exact .same (List.append_nil s.acts).symm (by simp) rfl
  | remember | iterate | moveOn | moveOff =>
    exact .same (List.append_nil s.acts).symm (by simp) (Turn.store_same rfl rfl rfl rfl rfl rfl)

/-- Being woken is nothing to the variables of a task. -/
theorem Turn.mirrors_wake {s : Turn} (ht : s.crew.Tended) (w : Waiter) (r : Resume) :
    s.Mirrors (endState (Exec.wake w r) s) := by
  rw [endState_ok (wake_apply s w r)]
  unfold Scheduler.wake
  cases s.vm.scheduler.isLive s.heap w with
  | false => exact .refl s
  | true =>
    cases hget : s.vm.scheduler.get? w.task with
    | none => exact .refl s
    | some t =>
      have hheld : s.crew.held w.task = some t.badge := by
        show (s.vm.scheduler.get? w.task).map Task.badge = _
        rw [hget]
        rfl
      have hid : t.id = w.task := ht.keyed _ _ hheld
      -- The running task is not among those held, so it is not the one that is woken.
      have hne : t.id ≠ s.task.id := by
        intro heq
        have haway : s.crew.held s.task.id = none := ht.away s.task.badge rfl
        rw [← heq, hid, hheld] at haway
        cases haway
      refine .aside rfl (by simp [Act.isAside]) fun b hb => shares_put hne rfl rfl ?_
      have hself : s.store.tasks t.id = some t.storage := by
        rw [store_other hne, hid, hget]
        rfl
      exact (Store.put_self hself).symm ▸ hb

theorem DeedIn.mirrors {s s' : Turn} (h : Deed s s') (ht : s.crew.Tended) (hu : s.Upright)
    (htidy : s'.tidy = true) : s.Mirrors s' := by
  have hu' := (h.upright hu).running
  cases h with
  | change h => exact h.mirrors ht hu' htidy
  | channel id c => exact .same (List.append_nil s.acts).symm (by simp) rfl
  | @traffic a ha =>
    refine .same rfl (fun a' ha' => ?_) rfl
    rw [List.mem_singleton.mp ha']
    cases a with
    | captured | localRead | localSet | cellRead | cellSet => cases ha
    | _ => rfl
  | wake w r => exact Turn.mirrors_wake ht w r
  | resume hr =>
    exact .same rfl (by simp [Act.isAside]) (Turn.store_same rfl rfl rfl rfl rfl rfl)
  | unwind hh v => exact Turn.mirrors_unwind hu.running hh v hu'

/-- **What a turn does to variables is what it does to boxes.** -/
theorem mirrors_of_deeds {s s' : Turn} (h : Deeds s s') (ht : s.crew.Tended) (hu : s.Upright)
    (htidy : s'.tidy = true) : s.Mirrors s' := by
  induction h with
  | refl => exact .refl s
  | tail hds hd ih =>
    exact (ih (hd.tidy htidy)).trans
      (hd.mirrors (tended_of_deeds hds ht) (upright_of_deeds hds hu) htidy)

end TaskVm
