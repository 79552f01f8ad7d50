import TaskVm.Proofs.Handlers
import TaskVm.Proofs.Regions

/-!
# Nothing leads out of a region

Whatever a task does, it stays within the region of the heap that its globals and its operands are
in: the values it comes to are held by the region, and so is all that it leaves behind. In
particular no fatal error comes to be a value, and no comparison goes on for ever.

Only the counting of instructions changes their number, and nothing changes the limit. This is
part of what is shown to be kept, so that one pass over all instructions serves for both.
-/

namespace TaskVm

namespace Region

variable {R : Region}

/-- What a parked operation has come to. -/
def HoldsResume (R : Region) : Resume → Prop
  | .value v | .selected _ v => R.Holds v
  | .error e => e.isFatal = false

/-- All that a task has. -/
structure HoldsTask (R : Region) (t : Task) : Prop where
  stack : ∀ v ∈ t.stack, R.Holds v
  iterations : ∀ i ∈ t.iterations, ∀ v ∈ i.rest, R.Holds v
  resume : ∀ r, t.resume = some r → R.HoldsResume r
  frames : ∀ f ∈ t.frames, R.closures f.closure
  opened : ∀ c ∈ t.openUpvalues.cells, R.cells c.2

/-- A task that has not begun. -/
theorem holdsTask_empty (id : TaskId) (handle : HandleId) : R.HoldsTask { id, handle } :=
  ⟨by simp, nofun, nofun, nofun, nofun⟩

namespace HoldsTask

variable {t : Task} {v : Value}

theorem withStack (ht : R.HoldsTask t) {stack : Array Value} (hs : ∀ v ∈ stack, R.Holds v) :
    R.HoldsTask { t with stack } := ⟨hs, ht.iterations, ht.resume, ht.frames, ht.opened⟩

theorem withFrames (ht : R.HoldsTask t) {frames : List Frame}
    (hf : ∀ f ∈ frames, R.closures f.closure) : R.HoldsTask { t with frames } :=
  ⟨ht.stack, ht.iterations, ht.resume, hf, ht.opened⟩

theorem withIterations (ht : R.HoldsTask t) {iterations : List Iteration}
    (hi : ∀ i ∈ iterations, ∀ v ∈ i.rest, R.Holds v) : R.HoldsTask { t with iterations } :=
  ⟨ht.stack, hi, ht.resume, ht.frames, ht.opened⟩

theorem push (ht : R.HoldsTask t) (hv : R.Holds v) : R.HoldsTask (t.push v) := by
  refine ht.withStack fun w hw => ?_
  rcases Array.mem_push.mp hw with hw | rfl
  · exact ht.stack w hw
  · exact hv

theorem slot (ht : R.HoldsTask t) (index : Nat) : R.Holds (t.stack.getD index .nil) := by
  rw [Array.getD_eq_getD_getElem?]
  exact holds_getD fun v hv => ht.stack v (Array.mem_of_getElem? hv)

theorem setSlot (ht : R.HoldsTask t) (index : Nat) (hv : R.Holds v) :
    R.HoldsTask { t with stack := t.stack.setIfInBounds index v } := by
  refine ht.withStack fun w hw => ?_
  rcases Array.mem_or_eq_of_mem_setIfInBounds hw with hw | rfl
  · exact ht.stack w hw
  · exact hv

theorem takeStack (ht : R.HoldsTask t) (n : Nat) :
    R.HoldsTask { t with stack := t.stack.take n } := by
  refine ht.withStack fun w hw => ht.stack w ?_
  rw [← Array.mem_toList_iff, Array.take_eq_extract, Array.toList_extract] at hw
  exact Array.mem_toList_iff.mp (List.mem_of_mem_take (by simpa using hw))

theorem setFrame (ht : R.HoldsTask t) {f : Frame} (hf : R.closures f.closure) :
    R.HoldsTask (t.setFrame f) := by
  refine ht.withFrames fun g hg => ?_
  rcases List.mem_cons.mp hg with rfl | hg
  · exact hf
  · exact ht.frames g (List.mem_of_mem_drop hg)

theorem enter (ht : R.HoldsTask t) {f : Frame} (hf : R.closures f.closure) {locals : Array Value}
    (hl : ∀ v ∈ locals, R.Holds v) : R.HoldsTask (t.enter f locals) where
  stack v hv := (Array.mem_append.mp hv).elim (ht.stack v) (hl v)
  iterations := ht.iterations
  resume := ht.resume
  frames g hg := by
    rcases List.mem_cons.mp hg with rfl | hg
    · exact hf
    · exact ht.frames g hg
  opened := ht.opened

theorem truncate (ht : R.HoldsTask t) (n : Nat) : R.HoldsTask (t.truncateIterations n) :=
  ht.withIterations fun i hi => ht.iterations i (List.mem_of_mem_drop hi)

end HoldsTask

/-- Closing cells gives them values from the stack. -/
theorem Clean.closeCells {stack : Array Value} (hstack : ∀ v ∈ stack, R.Holds v) :
    ∀ (cells : List (Nat × CellId)) {h : Heap}, R.Clean h →
      R.Clean (OpenUpvalues.closeCells h stack cells)
  | [], _, hR => hR
  | c :: cs, h, hR => by
    refine Clean.closeCells hstack cs (hR.setCell c.2 ?_)
    rw [Array.getD_eq_getD_getElem?]
    exact holds_getD fun v hv => hstack v (Array.mem_of_getElem? hv)

theorem Clean.closeFrom {h : Heap} (hR : R.Clean h) {t : Task} (ht : R.HoldsTask t) (base : Nat) :
    R.Clean (t.openUpvalues.closeFrom h base t.stack).2 ∧
      ∀ c ∈ (t.openUpvalues.closeFrom h base t.stack).1.cells, R.cells c.2 :=
  ⟨hR.closeCells ht.stack _, fun c hc => ht.opened c ((List.takeWhile_sublist _).subset hc)⟩

/-- A machine in the middle of a turn is enclosed in a region: what its globals and its tasks lead
to is held. It has so many instructions behind it, and this is the limit. -/
structure Encloses (R : Region) (limit : Option Nat) (count : Nat) (s : Turn) : Prop where
  hosts : ∀ f ∈ s.hosts, f.Keeps R
  heap : R.Clean s.heap
  globals : s.vm.globals.All R.Holds
  task : R.HoldsTask s.task
  tasks : ∀ id t, s.vm.scheduler.get? id = some t → R.HoldsTask t
  limit : s.vm.config.instructionLimit = limit
  count : s.vm.instructions = count

variable {limit : Option Nat} {count : Nat}

theorem Encloses.withTask {s : Turn} (hs : R.Encloses limit count s) {t : Task}
    (ht : R.HoldsTask t) : R.Encloses limit count { s with task := t } :=
  ⟨hs.hosts, hs.heap, hs.globals, ht, hs.tasks, hs.limit, hs.count⟩

theorem Encloses.withHeap {s : Turn} (hs : R.Encloses limit count s) {h : Heap}
    (hh : R.Clean h) : R.Encloses limit count { s with heap := h } :=
  ⟨hs.hosts, hh, hs.globals, hs.task, hs.tasks, hs.limit, hs.count⟩

theorem Encloses.put {s : Turn} (hs : R.Encloses limit count s) {t : Task} (ht : R.HoldsTask t)
    (id : TaskId) (u : Task) (hu : (s.vm.scheduler.put t).get? id = some u) : R.HoldsTask u := by
  rw [Scheduler.get?_put_eq] at hu
  split at hu
  · cases hu
    exact ht
  · exact hs.tasks id u hu

end Region

namespace Exec

variable {R : Region} {limit : Option Nat} {count : Nat} {α : Type} {Q : α → Prop}

/-! ## Parts of computations -/

theorem safe_raise (e : RuntimeError) : Safe (R.Encloses limit count) Q (raise e) := safe_throw e

theorem safe_ofExcept {x : Except RuntimeError α} (h : ∀ a, x = .ok a → Q a) :
    Safe (R.Encloses limit count) Q (Exec.ofExcept x) := by
  cases x with
  | ok a => exact safe_pure (h a rfl)
  | error e => exact safe_raise e

theorem safe_check (x : Except RuntimeError α) :
    Safe (R.Encloses limit count) (fun _ => True) (Exec.ofExcept x) :=
  safe_ofExcept fun _ _ => trivial

theorem safe_onHeap {x : HeapM α} (hx : Safe R.Clean Q x) :
    Safe (R.Encloses limit count) Q (onHeap x) := by
  intro s hs
  unfold onHeap
  cases h : x s.heap with
  | ok a heap =>
    obtain ⟨ha, hheap⟩ := hx.of_ok hs.heap h
    exact ⟨ha, hs.withHeap hheap⟩
  | error e heap =>
    obtain ⟨he, hheap⟩ := hx.of_error hs.heap h
    exact ⟨he, hs.withHeap hheap⟩

theorem safe_onTask {f : Task → Except RuntimeError (α × Task)}
    (hf : ∀ t a t', R.HoldsTask t → f t = .ok (a, t') → Q a ∧ R.HoldsTask t') :
    Safe (R.Encloses limit count) Q (onTask f) := by
  intro s hs
  unfold onTask
  cases h : f s.task with
  | ok r =>
    obtain ⟨ha, ht⟩ := hf s.task r.1 r.2 hs.task h
    exact ⟨ha, hs.withTask ht⟩
  | error e => exact ⟨nofun, hs⟩

theorem safe_modifyTask {f : Task → Task} (hf : ∀ t, R.HoldsTask t → R.HoldsTask (f t)) :
    Safe (R.Encloses limit count) (fun _ => True) (modifyTask f) := fun s hs =>
  ⟨trivial, hs.withTask (hf s.task hs.task)⟩

theorem safe_create {f : Heap → α × Heap} (hf : ∀ h, R.Clean h → Q (f h).1 ∧ R.Clean (f h).2) :
    Safe (R.Encloses limit count) Q (create f) := fun s hs =>
  ⟨(hf s.heap hs.heap).1, hs.withHeap (hf s.heap hs.heap).2⟩

theorem safe_modifyHeap {f : Turn → Heap} (hf : ∀ s, R.Encloses limit count s → R.Clean (f s)) :
    Safe (R.Encloses limit count) (fun _ => True)
      (modify fun s => { s with heap := f s } : Exec PUnit) :=
  safe_modify fun s hs => hs.withHeap (hf s hs)

theorem safe_emit (e : Event) : Safe (R.Encloses limit count) (fun _ => True) (emit e) :=
  safe_modify fun _ hs => ⟨hs.hosts, hs.heap, hs.globals, hs.task, hs.tasks, hs.limit, hs.count⟩

theorem safe_note (a : Act) : Safe (R.Encloses limit count) (fun _ => True) (note a) :=
  safe_modify fun _ hs => ⟨hs.hosts, hs.heap, hs.globals, hs.task, hs.tasks, hs.limit, hs.count⟩

theorem safe_touch (x : Touch) : Safe (R.Encloses limit count) (fun _ => True) (touch x) :=
  safe_modify fun _ hs => ⟨hs.hosts, hs.heap, hs.globals, hs.task, hs.tasks, hs.limit, hs.count⟩

theorem safe_take (height : Nat) : Safe (R.Encloses limit count) (fun _ => True) (take height) :=
  safe_modify fun _ hs => ⟨hs.hosts, hs.heap, hs.globals, hs.task, hs.tasks, hs.limit, hs.count⟩

theorem safe_push {v : Value} (hv : R.Holds v) :
    Safe (R.Encloses limit count) (fun _ => True) (push v) :=
  safe_modifyTask fun _ ht => ht.push hv

theorem safe_pop : Safe (R.Encloses limit count) R.Holds pop := by
  refine safe_bind (Q := R.Holds) (safe_onTask fun t v t' ht hpop => ?_) fun v hv => ?_
  · unfold Task.pop at hpop
    split at hpop
    · rename_i hlast
      cases hpop
      exact ⟨ht.stack v (Array.mem_of_back? hlast),
        ht.withStack fun w hw => ht.stack w (mem_of_mem_pop hw)⟩
    · cases hpop
  · exact safe_get_bind fun s _ => safe_bind (safe_take _) fun _ _ => safe_pure hv

theorem safe_peek : Safe (R.Encloses limit count) R.Holds peek := by
  refine safe_get_bind fun s hs => safe_ofExcept fun v hv => ?_
  unfold Task.peek at hv
  split at hv
  · rename_i hlast
    cases hv
    exact hs.task.stack v (Array.mem_of_back? hlast)
  · cases hv

theorem safe_popMany (n : Nat) :
    Safe (R.Encloses limit count) (fun vs => ∀ v ∈ vs, R.Holds v) (popMany n) := by
  refine safe_bind (Q := fun vs => ∀ v ∈ vs, R.Holds v)
    (safe_onTask fun t vs t' ht hpop => ?_) fun vs hvs => ?_
  · unfold Task.popMany at hpop
    split at hpop
    · cases hpop
      refine ⟨fun v hv => ht.stack v ?_, ht.takeStack _⟩
      rw [Array.toList_extract] at hv
      exact Array.mem_toList_iff.mp
        (List.mem_of_mem_drop (List.mem_of_mem_take (by simpa using hv)))
    · cases hpop
  · exact safe_get_bind fun s _ => safe_bind (safe_take _) fun _ _ => safe_pure hvs

/-! ## Operands -/

theorem safe_frame : Safe (R.Encloses limit count) (fun f => R.closures f.closure) frame := by
  refine safe_get_bind fun s hs => safe_ofExcept fun f hf => ?_
  unfold Task.frame at hf
  split at hf
  · rename_i hframes
    cases hf
    exact hs.task.frames f (hframes ▸ List.mem_cons_self)
  · cases hf

theorem safe_invalid (reason : String) : Safe (R.Encloses limit count) Q (invalid reason) :=
  safe_get_bind fun _ _ => safe_raise _

theorem safe_readByte : Safe (R.Encloses limit count) (fun _ => True) readByte := by
  refine safe_bind safe_frame fun f hf => safe_get_bind fun s hs => ?_
  refine safe_bind (Q := fun r : UInt8 × Frame => R.closures r.2.closure)
    (safe_ofExcept fun r hr => ?_) fun r hr => ?_
  · unfold Frame.readByte at hr
    split at hr
    · cases hr
      exact hf
    · cases hr
  · exact safe_bind (safe_modifyTask fun t ht => ht.setFrame hr) fun _ _ => safe_pure trivial

theorem safe_readWord : Safe (R.Encloses limit count) (fun _ => True) readWord :=
  safe_bind safe_readByte fun _ _ => safe_bind safe_readByte fun _ _ => safe_pure trivial

theorem safe_readOffset : Safe (R.Encloses limit count) (fun _ => True) readOffset :=
  safe_bind safe_readWord fun _ _ => safe_pure trivial

theorem safe_jump (offset : Int) : Safe (R.Encloses limit count) (fun _ => True) (jump offset) := by
  refine safe_bind safe_frame fun f hf => safe_get_bind fun s hs => ?_
  refine safe_bind (Q := fun g : Frame => R.closures g.closure)
    (safe_ofExcept fun g hg => ?_) fun g hg => safe_modifyTask fun t ht => ht.setFrame hg
  unfold Frame.jump at hg
  split at hg
  · cases hg
    exact hf
  · cases hg

/-- What code names leads nowhere. -/
theorem safe_constant (index : Nat) : Safe (R.Encloses limit count) R.Holds (constant index) := by
  refine safe_bind safe_frame fun f hf => safe_get_bind fun s hs => safe_ofExcept fun v hv => ?_
  unfold Frame.constant at hv
  split at hv
  · rename_i hconstant
    cases hv
    exact Region.Holds.of_literal (hs.heap.coded.literal _ v (Array.mem_of_getElem? hconstant))
  · cases hv

theorem safe_readName : Safe (R.Encloses limit count) (fun _ => True) readName := by
  refine safe_bind safe_readWord fun w _ => safe_bind (safe_constant w) fun v _ => ?_
  split
  · exact safe_pure trivial
  · exact safe_invalid _

theorem safe_readBytes : ∀ n, Safe (R.Encloses limit count) (fun _ => True) (readBytes n)
  | 0 => safe_pure trivial
  | n + 1 => safe_bind safe_readByte fun _ _ =>
      safe_bind (safe_readBytes n) fun _ _ => safe_pure trivial

theorem safe_localIndex (slot : Nat) :
    Safe (R.Encloses limit count) (fun _ => True) (localIndex slot) := by
  refine safe_bind safe_frame fun f hf => safe_get_bind fun s hs => ?_
  split
  · exact safe_pure trivial
  · exact safe_invalid _

theorem safe_setSlot (index : Nat) {v : Value} (hv : R.Holds v) :
    Safe (R.Encloses limit count) (fun _ => True) (setSlot index v) :=
  safe_bind (safe_modifyTask fun _ ht => ht.setSlot index hv) fun _ _ =>
    safe_get_bind fun _ _ => safe_note _

theorem safe_pushLocal (slot : Nat) :
    Safe (R.Encloses limit count) (fun _ => True) (pushLocal slot) := by
  refine safe_bind (safe_localIndex slot) fun index _ => safe_get_bind fun s hs => ?_
  exact safe_bind (safe_note _) fun _ _ => safe_push (hs.task.slot index)

/-! ## Variables -/

theorem safe_readUpvalue : Safe (R.Encloses limit count) R.cells readUpvalue := by
  refine safe_bind safe_readByte fun index _ => safe_bind safe_frame fun f hf => ?_
  refine safe_get_bind fun s hs => ?_
  split
  · rename_i cell hcell
    exact safe_pure (hs.heap.closures _ hf cell (Array.mem_of_getElem? hcell))
  · exact safe_invalid _

theorem stackOf_holds {s : Turn} (hs : R.Encloses limit count s) (task : TaskId) :
    ∀ v ∈ stackOf s task, R.Holds v := by
  unfold stackOf
  split
  · exact hs.task.stack
  · split
    · rename_i t ht
      exact (hs.tasks _ t ht).stack
    · exact fun v hv => nomatch Array.not_mem_empty v hv

theorem safe_readCell {cell : CellId} (hc : R.cells cell) :
    Safe (R.Encloses limit count) R.Holds (readCell cell) := by
  refine safe_get_bind fun s hs => safe_bind (safe_note _) fun _ _ => safe_pure ?_
  split
  · rename_i v hv
    exact hs.heap.cells cell v hc hv
  · rw [Array.getD_eq_getD_getElem?]
    exact Region.holds_getD fun v hv => stackOf_holds hs _ v (Array.mem_of_getElem? hv)

theorem encloses_setSlotOf {s : Turn} (hs : R.Encloses limit count s) (task : TaskId) (slot : Nat)
    {v : Value} (hv : R.Holds v) : R.Encloses limit count (setSlotOf task slot v s) := by
  unfold setSlotOf
  dsimp only
  split
  · exact hs.withTask (hs.task.setSlot slot hv)
  · split
    · rename_i t ht
      exact ⟨hs.hosts, hs.heap, hs.globals, hs.task, hs.put ((hs.tasks _ t ht).setSlot slot hv),
        hs.limit, hs.count⟩
    · exact hs

theorem safe_writeCell (cell : CellId) {v : Value} (hv : R.Holds v) :
    Safe (R.Encloses limit count) (fun _ => True) (writeCell cell v) := by
  refine safe_bind (safe_note _) fun _ _ => safe_get_bind fun s hs => ?_
  split
  · exact safe_modifyHeap fun _ hs => hs.heap.setCell cell hv
  · exact safe_bind (safe_touch _) fun _ _ => safe_modify fun _ hs =>
      encloses_setSlotOf hs _ _ hv

theorem safe_globalSlot (index : Nat) :
    Safe (R.Encloses limit count) (fun _ => True) (globalSlot index) := by
  refine safe_get_bind fun s hs => safe_bind safe_frame fun f _ => ?_
  dsimp only
  split
  · exact safe_pure trivial
  · split
    · split
      · exact safe_bind (safe_modifyHeap fun _ hs => hs.heap.rememberSlot _ _ _ _) fun _ _ =>
          safe_pure trivial
      · exact safe_raise _
    · exact safe_invalid _

theorem setGlobal_fields (vm : Vm) (name : String) (v : Value) :
    (vm.setGlobal name v).globals = vm.globals.insert name v ∧
      (vm.setGlobal name v).scheduler = vm.scheduler ∧
      (vm.setGlobal name v).config = vm.config ∧
      (vm.setGlobal name v).instructions = vm.instructions := by
  unfold Vm.setGlobal
  extract_lets isNative wasNative vm'
  split
  · exact ⟨rfl, rfl, rfl, rfl⟩
  · exact ⟨rfl, rfl, rfl, rfl⟩

theorem safe_setGlobal (name : String) {v : Value} (hv : R.Holds v) :
    Safe (R.Encloses limit count) (fun _ => True) (setGlobal name v) := by
  refine safe_modify fun s hs => ?_
  obtain ⟨hglobals, hscheduler, hconfig, hcount⟩ := setGlobal_fields s.vm name v
  exact ⟨hs.hosts, hs.heap, hglobals ▸ hs.globals.insert name hv, hs.task, hscheduler ▸ hs.tasks,
    hconfig ▸ hs.limit, hcount.trans hs.count⟩

/-! ## Operations on the stack -/

theorem safe_binary {op : Heap → Value → Value → Except RuntimeError Value}
    (hop : ∀ h a b v, R.Clean h → R.Holds a → R.Holds b → op h a b = .ok v → R.Holds v) :
    Safe (R.Encloses limit count) (fun _ => True) (binary op) := by
  refine safe_bind safe_pop fun b hb => safe_bind safe_pop fun a ha => ?_
  refine safe_get_bind fun s hs => ?_
  refine safe_bind (Q := R.Holds) (safe_ofExcept fun v hv => ?_) fun v hv => safe_push hv
  exact hop _ a b v hs.heap ha hb hv

/-- **A comparison has an answer.** -/
theorem safe_equality (wanted : Bool) :
    Safe (R.Encloses limit count) (fun _ => True) (equality wanted) := by
  refine safe_bind safe_pop fun b hb => safe_bind safe_pop fun a ha => ?_
  refine safe_get_bind fun s hs => ?_
  obtain ⟨same, hsame⟩ := Heap.equal?_answers hs.heap.coded a b
  rw [hsame]
  exact safe_push trivial

theorem safe_ordering (test : Ordering → Bool) :
    Safe (R.Encloses limit count) (fun _ => True) (ordering test) := by
  refine safe_bind safe_pop fun b hb => safe_bind safe_pop fun a ha => ?_
  exact safe_bind (safe_check _) fun _ _ => safe_push trivial

theorem safe_popChannel : Safe (R.Encloses limit count) R.channels popChannel := by
  refine safe_bind safe_pop fun v hv => safe_get_bind fun s hs => safe_ofExcept fun c hc => ?_
  unfold channelOf at hc
  dsimp only at hc
  split at hc
  · split at hc
    · cases hc
      exact hv
    · cases hc
  · cases hc

theorem safe_popKey : Safe (R.Encloses limit count) (fun _ => True) popKey :=
  safe_bind safe_pop fun _ _ => safe_get_bind fun _ _ => safe_pure trivial

theorem safe_mapOf {v : Value} (hv : R.Holds v) :
    Safe (R.Encloses limit count) R.maps (Exec.ofExcept (mapOf v)) := by
  refine safe_ofExcept fun m hm => ?_
  cases v with
  | map i =>
    cases hm
    exact hv
  | _ => cases hm

theorem safe_keyed {m : OrderedMap Value} (hm : m.All R.Holds) (key : String) :
    Safe (R.Encloses limit count) R.Holds (Exec.ofExcept (keyed m key)) := by
  refine safe_ofExcept fun v hv => ?_
  unfold keyed at hv
  split at hv
  · rename_i hfound
    cases hv
    exact hm.get? hfound
  · cases hv

theorem safe_setMap (id : MapId) {m : OrderedMap Value} (hm : m.All R.Holds) :
    Safe (R.Encloses limit count) (fun _ => True) (setMap id m) :=
  safe_modifyHeap fun _ hs => hs.heap.setMap id fun _ => hm

theorem safe_newArray {items : List Value} (hi : ∀ v ∈ items, R.Holds v) :
    Safe (R.Encloses limit count) R.arrays (create (·.newArray items.toArray)) :=
  safe_create fun h hh => ⟨hh.newArrays _ (Nat.le_refl _), hh.newArray (by simpa using hi)⟩

theorem safe_pushArray {items : List Value} (hi : ∀ v ∈ items, R.Holds v) :
    Safe (R.Encloses limit count) (fun _ => True) (pushArray items) :=
  safe_bind (safe_newArray hi) fun _ hid => safe_push hid

theorem entriesOf_holds (h : Heap) : ∀ {vs : List Value}, (∀ v ∈ vs, R.Holds v) →
    ∀ e ∈ entriesOf h vs, R.Holds e.2
  | k :: v :: rest, hvs, e, he => by
    rcases List.mem_cons.mp he with rfl | he
    · exact hvs v (List.mem_cons_of_mem _ List.mem_cons_self)
    · exact entriesOf_holds h (fun w hw => hvs w (List.mem_cons_of_mem _
        (List.mem_cons_of_mem _ hw))) e he
  | [], _, _, he => nomatch he
  | [_], _, _, he => nomatch he

theorem safe_pushMap (pairs : Nat) :
    Safe (R.Encloses limit count) (fun _ => True) (pushMap pairs) := by
  refine safe_bind (safe_popMany _) fun flat hflat => safe_get_bind fun s hs => ?_
  refine safe_bind (Q := R.maps) (safe_create fun h hh => ?_) fun _ hid => safe_push hid
  exact ⟨hh.newMaps _ (Nat.le_refl _),
    hh.newMap (OrderedMap.all_ofList (entriesOf_holds _ hflat))⟩

theorem safe_pushFirst : ∀ (n : Nat) {vs : List Value}, (∀ v ∈ vs, R.Holds v) →
    Safe (R.Encloses limit count) (fun _ => True) (pushFirst n vs)
  | 0, _, _ => safe_pure trivial
  | n + 1, vs, hvs => by
    refine safe_bind (safe_push ?_) fun _ _ =>
      safe_pushFirst n fun v hv => hvs v (List.mem_of_mem_tail hv)
    cases vs with
    | nil => exact trivial
    | cons v vs => exact hvs v List.mem_cons_self

theorem safe_writeLine (line : String) :
    Safe (R.Encloses limit count) (fun _ => True) (writeLine line) :=
  safe_modifyHeap fun _ hs => hs.heap.writeLine _ _

theorem safe_touchIteration (left : Nat) :
    Safe (R.Encloses limit count) (fun _ => True) (touchIteration left) :=
  safe_get_bind fun _ _ => safe_touch _

theorem safe_nextItem :
    Safe (R.Encloses limit count) (fun item => ∀ v, item = some v → R.Holds v) nextItem := by
  refine safe_get_bind fun s hs => ?_
  split
  · rename_i i rest hi
    have hitems := hs.task.iterations i (hi ▸ List.mem_cons_self)
    have hrest : ∀ j ∈ rest, ∀ v ∈ j.rest, R.Holds v := fun j hj =>
      hs.task.iterations j (hi ▸ List.mem_cons_of_mem _ hj)
    have hnext : (∀ v, i.next.1 = some v → R.Holds v) ∧ ∀ v ∈ i.next.2.rest, R.Holds v := by
      unfold Iteration.next
      split
      · exact ⟨nofun, hitems⟩
      · rename_i v vs hr
        rw [hr] at hitems
        refine ⟨fun w hw => ?_, fun w hw => hitems w (List.mem_cons_of_mem _ hw)⟩
        cases hw
        exact hitems v List.mem_cons_self
    refine safe_bind (safe_touchIteration _) fun _ _ => ?_
    refine safe_bind (safe_modifyTask fun t ht => ht.withIterations fun j hj => ?_) fun _ _ =>
      safe_pure hnext.1
    rcases List.mem_cons.mp hj with rfl | hj
    · exact hnext.2
    · exact hrest j hj
  · exact safe_invalid _

theorem safe_endIteration : Safe (R.Encloses limit count) (fun _ => True) endIteration := by
  refine safe_get_bind fun s hs => ?_
  split
  · rename_i i rest hi
    refine safe_bind (safe_touchIteration _) fun _ _ => ?_
    exact safe_modifyTask fun t ht => ht.withIterations fun j hj =>
      hs.task.iterations j (hi ▸ List.mem_cons_of_mem _ hj)
  · exact safe_invalid _

/-- Handlers hold no values. -/
theorem safe_handlers {f : Task → List Handler} {g : Task → Nat} :
    Safe (R.Encloses limit count) (fun _ => True)
      (modifyTask fun t => { t with handlers := f t, registrations := g t }) :=
  safe_modifyTask fun _ ht => ⟨ht.stack, ht.iterations, ht.resume, ht.frames, ht.opened⟩

theorem safe_dropHandler : Safe (R.Encloses limit count) (fun _ => True) dropHandler := by
  refine safe_get_bind fun s hs => ?_
  dsimp only
  split
  · exact safe_bind (safe_touch _) fun _ _ => safe_handlers
  · exact safe_pure trivial

theorem safe_tryBegin : Safe (R.Encloses limit count) (fun _ => True) tryBegin := by
  refine safe_bind safe_readOffset fun offset _ => safe_get_bind fun s hs => ?_
  refine safe_bind safe_frame fun f _ => ?_
  split
  · exact safe_invalid _
  · exact safe_handlers

theorem safe_tryEnd : Safe (R.Encloses limit count) (fun _ => True) tryEnd := by
  refine safe_modifyTask fun t ht => ?_
  split
  · split
    · exact ⟨ht.stack, ht.iterations, ht.resume, ht.frames, ht.opened⟩
    · exact ht
  · exact ht

theorem safe_dropFrame (f : Frame) {callers : List Frame}
    (hcallers : ∀ g ∈ callers, R.closures g.closure) :
    Safe (R.Encloses limit count) (fun _ => True) (dropFrame f callers) := by
  refine safe_modify fun s hs => ?_
  obtain ⟨hheap, hopened⟩ := hs.heap.closeFrom hs.task f.stackBase
  have htask := (hs.task.truncate f.iterBase).takeStack f.stackBase
  exact ⟨hs.hosts, hheap, hs.globals,
    ⟨htask.stack, htask.iterations, htask.resume, hcallers, hopened⟩, hs.tasks, hs.limit, hs.count⟩

/-- What an instruction throws, or a task ends with. -/
def HoldsFlow (R : Region) : Flow → Prop
  | .done v | .thrown v => R.Holds v
  | _ => True

theorem safe_leaveFrame {result : Value} (hr : R.Holds result) :
    Safe (R.Encloses limit count) (HoldsFlow R) (leaveFrame result) := by
  refine safe_get_bind fun s hs => ?_
  split
  · exact safe_pure trivial
  · rename_i f callers hf
    refine safe_get_bind fun s' _ => safe_bind (safe_emit _) fun _ _ => ?_
    refine safe_bind (safe_dropFrame f fun g hg =>
      hs.task.frames g (hf ▸ List.mem_cons_of_mem _ hg)) fun _ _ => ?_
    split
    · exact safe_pure hr
    · exact safe_bind (safe_push hr) fun _ _ => safe_pure trivial

end Exec

end TaskVm
