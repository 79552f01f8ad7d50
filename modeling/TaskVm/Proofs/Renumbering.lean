import TaskVm.Machine.Run
import TaskVm.Proofs.Scheduling
import Mathlib.Order.Monotone.Basic

/-!
# Other numbers for tasks

Tasks have numbers, which waiters, captured variables and handles refer to. What numbers they
are does not matter as long as they are in the same order: a heap, a scheduler or a channel in
which all tasks have got other numbers answers every question as before, in the other numbers.
-/

namespace TaskVm

/-- Other numbers for tasks, in the same order. The number 0 stays, since it is also what is
read where there is nothing to read. -/
structure Renumbers (ρ : TaskId → TaskId) : Prop where
  mono : StrictMono ρ
  zero : ρ 0 = 0

theorem Renumbers.id : Renumbers id := ⟨strictMono_id, rfl⟩

theorem Renumbers.eq_iff {ρ : TaskId → TaskId} (hρ : Renumbers ρ) {k l : TaskId} :
    ρ k = ρ l ↔ k = l := hρ.mono.injective.eq_iff

/-! ## Tables with task numbers for keys -/

section

variable {α β : Type} {ρ : TaskId → TaskId}

/-- Other keys, and other values with them. -/
def rekey (ρ : TaskId → TaskId) (f : α → β) (table : Std.ExtTreeMap TaskId α) :
    Std.ExtTreeMap TaskId β :=
  .ofList (table.toList.map fun e => (ρ e.1, f e.2))

theorem toList_ofList {l : List (TaskId × α)} (h : l.Pairwise fun a b => compare a.1 b.1 = .lt) :
    (Std.ExtTreeMap.ofList l : Std.ExtTreeMap TaskId α).toList = l := by
  have hdistinct : l.Pairwise fun a b => ¬compare a.1 b.1 = .eq :=
    h.imp fun hab heq => by rw [hab] at heq; cases heq
  have hnodup : ∀ {l : List (TaskId × α)}, l.Pairwise (fun a b => compare a.1 b.1 = .lt) →
      l.Nodup := fun hl => hl.imp fun {a b} hab heq => by
    rw [heq, Nat.compare_eq_lt] at hab
    exact Nat.lt_irrefl _ hab
  refine List.Perm.eq_of_pairwise (fun a b _ _ hab hba => ?_) Std.ExtTreeMap.ordered_keys_toList h
    ((List.perm_ext_iff_of_nodup (hnodup Std.ExtTreeMap.ordered_keys_toList) (hnodup h)).mpr
      fun e => ?_)
  · exact absurd (Nat.compare_eq_lt.mp hab) (Nat.lt_asymm (Nat.compare_eq_lt.mp hba))
  · rw [Std.ExtTreeMap.mem_toList_iff_getElem?_eq_some]
    constructor
    · intro he
      by_contra hmem
      by_cases hkey : e.1 ∈ l.map Prod.fst
      · obtain ⟨e', he', hfst⟩ := List.mem_map.mp hkey
        rw [Std.ExtTreeMap.getElem?_ofList_of_mem (Nat.compare_eq_eq.mpr hfst) hdistinct he'] at he
        exact hmem (Prod.ext hfst (Option.some.inj he) ▸ he')
      · rw [Std.ExtTreeMap.getElem?_ofList_of_contains_eq_false (by simpa using hkey)] at he
        cases he
    · exact fun he =>
        Std.ExtTreeMap.getElem?_ofList_of_mem (Nat.compare_eq_eq.mpr rfl) hdistinct he

/-- The order of the keys is the same. -/
theorem toList_rekey (hρ : Renumbers ρ) (f : α → β) (table : Std.ExtTreeMap TaskId α) :
    (rekey ρ f table).toList = table.toList.map fun e => (ρ e.1, f e.2) := by
  refine toList_ofList (List.pairwise_map.mpr ?_)
  refine Std.ExtTreeMap.ordered_keys_toList.imp fun hab => ?_
  exact Nat.compare_eq_lt.mpr (hρ.mono (Nat.compare_eq_lt.mp hab))

theorem getElem?_rekey (hρ : Renumbers ρ) (f : α → β) (table : Std.ExtTreeMap TaskId α)
    (k : TaskId) : (rekey ρ f table)[ρ k]? = table[k]?.map f := by
  have hmem : ∀ b, (rekey ρ f table)[ρ k]? = some b ↔ table[k]?.map f = some b := by
    intro b
    rw [← Std.ExtTreeMap.mem_toList_iff_getElem?_eq_some, toList_rekey hρ, List.mem_map,
      Option.map_eq_some_iff]
    constructor
    · rintro ⟨e, he, heq⟩
      obtain ⟨hkey, hb⟩ := Prod.mk.inj heq
      rw [hρ.eq_iff] at hkey
      subst hkey
      exact ⟨e.2, Std.ExtTreeMap.mem_toList_iff_getElem?_eq_some.mp he, hb⟩
    · rintro ⟨a, ha, rfl⟩
      exact ⟨(k, a), Std.ExtTreeMap.mem_toList_iff_getElem?_eq_some.mpr ha, rfl⟩
  exact Option.ext hmem

/-- A key that no number has become is not there. -/
theorem getElem?_rekey_none (hρ : Renumbers ρ) (f : α → β) (table : Std.ExtTreeMap TaskId α)
    {j : TaskId} (hj : ∀ k, ρ k ≠ j) : (rekey ρ f table)[j]? = none := by
  refine Option.eq_none_iff_forall_ne_some.mpr fun b hb => ?_
  rw [← Std.ExtTreeMap.mem_toList_iff_getElem?_eq_some, toList_rekey hρ] at hb
  obtain ⟨e, -, heq⟩ := List.mem_map.mp hb
  exact hj e.1 (Prod.mk.inj heq).1

theorem rekey_ext (hρ : Renumbers ρ) {f : α → β} {table : Std.ExtTreeMap TaskId α}
    {table' : Std.ExtTreeMap TaskId β} (hk : ∀ k, table'[ρ k]? = table[k]?.map f)
    (hnone : ∀ j, (∀ k, ρ k ≠ j) → table'[j]? = none) : table' = rekey ρ f table := by
  refine Std.ExtTreeMap.ext_getElem? fun j => ?_
  by_cases hj : ∃ k, ρ k = j
  · obtain ⟨k, rfl⟩ := hj
    rw [hk, getElem?_rekey hρ]
  · have hj' : ∀ k, ρ k ≠ j := fun k hkj => hj ⟨k, hkj⟩
    rw [hnone j hj', getElem?_rekey_none hρ f table hj']

theorem rekey_insert (hρ : Renumbers ρ) (f : α → β) (table : Std.ExtTreeMap TaskId α) (k : TaskId)
    (a : α) : (rekey ρ f table).insert (ρ k) (f a) = rekey ρ f (table.insert k a) := by
  refine rekey_ext hρ (fun l => ?_) fun j hj => ?_
  · rw [getElem?_insert_ite, getElem?_insert_ite, getElem?_rekey hρ]
    by_cases h : l = k
    · rw [if_pos h, if_pos (congrArg ρ h), Option.map_some]
    · rw [if_neg h, if_neg (mt hρ.eq_iff.mp h)]
  · rw [getElem?_insert_ite, if_neg (hj k).symm, getElem?_rekey_none hρ f table hj]

theorem rekey_erase (hρ : Renumbers ρ) (f : α → β) (table : Std.ExtTreeMap TaskId α)
    (k : TaskId) : (rekey ρ f table).erase (ρ k) = rekey ρ f (table.erase k) := by
  refine rekey_ext hρ (fun l => ?_) fun j hj => ?_
  · simp only [Std.ExtTreeMap.getElem?_erase, getElem?_rekey hρ, Nat.compare_eq_eq, hρ.eq_iff]
    split <;> rfl
  · simp only [Std.ExtTreeMap.getElem?_erase, getElem?_rekey_none hρ f table hj, ite_self]

end

/-! ## Objects -/

variable {ρ : TaskId → TaskId}

/-- The same waiter of a task with another number. -/
def Waiter.renumber (ρ : TaskId → TaskId) (w : Waiter) : Waiter := { w with task := ρ w.task }

def Channel.renumber (ρ : TaskId → TaskId) (c : Channel) : Channel :=
  { c with
    receivers := c.receivers.map (·.renumber ρ)
    senders := c.senders.map fun s => (s.1.renumber ρ, s.2) }

def Cell.renumber (ρ : TaskId → TaskId) : Cell → Cell
  | .onStack task slot => .onStack (ρ task) slot
  | .closed v => .closed v

def TaskHandle.renumber (ρ : TaskId → TaskId) (t : TaskHandle) : TaskHandle :=
  { t with id := ρ t.id }

def Task.renumber (ρ : TaskId → TaskId) (t : Task) : Task := { t with id := ρ t.id }

def Scheduler.renumber (ρ : TaskId → TaskId) (s : Scheduler) : Scheduler where
  tasks := rekey ρ (Task.renumber ρ) s.tasks
  queue := s.queue.map ρ
  nextId := ρ s.nextId

def SendOutcome.renumber (ρ : TaskId → TaskId) : SendOutcome → SendOutcome
  | .sent handedTo => .sent (handedTo.map fun w => (w.1.renumber ρ, w.2))
  | .closed v => .closed v
  | .wouldBlock v => .wouldBlock v

def ReceiveOutcome.renumber (ρ : TaskId → TaskId) : ReceiveOutcome → ReceiveOutcome
  | .received v released => .received v (released.map (·.renumber ρ))
  | .closed => .closed
  | .wouldBlock => .wouldBlock

/-! ## Code -/

/-- Code without what is remembered about it. -/
def Chunk.blank (c : Chunk) : Chunk := { c with slotCache := {} }

/-- The same code, whatever is remembered about it. -/
def SameCode (cs cs' : Array Chunk) : Prop := cs.map Chunk.blank = cs'.map Chunk.blank

theorem SameCode.getD {cs cs' : Array Chunk} (h : SameCode cs cs') (i : ChunkId) :
    (cs.getD i {}).blank = (cs'.getD i {}).blank := by
  have hi : (cs.map Chunk.blank)[i]? = (cs'.map Chunk.blank)[i]? := by rw [h]
  rw [Array.getElem?_map, Array.getElem?_map] at hi
  have hget : ∀ cs : Array Chunk, (cs.getD i {}).blank = (cs[i]?.map Chunk.blank).getD {} := by
    intro cs
    rw [Array.getD_eq_getD_getElem?]
    cases cs[i]? <;> rfl
  rw [hget, hget, hi]

theorem SameCode.append {cs cs' : Array Chunk} (h : SameCode cs cs') (fresh : Array Chunk) :
    SameCode (cs ++ fresh) (cs' ++ fresh) := by
  rw [SameCode, Array.map_append, Array.map_append, h]

/-- Remembering something about code does not change it. -/
theorem sameCode_rememberSlot (h : Heap) (id : ChunkId) (constant : Nat) (vm : VmId) (slot : Nat) :
    SameCode (h.rememberSlot id constant vm slot).chunks h.chunks := by
  refine Array.ext_getElem? fun i => ?_
  rw [Array.getElem?_map, Array.getElem?_map, Heap.rememberSlot, Array.getElem?_modify]
  split
  · rw [Option.map_map]
    rfl
  · rfl

/-! ## Heaps -/

namespace Heap

/-- A heap with other numbers for tasks, and with other things remembered about code. -/
def guise (ρ : TaskId → TaskId) (chunks : Array Chunk) (h : Heap) : Heap :=
  { h with
    chunks
    cells := h.cells.map (·.renumber ρ)
    channels := h.channels.map (·.renumber ρ)
    handles := h.handles.map (·.renumber ρ) }

variable {h : Heap} {cs : Array Chunk}

theorem channel_guise (i : ChannelId) : (h.guise ρ cs).channel i = (h.channel i).renumber ρ := by
  simp only [channel, guise, Array.getD_eq_getD_getElem?, Array.getElem?_map]
  cases h.channels[i]? <;> rfl

/-- The tasks with these numbers are the only ones that are named in a heap. -/
structure NamesOnly (h : Heap) (P : TaskId → Prop) : Prop where
  cells : ∀ task slot, .onStack task slot ∈ h.cells → P task
  channels : ∀ c ∈ h.channels, ∀ w ∈ c.receivers ++ c.senders.map (·.1), P w.task
  handles : ∀ t ∈ h.handles, P t.id

theorem NamesOnly.mono {P Q : TaskId → Prop} (hn : h.NamesOnly P) (hpq : ∀ k, P k → Q k) :
    h.NamesOnly Q :=
  ⟨fun task slot hc => hpq _ (hn.cells task slot hc),
    fun c hc w hw => hpq _ (hn.channels c hc w hw), fun t ht => hpq _ (hn.handles t ht)⟩

/-- Nothing changes if the numbers in a heap stay. -/
theorem guise_eq {P : TaskId → Prop} (hn : h.NamesOnly P) (hρ : ∀ k, P k → ρ k = k) :
    h.guise ρ cs = { h with chunks := cs } := by
  have hwaiter : ∀ w : Waiter, P w.task → w.renumber ρ = w := fun w hw =>
    congrArg (fun task => { w with task }) (hρ _ hw)
  have hcells : h.cells.map (·.renumber ρ) = h.cells := by
    refine (Array.map_congr_left fun c hc => ?_).trans (Array.map_id' _)
    cases c with
    | closed v => rfl
    | onStack task slot => exact congrArg (Cell.onStack · slot) (hρ _ (hn.cells task slot hc))
  have hchannels : h.channels.map (·.renumber ρ) = h.channels := by
    refine (Array.map_congr_left fun c hc => ?_).trans (Array.map_id' _)
    have hreceivers : c.receivers.map (·.renumber ρ) = c.receivers :=
      (List.map_congr_left fun w hw =>
        hwaiter w (hn.channels c hc w (List.mem_append_left _ hw))).trans (List.map_id' _)
    have hsenders : (c.senders.map fun s => (s.1.renumber ρ, s.2)) = c.senders :=
      (List.map_congr_left fun s hs => congrArg (·, s.2) (hwaiter s.1 (hn.channels c hc s.1
        (List.mem_append_right _ (List.mem_map_of_mem hs))))).trans (List.map_id' _)
    show { c with receivers := _, senders := _ } = c
    rw [hreceivers, hsenders]
  have hhandles : h.handles.map (·.renumber ρ) = h.handles :=
    (Array.map_congr_left fun t ht =>
      congrArg (fun id => { t with id }) (hρ _ (hn.handles t ht))).trans (Array.map_id' _)
  rw [guise, hcells, hchannels, hhandles]

theorem guise_id (h : Heap) : h.guise id h.chunks = h :=
  guise_eq (P := fun _ => True) ⟨fun _ _ _ => trivial, fun _ _ _ _ => trivial, fun _ _ => trivial⟩
    fun _ _ => rfl

theorem cell_guise (hρ : Renumbers ρ) (i : CellId) :
    (h.guise ρ cs).cell i = (h.cell i).renumber ρ := by
  simp only [cell, guise, Array.getD_eq_getD_getElem?, Array.getElem?_map]
  cases h.cells[i]? with
  | none => exact (congrArg (Cell.onStack · 0) hρ.zero).symm
  | some c => rfl

theorem handle_guise (hρ : Renumbers ρ) (i : HandleId) :
    (h.guise ρ cs).handle i = (h.handle i).renumber ρ := by
  simp only [handle, guise, Array.getD_eq_getD_getElem?, Array.getElem?_map]
  cases h.handles[i]? with
  | none => exact (congrArg (fun id => { (default : TaskHandle) with id }) hρ.zero).symm
  | some t => rfl

theorem status_guise (i : HandleId) :
    ((h.guise ρ cs).handle i).status = (h.handle i).status := by
  simp only [handle, guise, Array.getD_eq_getD_getElem?, Array.getElem?_map]
  cases h.handles[i]? <;> rfl

theorem chunk_guise (hcs : SameCode cs h.chunks) (i : ChunkId) :
    ((h.guise ρ cs).chunk i).blank = (h.chunk i).blank := hcs.getD i

theorem code_guise (hcs : SameCode cs h.chunks) (i : ChunkId) :
    ((h.guise ρ cs).chunk i).code = (h.chunk i).code :=
  show ((h.guise ρ cs).chunk i).blank.code = (h.chunk i).blank.code by rw [chunk_guise hcs]

theorem constants_guise (hcs : SameCode cs h.chunks) (i : ChunkId) :
    ((h.guise ρ cs).chunk i).constants = (h.chunk i).constants :=
  show ((h.guise ρ cs).chunk i).blank.constants = (h.chunk i).blank.constants by
    rw [chunk_guise hcs]

theorem lines_guise (hcs : SameCode cs h.chunks) (i : ChunkId) :
    ((h.guise ρ cs).chunk i).lines = (h.chunk i).lines :=
  show ((h.guise ρ cs).chunk i).blank.lines = (h.chunk i).blank.lines by rw [chunk_guise hcs]

theorem setStatus_guise (i : HandleId) (st : TaskStatus) :
    (h.guise ρ cs).setStatus i st = (h.setStatus i st).guise ρ cs := by
  refine congrArg (fun handles => { h.guise ρ cs with handles }) (Array.ext_getElem? fun j => ?_)
  simp only [guise, setStatus, Array.getElem?_modify, Array.getElem?_map]
  split
  · rw [Option.map_map, Option.map_map]
    rfl
  · rfl

theorem setChannel_guise (i : ChannelId) (c : Channel) :
    (h.guise ρ cs).setChannel i (c.renumber ρ) = (h.setChannel i c).guise ρ cs :=
  congrArg (fun channels => { h.guise ρ cs with channels }) Array.map_setIfInBounds.symm

theorem setCell_guise (i : CellId) (v : Value) :
    (h.guise ρ cs).setCell i (.closed v) = (h.setCell i (.closed v)).guise ρ cs :=
  congrArg (fun cells => { h.guise ρ cs with cells })
    (Array.map_setIfInBounds (f := Cell.renumber ρ) (a := .closed v)).symm

theorem newHandle_guise (id : TaskId) (name : String) :
    (h.guise ρ cs).newHandle { id := ρ id, name } =
      ((h.newHandle { id, name }).1, (h.newHandle { id, name }).2.guise ρ cs) := by
  refine Prod.ext (Array.size_map ..) ?_
  exact congrArg (fun handles => { h.guise ρ cs with handles })
    (Array.map_push (f := TaskHandle.renumber ρ) (x := { id, name })).symm

theorem newChannel_guise (n : Nat) : (h.guise ρ cs).newChannel (.ofCapacity n) =
    ((h.newChannel (.ofCapacity n)).1, (h.newChannel (.ofCapacity n)).2.guise ρ cs) := by
  refine Prod.ext (Array.size_map ..) ?_
  exact congrArg (fun channels => { h.guise ρ cs with channels })
    (Array.map_push (f := Channel.renumber ρ) (x := .ofCapacity n)).symm

end Heap

/-! ## Captured variables -/

section

variable {h : Heap} {cs : Array Chunk}

theorem OpenUpvalues.capture_guise (u : OpenUpvalues) (task : TaskId) (slot : Nat) :
    u.capture (h.guise ρ cs) (ρ task) slot = ((u.capture h task slot).1,
      (u.capture h task slot).2.1, (u.capture h task slot).2.2.guise ρ cs) := by
  unfold capture
  split
  · rfl
  · have hsize : (h.guise ρ cs).cells.size = h.cells.size := Array.size_map ..
    refine Prod.ext hsize (Prod.ext ?_ ?_)
    · exact congrArg (fun id => (⟨insertSorted slot id u.cells⟩ : OpenUpvalues)) hsize
    · exact congrArg (fun cells => { h.guise ρ cs with cells })
        (Array.map_push (f := Cell.renumber ρ) (x := .onStack task slot)).symm

theorem OpenUpvalues.closeCells_guise (stack : Array Value) (cells : List (Nat × CellId)) :
    ∀ h : Heap, closeCells (h.guise ρ cs) stack cells = (closeCells h stack cells).guise ρ cs := by
  induction cells with
  | nil => exact fun _ => rfl
  | cons c cells ih =>
    intro h
    simp only [closeCells, List.foldl_cons] at ih ⊢
    rw [Heap.setCell_guise, ih]

theorem OpenUpvalues.closeFrom_guise (u : OpenUpvalues) (base : Nat) (stack : Array Value) :
    u.closeFrom (h.guise ρ cs) base stack =
      ((u.closeFrom h base stack).1, (u.closeFrom h base stack).2.guise ρ cs) :=
  Prod.ext rfl (closeCells_guise stack _ h)

theorem Task.terminate_guise (t : Task) (status : TaskStatus) :
    (t.renumber ρ).terminate (h.guise ρ cs) status =
      ((t.terminate h status).1.renumber ρ, (t.terminate h status).2.guise ρ cs) := by
  refine Prod.ext rfl ?_
  show ((t.openUpvalues.closeAll (h.guise ρ cs) t.stack).2).setStatus t.handle status = _
  rw [OpenUpvalues.closeAll, OpenUpvalues.closeFrom_guise]
  exact Heap.setStatus_guise t.handle status

end

theorem Task.new_guise {h : Heap} {cs : Array Chunk} (id : TaskId) (name : String) :
    Task.new (h.guise ρ cs) (ρ id) name =
      ((Task.new h id name).1.renumber ρ, (Task.new h id name).2.guise ρ cs) := by
  unfold Task.new
  rw [Heap.newHandle_guise]
  rfl

/-! ## The scheduler -/

namespace Scheduler

variable {h : Heap} {cs : Array Chunk} {s : Scheduler}

theorem get?_renumber (hρ : Renumbers ρ) (k : TaskId) :
    (s.renumber ρ).get? (ρ k) = (s.get? k).map (Task.renumber ρ) := getElem?_rekey hρ _ _ k

theorem put_renumber (hρ : Renumbers ρ) (t : Task) :
    (s.renumber ρ).put (t.renumber ρ) = (s.put t).renumber ρ :=
  congrArg (fun tasks => { s.renumber ρ with tasks }) (rekey_insert hρ _ _ t.id t)

/-- The next number follows in both. -/
theorem takeId_renumber (hnext : ρ (s.nextId + 1) = ρ s.nextId + 1) :
    (s.renumber ρ).takeId = (ρ s.takeId.1, s.takeId.2.renumber ρ) :=
  congrArg (fun nextId => (ρ s.nextId, { s.renumber ρ with nextId })) hnext.symm

theorem requeue_guise (hρ : Renumbers ρ) (t : Task) :
    (s.renumber ρ).requeue (h.guise ρ cs) (t.renumber ρ) =
      ((s.requeue h t).1.renumber ρ, (s.requeue h t).2.guise ρ cs) := by
  refine Prod.ext ?_ (Heap.setStatus_guise t.handle .runnable)
  show { (s.renumber ρ).put (t.renumber ρ) with queue := s.queue.map ρ ++ [ρ t.id] } = _
  rw [put_renumber hρ]
  have hqueue : s.queue.map ρ ++ [ρ t.id] = (s.queue ++ [t.id]).map ρ := by simp
  rw [hqueue]
  rfl

theorem block_guise (hρ : Renumbers ρ) (t : Task) :
    (s.renumber ρ).block (h.guise ρ cs) (t.renumber ρ) =
      ((s.block h t).1.renumber ρ, (s.block h t).2.guise ρ cs) :=
  Prod.ext (put_renumber hρ t) (Heap.setStatus_guise t.handle .blocked)

theorem firstHeld_renumber (hρ : Renumbers ρ) (tasks : Std.ExtTreeMap TaskId Task)
    (queue : List TaskId) : firstHeld (rekey ρ (Task.renumber ρ) tasks) (queue.map ρ) =
      (firstHeld tasks queue).map fun r => (r.1.renumber ρ, r.2.map ρ) := by
  induction queue with
  | nil => rfl
  | cons id queue ih =>
    simp only [List.map_cons, firstHeld]
    rw [getElem?_rekey hρ]
    cases tasks[id]? with
    | some t => rfl
    | none => exact ih

theorem takeNext_guise (hρ : Renumbers ρ) : (s.renumber ρ).takeNext (h.guise ρ cs) =
    ((s.takeNext h).1.map (Task.renumber ρ), (s.takeNext h).2.1.renumber ρ,
      (s.takeNext h).2.2.guise ρ cs) := by
  unfold takeNext
  rw [show (s.renumber ρ).tasks = rekey ρ (Task.renumber ρ) s.tasks from rfl,
    show (s.renumber ρ).queue = s.queue.map ρ from rfl, firstHeld_renumber hρ]
  cases firstHeld s.tasks s.queue with
  | none => rfl
  | some r =>
    refine Prod.ext rfl (Prod.ext ?_ (Heap.setStatus_guise r.1.handle .running))
    exact congrArg (fun tasks => ({ tasks, queue := r.2.map ρ, nextId := ρ s.nextId } : Scheduler))
      (rekey_erase hρ _ s.tasks r.1.id)

theorem isLive_guise (hρ : Renumbers ρ) (w : Waiter) :
    (s.renumber ρ).isLive (h.guise ρ cs) (w.renumber ρ) = s.isLive h w := by
  unfold isLive
  rw [show (w.renumber ρ).task = ρ w.task from rfl, get?_renumber hρ]
  cases s.get? w.task with
  | none => rfl
  | some t =>
    show (((h.guise ρ cs).handle t.handle).status == .blocked && _) = _
    rw [Heap.status_guise]
    rfl

theorem wake_guise (hρ : Renumbers ρ) (w : Waiter) (r : Resume) :
    (s.renumber ρ).wake (h.guise ρ cs) (w.renumber ρ) r =
      ((s.wake h w r).1, (s.wake h w r).2.1.renumber ρ, (s.wake h w r).2.2.guise ρ cs) := by
  unfold wake
  rw [isLive_guise hρ, show (w.renumber ρ).task = ρ w.task from rfl, get?_renumber hρ]
  cases s.isLive h w with
  | false => rfl
  | true =>
    cases s.get? w.task with
    | none => rfl
    | some t =>
      refine Prod.ext rfl (Prod.ext ?_ (Heap.setStatus_guise t.handle .runnable))
      let t' : Task := { t with resume := some r, waitEpoch := t.waitEpoch + 1 }
      show { (s.renumber ρ).put (t'.renumber ρ) with queue := s.queue.map ρ ++ [ρ t'.id] } = _
      rw [put_renumber hρ]
      have hqueue : s.queue.map ρ ++ [ρ t'.id] = (s.queue ++ [t'.id]).map ρ := by simp
      rw [hqueue]
      rfl

theorem drain_renumber (hρ : Renumbers ρ) : (s.renumber ρ).drain =
    (s.drain.1.map (Task.renumber ρ), s.drain.2.renumber ρ) := by
  refine Prod.ext ?_ rfl
  show (rekey ρ (Task.renumber ρ) s.tasks).toList.map (·.2) = _
  rw [toList_rekey hρ, drain, List.map_map, List.map_map]
  rfl

end Scheduler

/-! ## Channels -/

namespace Channel

variable {live live' : Waiter → Bool} (hlive : ∀ w, live' (w.renumber ρ) = live w) (c : Channel)

include hlive

theorem liveSender?_renumber (senders : List (Waiter × Value)) :
    liveSender? live' (senders.map fun s => (s.1.renumber ρ, s.2)) =
      ((liveSender? live senders).1.map fun s => (s.1.renumber ρ, s.2),
        (liveSender? live senders).2.map fun s => (s.1.renumber ρ, s.2)) := by
  unfold liveSender?
  have hdrop : (senders.map fun s => (s.1.renumber ρ, s.2)).dropWhile (fun s => !live' s.1) =
      (senders.dropWhile fun s => !live s.1).map fun s => (s.1.renumber ρ, s.2) := by
    rw [List.dropWhile_map]
    simp only [Function.comp_def, hlive]
  rw [hdrop]
  cases senders.dropWhile fun s => !live s.1 <;> rfl

theorem trySend_renumber (v : Value) : (c.renumber ρ).trySend live' v =
    ((c.trySend live v).1.renumber ρ, (c.trySend live v).2.renumber ρ) := by
  unfold trySend
  have hdrop : (c.renumber ρ).receivers.dropWhile (fun w => !live' w) =
      (c.receivers.dropWhile fun w => !live w).map (·.renumber ρ) := by
    show (c.receivers.map _).dropWhile _ = _
    rw [List.dropWhile_map]
    simp only [Function.comp_def, hlive]
  rw [hdrop]
  show (if c.closed then _ else _) = _
  split
  · rfl
  · cases c.receivers.dropWhile fun w => !live w with
    | cons w rest => rfl
    | nil =>
      dsimp only [List.map_nil]
      show (if c.buffer.length < c.capacity then _ else _) = _
      split <;> rfl

theorem tryReceive_renumber : (c.renumber ρ).tryReceive live' =
    ((c.tryReceive live).1.renumber ρ, (c.tryReceive live).2.renumber ρ) := by
  unfold tryReceive
  rw [show (c.renumber ρ).senders = c.senders.map fun s => (s.1.renumber ρ, s.2) from rfl,
    liveSender?_renumber hlive, show (c.renumber ρ).buffer = c.buffer from rfl]
  split
  · obtain ⟨_ | ⟨w, v⟩, senders⟩ := liveSender? live c.senders <;> rfl
  · obtain ⟨_ | ⟨w, v⟩, senders⟩ := liveSender? live c.senders
    · refine Prod.ext ?_ rfl
      show (if c.closed then _ else _) = ReceiveOutcome.renumber ρ (if c.closed then _ else _)
      split <;> rfl
    · rfl

theorem sendReady_renumber : (c.renumber ρ).sendReady live' = c.sendReady live := by
  show (c.closed || decide (c.buffer.length < c.capacity) ||
    (c.receivers.map (·.renumber ρ)).any live') = _
  rw [List.any_map]
  simp only [Function.comp_def, hlive]
  rfl

theorem receiveReady_renumber : (c.renumber ρ).receiveReady live' = c.receiveReady live := by
  show (c.closed || !c.buffer.isEmpty ||
    (c.senders.map fun s => (s.1.renumber ρ, s.2)).any fun s => live' s.1) = _
  rw [List.any_map]
  simp only [Function.comp_def, hlive]
  rfl

theorem parkReceiver_renumber (w : Waiter) : (c.renumber ρ).parkReceiver live' (w.renumber ρ) =
    (c.parkReceiver live w).renumber ρ := by
  refine congrArg (fun receivers => { c.renumber ρ with receivers }) ?_
  show (c.receivers.map (·.renumber ρ)).filter live' ++ [w.renumber ρ] = _
  rw [List.filter_map, parkReceiver, List.map_append]
  simp only [Function.comp_def, hlive]
  rfl

theorem parkSender_renumber (w : Waiter) (v : Value) :
    (c.renumber ρ).parkSender live' (w.renumber ρ) v = (c.parkSender live w v).renumber ρ := by
  refine congrArg (fun senders => { c.renumber ρ with senders }) ?_
  show (c.senders.map fun s => (s.1.renumber ρ, s.2)).filter (fun s => live' s.1) ++
    [(w.renumber ρ, v)] = _
  rw [List.filter_map, parkSender, List.map_append]
  simp only [Function.comp_def, hlive]
  rfl

end Channel

theorem Channel.close?_renumber (c : Channel) : (c.renumber ρ).close? = c.close?.map fun r =>
    (r.1.map (·.renumber ρ), r.2.1.map (·.renumber ρ), r.2.2.renumber ρ) := by
  unfold close?
  show (if c.closed then _ else _) = _
  split
  · rfl
  · refine congrArg some (Prod.ext rfl (Prod.ext ?_ rfl))
    show ((c.senders.map fun s => (s.1.renumber ρ, s.2)).map (·.1)) = (c.senders.map (·.1)).map _
    rw [List.map_map, List.map_map]
    rfl

end TaskVm
