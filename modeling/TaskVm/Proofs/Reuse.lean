import TaskVm.Proofs.Budget
import TaskVm.Proofs.EchoedRuns
import TaskVm.Proofs.Service
import TaskVm.Proofs.Stirring

/-!
# A machine is used again

A machine that has run programs runs the next one as a new machine would: what is left of the
earlier ones is on the heap and in the globals, where a new machine finds it too, and in numbers
and caches that make no difference. Nobody who still stands in a line is ever taken for a later
task, and no variable of a task that is gone is open.
-/

namespace TaskVm

open Exec Relation

/-! ## Numbers of later tasks -/

/-- Numbers from one on become numbers from another one on, and those below stay. -/
def shift (n first k : Nat) : Nat := if k < n then k else first + (k - n)

theorem shift_below {n first k : Nat} (hk : k < n) : shift n first k = k := if_pos hk

theorem shift_next {n first k : Nat} (hk : n ≤ k) :
    shift n first (k + 1) = shift n first k + 1 := by
  unfold shift
  rw [if_neg (Nat.not_lt.mpr hk), if_neg (Nat.not_lt.mpr (Nat.le_succ_of_le hk))]
  omega

theorem shift_lt {n first j k : Nat} (hle : n ≤ first) (hjk : j < k) :
    shift n first j < shift n first k := by
  unfold shift
  split <;> split <;> omega

theorem renumbers_shift {n first : Nat} (hle : n ≤ first) (hzero : n = 0 → first = 0) :
    Renumbers (shift n first) where
  mono _ _ hjk := shift_lt hle hjk
  zero := by
    rcases Nat.eq_zero_or_pos n with rfl | hpos
    · exact hzero rfl
    · exact shift_below hpos

variable {ρ : TaskId → TaskId}

namespace Machine

variable {m m' : Machine} {g : Guise}

/-! ## Loading the next program -/

/-- A machine goes on to its next program as another one does, with other numbers for the tasks to
come, and with its own memory. -/
structure Restarts (ρ : TaskId → TaskId) (m m' : Machine) : Prop where
  hosts : m'.hosts = m.hosts
  code : SameCode m'.shutdown.heap.chunks m.shutdown.heap.chunks
  heap : m'.shutdown.heap = m.shutdown.heap.guise ρ m'.shutdown.heap.chunks
  config : m'.vm.config = m.vm.config
  globals : m'.vm.globals = m.vm.globals
  sink : m'.vm.sink = m.vm.sink
  dice : m'.vm.dice = m.vm.dice
  nextId : m'.vm.scheduler.nextId = ρ m.vm.scheduler.nextId
  idle : m.running = none
  idle' : m'.running = none

/-- The memory of a machine, as a guise for another one. -/
def asGuise (m : Machine) : Guise :=
  { memory := m.memory, profiler := m.vm.profiler, sourceName := m.vm.sourceName }

/-- The main task of a program, before its first turn, with a handle of its own. -/
def mainTask (h : Heap) (chunk : ChunkId) (id : TaskId) : Task × Heap :=
  let (template, heap) := h.newTemplate (mainTemplate h chunk)
  let (closure, heap) := heap.newClosure { template }
  let (task, heap) := Task.new heap id "main"
  let frame := Frame.enter heap closure 0 0
  (task.enter frame (Array.replicate frame.localCount .nil), heap)

/-- Nothing of the last program is left but what is on the heap. -/
theorem load_eq (m : Machine) (chunk : ChunkId) :
    (m.load chunk).2 =
      let main := mainTask m.shutdown.heap chunk m.vm.scheduler.nextId
      let held : Scheduler := { nextId := m.vm.scheduler.nextId + 1 }
      { m with
        heap := (held.requeue main.2 main.1).2
        vm := { m.vm with
          scheduler := (held.requeue main.2 main.1).1
          main := some m.vm.scheduler.nextId
          instructions := 0
          handles := ({} : Std.ExtTreeMap TaskId HandleId).insert m.vm.scheduler.nextId
            main.1.handle } } := rfl

theorem mainTask_guise {h : Heap} {cs : Array Chunk} (hcs : SameCode cs h.chunks) (chunk : ChunkId)
    (id : TaskId) : mainTask (h.guise ρ cs) chunk (ρ id) =
      ((mainTask h chunk id).1.renumber ρ, (mainTask h chunk id).2.guise ρ cs) := by
  have hmain : mainTemplate (h.guise ρ cs) chunk = mainTemplate h chunk := by
    unfold mainTemplate
    rw [Heap.code_guise hcs]
  unfold mainTask
  rw [hmain]
  let h₁ := (h.newTemplate (mainTemplate h chunk)).2
  let h₂ := (h₁.newClosure { template := h.templates.size }).2
  have hnew : Task.new (h₂.guise ρ cs) (ρ id) "main" = _ := Task.new_guise id "main"
  show (((Task.new (h₂.guise ρ cs) (ρ id) "main").1.enter (Frame.enter (Task.new (h₂.guise ρ cs)
    (ρ id) "main").2 h.closures.size 0 0) _), (Task.new (h₂.guise ρ cs) (ρ id) "main").2) = _
  rw [hnew]
  rfl

/-- What makes a machine another one in a guise. -/
theorem eq_guise (hhosts : m'.hosts = m.hosts) (hheap : m'.heap = m.heap.guise ρ m'.heap.chunks)
    (hconfig : m'.vm.config = m.vm.config) (hglobals : m'.vm.globals = m.vm.globals)
    (hscheduler : m'.vm.scheduler = m.vm.scheduler.renumber ρ)
    (hmain : m'.vm.main = m.vm.main.map ρ)
    (hhandles : m'.vm.handles = rekey ρ (fun handle => handle) m.vm.handles)
    (hsink : m'.vm.sink = m.vm.sink) (hdice : m'.vm.dice = m.vm.dice)
    (hcount : m'.vm.instructions = m.vm.instructions)
    (hrunning : m'.running = m.running.map (Task.renumber ρ)) : m' = m.guise ρ m'.asGuise := by
  obtain ⟨hosts', heap', vm', running'⟩ := m'
  dsimp only at hhosts hheap hrunning
  subst hhosts hrunning
  rw [guise, Vm.guise, ← hconfig, ← hglobals, ← hscheduler, ← hmain, ← hhandles, ← hsink, ← hdice,
    ← hcount]
  exact congrArg (Machine.mk m.hosts · vm' (m.running.map (Task.renumber ρ))) hheap

/-- The loaded machine's own cache of natives is a matter of its guise. -/
theorem warmed_guise (h : m' = m.guise ρ g) : m'.warmed = m.warmed.guise ρ m'.warmed.asGuise := by
  have hwarm : ∀ v : Vm, v.warmUp = { v with
      natives := v.warmUp.natives, warmedUp := v.warmUp.warmedUp } := by
    intro v
    unfold Vm.warmUp
    split <;> rfl
  subst h
  unfold warmed
  rw [hwarm, hwarm m.vm]
  exact eq_guise rfl rfl rfl rfl rfl rfl rfl rfl rfl rfl rfl

/-- **A program is loaded in the same way**, numbers of tasks apart. -/
theorem load_guise (hρ : Renumbers ρ)
    (hnext : ρ (m.vm.scheduler.nextId + 1) = ρ m.vm.scheduler.nextId + 1) (h : m.Restarts ρ m')
    (chunk : ChunkId) : (m'.load chunk).2 = (m.load chunk).2.guise ρ (m'.load chunk).2.asGuise := by
  have hmain : mainTask _ chunk (ρ m.vm.scheduler.nextId) = _ := mainTask_guise h.code _ _
  rw [← h.heap, ← h.nextId] at hmain
  let main := mainTask m.shutdown.heap chunk m.vm.scheduler.nextId
  let held : Scheduler := { nextId := m.vm.scheduler.nextId + 1 }
  have hheld : ({ nextId := m'.vm.scheduler.nextId + 1 } : Scheduler) = held.renumber ρ := by
    rw [h.nextId, ← hnext]
    rfl
  have hrequeue : (held.renumber ρ).requeue (main.2.guise ρ m'.shutdown.heap.chunks)
      (main.1.renumber ρ) = _ := Scheduler.requeue_guise hρ main.1
  have hload' : (m'.load chunk).2 = { m' with
      heap := (held.requeue main.2 main.1).2.guise ρ m'.shutdown.heap.chunks
      vm := { m'.vm with
        scheduler := (held.requeue main.2 main.1).1.renumber ρ
        main := some m'.vm.scheduler.nextId
        instructions := 0
        handles := ({} : Std.ExtTreeMap TaskId HandleId).insert m'.vm.scheduler.nextId
          main.1.handle } } := by
    rw [load_eq, hmain, hheld]
    dsimp only
    rw [hrequeue]
    rfl
  have hhandles : ({} : Std.ExtTreeMap TaskId HandleId).insert (ρ m.vm.scheduler.nextId)
      main.1.handle = rekey ρ (fun handle => handle)
        (({} : Std.ExtTreeMap TaskId HandleId).insert m.vm.scheduler.nextId main.1.handle) :=
    rekey_insert hρ (fun handle : HandleId => handle) {} m.vm.scheduler.nextId main.1.handle
  rw [hload', load_eq, h.nextId, hhandles]
  refine eq_guise h.hosts rfl h.config h.globals rfl rfl rfl h.sink h.dice rfl ?_
  show m'.running = m.running.map _
  rw [h.idle, h.idle']
  rfl

/-! ## A new machine in place of a used one -/

/-- A new machine with the globals, the heap and the dice of a used one, that numbers its tasks
from a number on. -/
def renew (m : Machine) (id : VmId) (first : TaskId) : Machine :=
  let new := create m.hosts m.shutdown.heap id m.vm.config m.vm.dice
  { new with
    heap := m.shutdown.heap
    vm := { new.vm with
      globals := m.vm.globals
      sink := m.vm.sink
      dice := m.vm.dice
      scheduler := { nextId := first } } }

theorem renew_heap (m : Machine) (id : VmId) (first : TaskId) :
    (m.renew id first).shutdown.heap = m.shutdown.heap := shutdown_heap_idle rfl

/-- When the tasks are given up no variable is open. -/
theorem Kept.closed (h : m.Kept) (c : CellId) (t : TaskId) (slot : Nat) :
    m.shutdown.heap.cells[c]? ≠ some (.onStack t slot) := by
  intro hc
  obtain ⟨hopen, hnot⟩ := shutdown_open h.idle hc
  exact hnot (h.backed c t slot hopen)

/-- The numbers that occur on the heap are those that have been given out. -/
theorem Kept.names (h : m.Kept) : m.shutdown.heap.NamesOnly (· < m.vm.scheduler.nextId) where
  cells task slot hmem := by
    obtain ⟨c, hc⟩ := Array.mem_iff_getElem?.mp hmem
    exact absurd hc (h.closed c task slot)
  channels ch hch w hw := by
    rw [m.shutdown_resettles.channels] at hch
    obtain ⟨i, hi⟩ := Array.mem_iff_getElem?.mp hch
    refine h.numbered.waiters i w ?_
    rw [Heap.channel, Array.getD_eq_getD_getElem?, hi]
    exact hw
  handles t ht := by
    have hmem : t.id ∈ m.shutdown.heap.numbers := Array.mem_map_of_mem ht
    rw [(m.shutdown_resettles.numbered h.numbered).handles] at hmem
    exact Array.mem_range.mp hmem

/-- All of them do, so that others are not below. -/
theorem Kept.nextId_le (h : m.Kept) {first : TaskId}
    (hfirst : m.shutdown.heap.NamesOnly (· < first)) : m.vm.scheduler.nextId ≤ first := by
  refine Nat.not_lt.mp fun hk => ?_
  have hmem : first ∈ m.shutdown.heap.numbers := by
    rw [(m.shutdown_resettles.numbered h.numbered).handles]
    exact Array.mem_range.mpr hk
  obtain ⟨t, ht, hid⟩ := Array.mem_map.mp hmem
  exact absurd hid (Nat.ne_of_lt (hfirst.handles t ht))

theorem Kept.restarts (h : m.Kept) (id : VmId) (first : TaskId) :
    m.Restarts (shift m.vm.scheduler.nextId first) (m.renew id first) where
  hosts := rfl
  code := by
    rw [renew_heap]
    rfl
  heap := by
    rw [renew_heap, Heap.guise_eq h.names fun k hk => shift_below hk]
  config := rfl
  globals := rfl
  sink := rfl
  dice := rfl
  nextId := by
    show first = shift m.vm.scheduler.nextId first m.vm.scheduler.nextId
    simp [shift]
  idle := h.idle
  idle' := rfl

/-! ## What is remembered -/

/-- What a machine remembers that has been warmed up is right. -/
theorem warmed_sound {tables : VmId → Globals} (hc : m.vm.Coherent)
    (hr : m.heap.Recalls (Function.update tables m.vm.id m.vm.globals)) :
    m.warmed.memory.Sound m.warmed.vm.globals where
  coherent := hc.warmUp.of_same ⟨rfl, rfl, rfl, rfl⟩
  warm := by
    show m.vm.warmUp.warmedUp = true
    unfold Vm.warmUp
    split
    · assumption
    · rfl
  recalls := by
    refine ⟨tables, ?_⟩
    show Heap.Recalls _ (Function.update tables m.vm.warmUp.id m.vm.warmUp.globals)
    rw [Vm.warmUp_globals, (Vm.warmUp_alike m.vm).id]
    exact hr.of_chunks rfl

theorem load_chunks (m : Machine) (chunk : ChunkId) :
    (m.load chunk).2.heap.chunks = m.heap.chunks := by
  show m.shutdown.heap.chunks = _
  rw [shutdown_heap]

/-- The used machine and the new one remember different things, all of them right. -/
theorem Kept.takes (h : m.Kept) {id : VmId} (hid : id ≠ m.vm.id) (first : TaskId)
    (chunk : ChunkId) : (m.load chunk).2.warmed.Takes (shift m.vm.scheduler.nextId first)
      ((m.renew id first).load chunk).2.warmed.asGuise := by
  have hcoherent : (m.load chunk).2.vm.Coherent := h.coherent.of_same ⟨rfl, rfl, rfl, rfl⟩
  have hrecalls : (m.load chunk).2.heap.Recalls
      (Function.update (fun _ => .empty) m.vm.id m.vm.globals) :=
    h.recalls.of_chunks (m.load_chunks chunk)
  have hcoherent' : ((m.renew id first).load chunk).2.vm.Coherent := by
    refine ⟨h.coherent.lawful, ?_, ?_⟩ <;> nofun
  have hchunks : ((m.renew id first).load chunk).2.heap.chunks = m.heap.chunks := by
    rw [load_chunks]
    show m.shutdown.heap.chunks = _
    rw [shutdown_heap]
  have hrecalls' : ((m.renew id first).load chunk).2.heap.Recalls (Function.update
      (Function.update (fun _ => .empty) m.vm.id m.vm.globals) id m.vm.globals) := by
    have hnone : m.heap.Recalls (Function.update
        (Function.update (fun _ => .empty) m.vm.id m.vm.globals) id .empty) := by
      rw [Function.update_eq_self_iff.mpr (Function.update_of_ne hid _ _).symm]
      exact h.recalls
    exact (hnone.of_chunks hchunks).grow fun name slot hslot => by
      simp [OrderedMap.empty, OrderedMap.place?] at hslot
  have hglobals : (m.load chunk).2.warmed.vm.globals = m.vm.globals := Vm.warmUp_globals _
  have hglobals' : ((m.renew id first).load chunk).2.warmed.vm.globals = m.vm.globals :=
    Vm.warmUp_globals _
  constructor
  · show SameCode ((m.renew id first).load chunk).2.heap.chunks (m.load chunk).2.heap.chunks
    rw [hchunks, load_chunks]
    rfl
  · exact warmed_sound hcoherent hrecalls
  · have hsound := warmed_sound hcoherent' hrecalls'
    rw [hglobals'] at hsound
    rw [hglobals]
    exact hsound
  · intro k hk
    refine shift_next (Nat.le_of_succ_le (n := m.vm.scheduler.nextId) ?_)
    have hnext : (m.load chunk).2.warmed.vm.scheduler.nextId = m.vm.scheduler.nextId + 1 :=
      congrArg Scheduler.nextId (Vm.warmUp_alike (m.load chunk).2.vm).scheduler
    exact Nat.le_trans (Nat.le_of_eq hnext.symm) hk

/-! ## How programs end -/

/-- Two programs have ended in the same way, and with the same globals, heap, output and dice and
the same stages of tasks, up to the numbers of tasks. -/
structure EndsAlike (ρ : TaskId → TaskId) (r r' : Outcome × Machine × Unit) : Prop where
  outcome : r'.1 = r.1
  globals : r'.2.1.vm.globals = r.2.1.vm.globals
  code : SameCode r'.2.1.heap.chunks r.2.1.heap.chunks
  heap : r'.2.1.heap = r.2.1.heap.guise ρ r'.2.1.heap.chunks
  output : r'.2.1.output = r.2.1.output
  dice : r'.2.1.vm.dice = r.2.1.vm.dice
  statuses : ∀ k, r'.2.1.vm.taskStatus? r'.2.1.heap (ρ k) = r.2.1.vm.taskStatus? r.2.1.heap k
  /-- There are no others. -/
  strange : ∀ j, (∀ k, ρ k ≠ j) → r'.2.1.vm.taskStatus? r'.2.1.heap j = none

theorem Agrees.endsAlike (hρ : Renumbers ρ) {r r' : Outcome × Machine × Unit}
    (h : Agrees ρ r r') : EndsAlike ρ r r' := by
  obtain ⟨outcome, m, u⟩ := r
  obtain ⟨g, hg, rfl⟩ := h
  have hstatus : ∀ j, (m.guise ρ g).vm.taskStatus? (m.guise ρ g).heap j =
      (rekey ρ (fun handle => handle) m.vm.handles)[j]?.map fun handle =>
        (m.heap.handle handle).status := by
    intro j
    refine congrArg (Option.map · _) (funext fun handle => ?_)
    exact Heap.status_guise handle
  exact {
    outcome := rfl
    globals := rfl
    code := hg.code
    heap := rfl
    output := rfl
    dice := rfl
    statuses := fun k => by
      rw [hstatus, getElem?_rekey hρ, Option.map_map]
      rfl
    strange := fun j hj => by
      rw [hstatus, getElem?_rekey_none hρ _ _ hj]
      rfl }

/-! ## No residue -/

/-- A task that is gone does not come back. -/
theorem Keeps.run_gone {id : TaskId} (h : m.Keeps id fun _ => False) (hm : m.Fit)
    {hist : List Act} (hrun : Run (fun _ => True) m hist m') : m'.Keeps id fun _ => False := by
  induction hrun with
  | refl => exact h
  | tail hrun hmove ih =>
    exact hmove.keeps (hrun.fit hm) ih (fun _ _ _ _ hP => hP.elim) fun _ _ _ _ _ hP => hP.elim

/-- **Who stands in a line when a program is loaded is never taken for a later task.** -/
theorem Kept.ignores (h : m.Kept) (chunk : ChunkId) {i : ChannelId} {w : Waiter}
    (hw : w ∈ (m.heap.channel i).waiters) {hist : List Act}
    (hrun : Run (fun _ => True) (m.load chunk).2 hist m') :
    m'.vm.scheduler.isLive m'.heap w = false := by
  have hlt := h.numbered.waiters i w hw
  have hmove : Move (fun _ => True) m _ (m.load chunk).2 := .load h.idle chunk
  have hfit := hmove.fit h.fit
  have hgone : (m.load chunk).2.Keeps w.task fun _ => False := by
    refine ⟨Nat.lt_succ_of_lt hlt, fun t ht hid => ?_⟩
    obtain ⟨handle, f, rfl, -⟩ := load_hasTask h.idle ht
    exact absurd hid (Nat.ne_of_gt hlt)
  have hkeeps := hgone.run_gone hfit hrun
  unfold Scheduler.isLive
  cases hget : m'.vm.scheduler.get? w.task with
  | none => rfl
  | some t =>
    exact (hkeeps.holds t (.inr ⟨_, hget⟩) (held_task (hrun.fit hfit).tended hget)).elim

/-- **A machine is reusable without residue.** -/
theorem Served.leaves_no_residue (h : m.Served) (chunk : ChunkId) :
    (∀ (c : CellId) t slot, (m.load chunk).2.heap.cells[c]? ≠ some (.onStack t slot)) ∧
    (∀ i, ∀ w ∈ (m.heap.channel i).waiters, ∀ hist m',
      Run (fun _ => True) (m.load chunk).2 hist m' →
        m'.vm.scheduler.isLive m'.heap w = false) ∧
    ∀ id first, id ≠ m.vm.id → m.shutdown.heap.NamesOnly (· < first) →
      (m.vm.scheduler.nextId = 0 → first = 0) →
      (∀ m', (m.load chunk).2.warmed.ComesBy m' → m'.Discreet) →
      ∀ fuel, Option.Rel (EndsAlike (shift m.vm.scheduler.nextId first))
        ((m.load chunk).2.run none fuel ())
        (((m.renew id first).load chunk).2.run none fuel ()) := by
  have hkept := h.kept
  refine ⟨hkept.closed, fun i w hw hist m' hrun => hkept.ignores chunk hw hrun, ?_⟩
  intro id first hid hfirst hzero hd fuel
  have hρ := renumbers_shift (hkept.nextId_le hfirst) hzero
  have hload := load_guise hρ (shift_next (Nat.le_refl _)) (hkept.restarts id first) chunk
  have hruns : Option.Rel (Agrees (shift m.vm.scheduler.nextId first))
      (runFor none fuel (m.load chunk).2.warmed ()) (runFor none fuel
        ((m.load chunk).2.warmed.guise _ ((m.renew id first).load chunk).2.warmed.asGuise) ()) :=
    runFor_guise hρ () (hkept.takes hid first chunk) hd
  rw [← warmed_guise hload] at hruns
  show Option.Rel _ (runFor none fuel (m.load chunk).2.warmed ())
    (runFor none fuel ((m.renew id first).load chunk).2.warmed ())
  generalize runFor none fuel (m.load chunk).2.warmed () = r at hruns ⊢
  generalize runFor none fuel ((m.renew id first).load chunk).2.warmed () = r' at hruns ⊢
  cases hruns with
  | some hagrees => exact .some (hagrees.endsAlike hρ)
  | none => exact .none

end Machine

/-! ## A program after a deadlock -/

def Flow.isThrown : Flow → Bool
  | .thrown _ => true
  | _ => false

namespace Machine

variable {m : Machine}

/-- The next thing that is done is none that could turn a task into text. -/
def keepsMum (m : Machine) : Bool :=
  m.running.all fun task =>
    passes fetch (m.turn task) (fun op _ => !tells op) &&
      passes step (m.turn task) fun flow _ => !flow.isThrown

theorem discreet_of_keepsMum (h : m.keepsMum = true) : m.Discreet := by
  intro task hr _
  have hmum := (Option.all_eq_true _ _).mp h task hr
  obtain ⟨hfetch, hstep⟩ := Bool.and_eq_true_iff.mp hmum
  obtain ⟨op, s₁, hop, htells⟩ := of_passes hfetch
  obtain ⟨flow, s', hflow, hthrown⟩ := of_passes hstep
  constructor
  · intro op' s₁' s₂ hop' _
    cases hop.symm.trans hop'
    exact .of_not_tells ((Bool.not_eq_true' _).mp htells)
  · intro v s'' hthrows
    cases hflow.symm.trans hthrows
    cases hthrown

/-- So it is until the run is over. -/
def staysMum : Nat → Machine → Bool
  | 0, _ => false
  | fuel + 1, m => m.keepsMum && (m.tick.outcome.isSome || staysMum fuel m.tick.machine)

theorem discreet_of_staysMum : ∀ {fuel : Nat} {m : Machine}, staysMum fuel m = true →
    ∀ m', m.ComesBy m' → m'.Discreet
  | 0, _, h, _, _ => nomatch h
  | fuel + 1, m, h, m', hm => by
    obtain ⟨hmum, hlater⟩ := Bool.and_eq_true_iff.mp h
    rcases hm.cases_head with rfl | ⟨m₁, ⟨hgo, rfl⟩, hm⟩
    · exact discreet_of_keepsMum hmum
    · rw [hgo] at hlater
      exact discreet_of_staysMum hlater m' hm

/-- The first program receives where nobody sends, and the second one has a task that does. -/
def outlived : Heap where
  channels := #[.ofCapacity 0]
  closures := #[{ template := 0 }]
  templates := #[{ name := "sender", chunk := 2 }]
  chunks := #[
    { code := assemble [(.constant, [0, 0]), (.channelRecv, []), (.ret, [])]
      constants := #[.channel 0] },
    { code := assemble [(.constant, [0, 0]), (.spawn, [0]), (.constant, [0, 1]),
        (.channelRecv, []), (.ret, [])]
      constants := #[.closure 0, .channel 0] },
    { code := assemble [(.constant, [0, 0]), (.pushTrue, []), (.channelSend, []), (.ret, [])]
      constants := #[.channel 0] }]

/-- A machine that has run the first program. -/
def deserted : Option (Outcome × Machine × Unit) :=
  ((create #[] outlived 0 {} {}).load 0).2.run none 8 ()

theorem outlived_furnishes : ({} : Heap).Furnishes outlived where
  channels := ⟨outlived.channels, by simp, by simp [outlived]⟩
  handles := rfl
  cells := rfl
  closures := ⟨outlived.closures, by simp, by simp [outlived]⟩
  templates := ⟨outlived.templates, by simp⟩
  code := ⟨Nat.zero_le _, nofun⟩
  offers := ⟨outlived.chunks, by simp, by simp [outlived]⟩

/-- Who is left in line is passed over, and the second program ends as on a new machine. -/
theorem outlived_leaves_nothing : ∃ (m : Machine) (w : Waiter) (r r' : Outcome × Machine × Unit),
    m.Served ∧ w ∈ (m.heap.channel 0).waiters ∧
    (∀ hist m', Run (fun _ => True) (m.load 1).2 hist m' →
      m'.vm.scheduler.isLive m'.heap w = false) ∧
    (m.load 1).2.run none 20 () = some r ∧ r.1 = .complete (.bool true) ∧
    ((m.renew 1 5).load 1).2.run none 20 () = some r' ∧ EndsAlike (shift 1 5) r r' := by
  have hchecks : (deserted.any fun r => decide (r.1 ≠ .endless) &&
      decide (r.2.1.vm.scheduler.nextId = 1) && decide (r.2.1.vm.id = 0) &&
      !(r.2.1.heap.channel 0).waiters.isEmpty && staysMum 20 (r.2.1.load 1).2.warmed &&
      ((r.2.1.load 1).2.run none 20 ()).any fun r =>
        decide (r.1 = .complete (.bool true))) = true := by decide +kernel
  obtain ⟨⟨outcome, m, u⟩, hleft, hchecks⟩ := (Option.any_eq_true _ _).mp hchecks
  simp only [Bool.and_eq_true, Bool.not_eq_true', decide_eq_true_eq] at hchecks
  obtain ⟨⟨⟨⟨⟨hend, hnext⟩, hid⟩, hline⟩, hmum⟩, hrun⟩ := hchecks
  obtain ⟨r, hrun, hr⟩ := (Option.any_eq_true _ _).mp hrun
  have hserved : m.Served :=
    .run (.load (.new (by simp) outlived_furnishes 0 {} {}) 0) hleft hend
  obtain ⟨w, hw⟩ := List.exists_mem_of_ne_nil (m.heap.channel 0).waiters (by simpa using hline)
  have hnames : m.shutdown.heap.NamesOnly (· < 5) :=
    hserved.kept.names.mono fun k hk => by
      rw [hnext] at hk
      exact Nat.lt_of_lt_of_le hk (by decide)
  obtain ⟨-, hlines, hends⟩ := Served.leaves_no_residue hserved 1
  have hrel := hends 1 5 (by rw [hid]; decide) hnames (by rw [hnext]; nofun)
    (discreet_of_staysMum hmum) 20
  rw [hrun, hnext] at hrel
  generalize hrun' : ((m.renew 1 5).load 1).2.run none 20 () = r' at hrel
  cases hrel with
  | @some _ r' hrel =>
    exact ⟨m, w, r, r', hserved, hw, hlines 0 w hw, hrun, of_decide_eq_true hr, hrun', hrel⟩

end Machine

end TaskVm
