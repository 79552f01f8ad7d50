import TaskVm.Proofs.Ticks

/-!
# Runs

What becomes of a machine is up to its embedder. Programs are loaded and run to their end or
until a debugger takes the turn back, and in between there is time to bind globals and to
register functions. A run puts all of it in order, one tick after the other, with its history:
the acts of all tasks.

Ticks may be asked to satisfy a condition, which says of a run what it leaves out.
-/

namespace TaskVm

open Exec Relation

namespace Machine

/-- What may happen to a machine while nothing is half done, and what goes on record. -/
inductive Move (ok : Machine → Prop) (m : Machine) : List Act → Machine → Prop where
  | tick (hok : ok m) (hend : m.tick.outcome ≠ some .endless) :
      Move ok m (m.tick.acts ++ m.midway.endings m.tick.machine) m.tick.machine
  | pause : Move ok m [] m.pause.1
  | load (hr : m.running = none) (chunk : ChunkId) :
      Move ok m (m.endings m.shutdown) (m.load chunk).2
  /-- Whatever else the embedder does is no concern of tasks. -/
  | prepare {m' : Machine} (hh : ∀ f ∈ m'.hosts, f.Tame) (he : m.heap.Extends m'.heap)
      (hv : m.vm.Alike m'.vm) (hr : m'.running = m.running) : Move ok m [] m'

/-- Moves one after the other, with their history. -/
inductive Run (ok : Machine → Prop) (m₀ : Machine) : List Act → Machine → Prop where
  | refl : Run ok m₀ [] m₀
  | tail {hist acts : List Act} {m m' : Machine} (h : Run ok m₀ hist m) (hm : Move ok m acts m') :
      Run ok m₀ (hist ++ acts) m'

variable {ok : Machine → Prop} {m m' m₀ : Machine}

theorem Run.trans {hist hist' : List Act} (h : Run ok m₀ hist m) (h' : Run ok m hist' m') :
    Run ok m₀ (hist ++ hist') m' := by
  induction h' with
  | refl =>
    rw [List.append_nil]
    exact h
  | tail _ hm ih =>
    rw [← List.append_assoc]
    exact ih.tail hm

theorem Move.run {acts : List Act} (h : Move ok m acts m') : Run ok m acts m' :=
  Run.refl.tail h

/-- A condition that always holds where another does may take its place. -/
theorem Run.mono {ok' : Machine → Prop} (hok : ∀ m, ok m → ok' m) {hist : List Act}
    (h : Run ok m₀ hist m) : Run ok' m₀ hist m := by
  induction h with
  | refl => exact .refl
  | tail _ hm ih =>
    refine ih.tail ?_
    cases hm with
    | tick h hend => exact .tick (hok _ h) hend
    | pause => exact .pause
    | load hr chunk => exact .load hr chunk
    | prepare hh he hv hr => exact .prepare hh he hv hr

/-- Instructions with their operands, as code. -/
def assemble (instructions : List (Opcode × List UInt8)) : Code :=
  (instructions.flatMap fun i => i.1.byte :: i.2).toArray

/-- Tick a number of times, as long as each tick satisfies a condition, and add to a history. -/
def tickFor (ok : Machine → Bool) : Nat → Machine → List Act → Option (List Act × Machine)
  | 0, m, hist => some (hist, m)
  | n + 1, m, hist =>
    if ok m && decide (m.tick.outcome ≠ some .endless) then
      tickFor ok n m.tick.machine (hist ++ (m.tick.acts ++ m.midway.endings m.tick.machine))
    else none

theorem run_of_tickFor {ok : Machine → Bool} : ∀ {n : Nat} {m m' : Machine}
    {hist hist' : List Act}, Run (ok · = true) m₀ hist m →
    tickFor ok n m hist = some (hist', m') → Run (ok · = true) m₀ hist' m'
  | 0, _, _, _, _, hr, h => by
    injection h with h
    injection h with hh hm
    exact hh ▸ hm ▸ hr
  | n + 1, m, m', hist, hist', hr, h => by
    unfold tickFor at h
    split at h
    · rename_i hcond
      obtain ⟨hok, hend⟩ := Bool.and_eq_true_iff.mp hcond
      exact run_of_tickFor (hr.tail (.tick hok (of_decide_eq_true hend))) h
    · cases h

/-! ## Moves other than ticks -/

/-- A task whose turn is taken back is the first in the queue. -/
theorem pause_crew {task : Task} (hr : m.running = some task) :
    m.pause.1.crew = m.crew.requeue task.badge (task.id :: m.vm.scheduler.queue) := by
  have hcrew := (m.turn task).keep_crew (task.id :: m.vm.scheduler.queue)
  rw [Turn.crew, ofTurn_turn hr] at hcrew
  rw [pause_keep hr]
  exact hcrew

theorem pause_tended (h : m.crew.Tended) : m.pause.1.crew.Tended := by
  cases hr : m.running with
  | none =>
    rw [pause, hr]
    exact h
  | some task =>
    have hrunning : m.crew.running = some task.badge := by rw [crew, hr]; rfl
    rw [pause_crew hr]
    exact h.requeue hrunning (.inr rfl)

theorem pause_good (h : m.Good) : m.pause.1.Good ∧ Net.Step m.net [] m.pause.1.net := by
  cases hr : m.running with
  | none =>
    have hp : m.pause.1 = m := by rw [pause, hr]
    obtain ⟨hgood, hstep⟩ := shed h rfl rfl h.tended ⟨rfl, fun id => .inr rfl⟩
    rw [endings_nil fun _ h => h] at hstep
    rw [hp]
    exact ⟨hgood, hstep⟩
  | some task =>
    have hrunning : m.crew.running = some task.badge := by rw [crew, hr]; rfl
    have hcrew := pause_crew hr
    have hwait : m.pause.1.crew.wait = m.crew.wait := by
      rw [hcrew]
      exact Crew.wait_requeue h.tended hrunning _
    have hsheds : m.crew.Sheds m.pause.1.crew :=
      ⟨by rw [hcrew]; rfl, fun id => .inr (by rw [hwait])⟩
    obtain ⟨hgood, hstep⟩ := shed h m.pause_resettles.hosts m.pause_resettles.channels
      (pause_tended h.tended) hsheds
    rw [endings_nil fun id hid => by rwa [hwait]] at hstep
    exact ⟨hgood, hstep⟩

theorem crew_load (m : Machine) (chunk : ChunkId) : (m.load chunk).2.crew = m.crew.start := by
  let m₁ := m.shutdown
  let h₁ := ((m₁.heap.newTemplate (mainTemplate m₁.heap chunk)).2.newClosure
    { template := m₁.heap.templates.size }).2
  let id := m.vm.scheduler.nextId
  have hhandles : h₁.handles = m.heap.handles := by
    show m₁.heap.handles = _
    rw [shutdown_heap]
  have hsize : h₁.handles.size = m.heap.handles.size := congrArg Array.size hhandles
  -- Whom the crew holds, which handle each has, how many handles there are and what each of them
  -- says: field by field.
  refine Crew.ext ?_ rfl rfl rfl rfl ?_ ?_ ?_
  · funext k
    show (({} : Std.ExtTreeMap TaskId Task).insert id _)[k]?.map Task.badge = _
    rw [getElem?_insert_ite, Std.ExtTreeMap.getElem?_empty]
    show (if k = id then some _ else none).map Task.badge =
      if k = id then some ⟨id, m.heap.handles.size, 0, none⟩ else none
    rw [← hsize]
    split <;> rfl
  · funext k
    show (Std.ExtTreeMap.empty.insert id h₁.handles.size)[k]? =
      if k = id then some m.heap.handles.size else none
    rw [getElem?_insert_ite, ← hsize]
    split
    · rfl
    · exact Std.ExtTreeMap.getElem?_empty
  · show ((h₁.newHandle { id, name := "main" }).2.setStatus h₁.handles.size .runnable).handles.size =
      m.heap.handles.size + 1
    rw [Heap.handles_setStatus, ← hsize]
    exact Array.size_push ..
  · funext k
    have hstatus : (h₁.handle k).status = (m.heap.handle k).status := by
      rw [Heap.handle, hhandles]
      rfl
    show (((h₁.newHandle { id, name := "main" }).2.setStatus h₁.handles.size .runnable).handle
      k).status = if k = m.heap.handles.size ∧ k < m.heap.handles.size + 1 then .runnable
        else (m.heap.handle k).status
    rw [Heap.status_setStatus, Heap.status_newHandle, hstatus, hsize]
    rw [show (h₁.newHandle { id, name := "main" }).2.handles.size = m.heap.handles.size + 1 by
      rw [← hsize]
      exact Array.size_push ..]

/-- Loading a program gives up what is left of the last one. -/
theorem load_good (h : m.Good) (hr : m.running = none) (chunk : ChunkId) :
    (m.load chunk).2.Good ∧ Net.Run m.net (m.endings m.shutdown) (m.load chunk).2.net := by
  obtain ⟨hgood, hstep⟩ := shutdown_good h hr
  have hrunning : m.crew.running = none := by rw [crew, hr]; rfl
  have hcrew := crew_load m chunk
  have hdisband : m.shutdown.crew = m.crew.disband := crew_shutdown m
  have htended : m.crew.disband.Tended := hdisband ▸ hgood.tended
  have hwait : m.crew.start.wait = fun id =>
      if id = m.crew.nextId then some ⟨0, false, none⟩ else m.crew.disband.wait id :=
    Crew.wait_enlist htended
  have hlive : m.crew.start.live = m.crew.disband.live := Crew.live_enlist htended
  have hchannels : (m.load chunk).2.heap.channels = m.shutdown.heap.channels := rfl
  refine ⟨⟨h.tame, ?_, ?_⟩, ?_⟩
  · rw [hcrew]
    exact h.tended.start hrunning
  · rw [hcrew, hchannels]
    have hdated := hgood.dated
    rw [hdisband] at hdated
    refine hdated.grow (Nat.le_succ _) fun id hid => ?_
    rw [hwait]
    exact if_neg (Nat.ne_of_lt hid)
  · have hrun := hstep.run.trans (Net.Step.enlist (n := m.shutdown.net)).run
    rw [List.append_nil] at hrun
    have hnet : (m.load chunk).2.net = { m.shutdown.net.setWait m.shutdown.net.nextId
        (some ⟨0, false, none⟩) with nextId := m.shutdown.net.nextId + 1 } := by
      rw [Machine.net, hcrew, hchannels, Crew.net, hlive, hwait, Machine.net, hdisband]
      rfl
    rw [hnet]
    exact hrun

/-- What is bound and registered in between is no concern of the crew. -/
theorem crew_prepare (he : m.heap.Extends m'.heap) (hv : m.vm.Alike m'.vm)
    (hr : m'.running = m.running) : m'.crew = m.crew := by
  refine (crew_heap { m' with heap := m.heap } he.handles).trans ?_
  unfold crew
  dsimp only
  rw [hv.scheduler, hv.main, hv.handles, hr]

theorem prepare_good (h : m.Good) (hh : ∀ f ∈ m'.hosts, f.Tame) (he : m.heap.Extends m'.heap)
    (hv : m.vm.Alike m'.vm) (hr : m'.running = m.running) :
    m'.Good ∧ Net.Step m.net [] m'.net := by
  have hcrew := crew_prepare he hv hr
  obtain ⟨fresh, hfresh, hcap⟩ := he.channels
  unfold Machine.Good Machine.net
  rw [hcrew, hfresh]
  refine ⟨⟨hh, h.tended, h.dated.append hcap⟩, ?_⟩
  have hnet : m.crew.net (m.heap.channels ++ fresh) =
      { m.net with channels := m.net.channels ++ fresh } := by
    show Net.mk ((m.heap.channels ++ fresh).map _) _ _ = _
    rw [Array.map_append, prune_fresh hcap]
    rfl
  rw [hnet]
  exact Net.Step.create hcap

/-! ## A new machine -/

theorem newBuiltins_frame (h : Heap) (sink : SinkId) :
    (h.newBuiltins sink).2 = { h with natives := (h.newBuiltins sink).2.natives } := by
  have hfold : ∀ (bs : List Builtin) (acc : List (String × NativeId) × Heap),
      let f : List (String × NativeId) × Heap → Builtin → List (String × NativeId) × Heap :=
        fun acc b =>
          let native := acc.2.newNative ⟨b.name, b.arity, .builtin b sink⟩
          (acc.1 ++ [(b.name, native.1)], native.2)
      (bs.foldl f acc).2 = { acc.2 with natives := (bs.foldl f acc).2.natives } := by
    intro bs
    induction bs with
    | nil => exact fun acc => rfl
    | cons b bs ih => exact fun acc => ih _
  exact hfold Builtin.all ([], h)

/-- A new machine has the objects of its heap, and natives of its own. -/
theorem create_heap (hosts : Array HostFunction) (h : Heap) (id : VmId) (config : VmConfig)
    (dice : Dice) :
    (create hosts h id config dice).heap = { h with
      natives := (create hosts h id config dice).heap.natives
      sinks := (create hosts h id config dice).heap.sinks } := by
  show (h.newSink.2.newBuiltins h.newSink.1).2 = _
  rw [newBuiltins_frame]
  rfl

/-- A new machine has no tasks. -/
theorem create_held (hosts : Array HostFunction) (h : Heap) (id : VmId) (config : VmConfig)
    (dice : Dice) (k : TaskId) : (create hosts h id config dice).crew.held k = none := by
  show (({} : Std.ExtTreeMap TaskId Task)[k]?).map Task.badge = none
  simp

theorem create_wait (hosts : Array HostFunction) (h : Heap) (id : VmId) (config : VmConfig)
    (dice : Dice) (k : TaskId) : (create hosts h id config dice).crew.wait k = none := by
  refine Classical.not_not.mp fun hne => ?_
  rcases Crew.wait_ne_none.mp hne with ⟨b, hb, -⟩ | hheld
  · cases hb
  · exact hheld (create_held hosts h id config dice k)

theorem create_tended (hosts : Array HostFunction) (h : Heap) (id : VmId) (config : VmConfig)
    (dice : Dice) : (create hosts h id config dice).crew.Tended := by
  have hheld := create_held hosts h id config dice
  have hroster : ∀ k, (create hosts h id config dice).crew.roster k = none := by
    intro k
    show ({} : Std.ExtTreeMap TaskId HandleId)[k]? = none
    simp
  have hrunning : (create hosts h id config dice).crew.running = none := rfl
  have hqueue : (create hosts h id config dice).crew.queue = [] := rfl
  have hmain : (create hosts h id config dice).crew.main = none := rfl
  generalize (create hosts h id config dice).crew = c at *
  constructor <;> grind

theorem create_good {hosts : Array HostFunction} (ht : ∀ f ∈ hosts, f.Tame) {h : Heap}
    (hc : ∀ c ∈ h.channels, ∃ n, c = Channel.ofCapacity n) (id : VmId) (config : VmConfig)
    (dice : Dice) : (create hosts h id config dice).Good := by
  refine ⟨ht, create_tended hosts h id config dice, ?_⟩
  intro ch hch w hw
  rw [create_heap] at hch
  obtain ⟨n, rfl⟩ := hc ch hch
  cases hw

/-! ## Whole runs -/

/-- The condition that no task is lined up in vain. -/
def roomy (m : Machine) : Bool := !m.strands

theorem Move.good {acts : List Act} (h : Move (roomy · = true) m acts m') (hm : m.Good) :
    m'.Good ∧ Net.Run m.net acts m'.net := by
  cases h with
  | tick hok hend => exact tick_good hm ((Bool.not_eq_true' _).mp hok) hend
  | pause =>
    obtain ⟨hgood, hstep⟩ := pause_good hm
    exact ⟨hgood, hstep.run⟩
  | load hr chunk => exact load_good hm hr chunk
  | prepare hh he hv hr =>
    obtain ⟨hgood, hstep⟩ := prepare_good hm hh he hv hr
    exact ⟨hgood, hstep.run⟩

/-- **A run is a run of the net**, with the same history. -/
theorem Run.good {hist : List Act} (h : Run (roomy · = true) m₀ hist m) (hm : m₀.Good) :
    m.Good ∧ Net.Run m₀.net hist m.net := by
  induction h with
  | refl => exact ⟨hm, .refl⟩
  | tail _ hmove ih =>
    obtain ⟨hgood, hrun⟩ := hmove.good ih.1
    exact ⟨hgood, ih.2.trans hrun⟩

/-! ## Programs -/

variable {σ : Type}

/-- Running a program is to tick until it ends or is paused. -/
theorem runFor_moves {hook : Option (Hook σ)} {outcome : Outcome} (ho : outcome ≠ .endless) :
    ∀ {fuel : Nat} {m m' : Machine} {s s' : σ}, m.runFor hook fuel s = some (outcome, m', s') →
    ∃ hist, Run (fun _ => True) m hist m'
  | 0, _, _, _, _, h => nomatch h
  | fuel + 1, m, m', s, s', h => by
    rw [runFor] at h
    split at h
    · injection h with h
      injection h with _ h
      injection h with hm
      exact ⟨_, hm ▸ Move.pause.run⟩
    · dsimp only at h
      split at h
      · rename_i o hend
        injection h with h
        injection h with hout h
        injection h with hm
        exact ⟨_, hm ▸ (Move.tick trivial (by rw [hend, hout]; simpa using ho)).run⟩
      · rename_i hend
        obtain ⟨hist, hrun⟩ := runFor_moves ho h
        exact ⟨_, (Move.tick trivial (by simp [hend])).run.trans hrun⟩

/-- **Whatever a machine is made to run**, with whatever debugger, is a run. -/
theorem run_moves {hook : Option (Hook σ)} {fuel : Nat} {outcome : Outcome} {s s' : σ}
    (ht : ∀ f ∈ m.hosts, f.Tame) (h : m.run hook fuel s = some (outcome, m', s'))
    (ho : outcome ≠ .endless) : ∃ hist, Run (fun _ => True) m hist m' := by
  unfold run at h
  split at h
  · injection h with h
    injection h with _ h
    injection h with hm
    exact ⟨[], hm ▸ .refl⟩
  · obtain ⟨hist, hrun⟩ := runFor_moves ho h
    have hwarm : Move (fun _ => True) m [] { m with vm := m.vm.warmUp } :=
      .prepare ht (Heap.Extends.refl _) (Vm.warmUp_alike _) rfl
    exact ⟨_, hwarm.run.trans hrun⟩

end Machine

end TaskVm
