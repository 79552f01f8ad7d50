import TaskVm.Proofs.EchoedTurns

/-!
# Runs in other guises

Tasks take turns in the same order whatever numbers they have, and a run ends in the same way in
every guise, with the same values, as long as no task is turned into text.
-/

namespace TaskVm

open Exec

variable {ρ : TaskId → TaskId}

namespace Machine

variable {m : Machine} {g : Guise}

/-- A machine in another guise. -/
def guise (ρ : TaskId → TaskId) (g : Guise) (m : Machine) : Machine where
  hosts := m.hosts
  heap := m.heap.guise ρ g.memory.chunks
  vm := m.vm.guise ρ g
  running := m.running.map (Task.renumber ρ)

def memory (m : Machine) : Memory := ⟨m.heap.chunks, m.vm.id, m.vm.natives, m.vm.warmedUp⟩

/-- The guise is one for the machine in this state. -/
def Takes (ρ : TaskId → TaskId) (g : Guise) (m : Machine) : Prop :=
  Suits ρ m.memory g.memory m.vm.globals m.vm.scheduler.nextId

theorem Takes.of_eq {m' : Machine} (h : m.Takes ρ g) (hm : m'.memory = m.memory)
    (hglobals : m'.vm.globals = m.vm.globals)
    (hnext : m'.vm.scheduler.nextId = m.vm.scheduler.nextId) : m'.Takes ρ g := by
  unfold Takes
  rw [hm, hglobals, hnext]
  exact h

/-! ## Between turns -/

theorem closeAlls_guise {cs : Array Chunk} (tasks : List Task) : ∀ h : Heap,
    (tasks.map (Task.renumber ρ)).foldl (fun h t => (t.openUpvalues.closeAll h t.stack).2)
      (h.guise ρ cs) =
    (tasks.foldl (fun h t => (t.openUpvalues.closeAll h t.stack).2) h).guise ρ cs := by
  induction tasks with
  | nil => exact fun _ => rfl
  | cons t tasks ih =>
    intro h
    have hclose : t.openUpvalues.closeAll (h.guise ρ cs) t.stack = _ :=
      t.openUpvalues.closeFrom_guise 0 t.stack
    rw [List.map_cons, List.foldl_cons, List.foldl_cons,
      show ((t.renumber ρ).openUpvalues.closeAll (h.guise ρ cs) (t.renumber ρ).stack) = _
        from hclose, ih]
    rfl

theorem shutdown_guise (hρ : Renumbers ρ) (m : Machine) :
    (m.guise ρ g).shutdown = m.shutdown.guise ρ g := by
  have hdrain : (m.guise ρ g).vm.scheduler.drain = _ := Scheduler.drain_renumber hρ
  unfold shutdown
  rw [hdrain]
  dsimp only
  rw [show (m.guise ρ g).heap = m.heap.guise ρ g.memory.chunks from rfl, closeAlls_guise]
  rfl

theorem Takes.shutdown (h : m.Takes ρ g) : m.shutdown.Takes ρ g := by
  refine h.of_eq ?_ rfl rfl
  rw [memory, memory, shutdown_heap]
  rfl

/-- Two ticks have come to the same, up to the guise. -/
structure Matches (ρ : TaskId → TaskId) (t t' : Tick) : Prop where
  outcome : t'.outcome = t.outcome
  machine : ∃ g : Guise, t.machine.Takes ρ g ∧ t'.machine = t.machine.guise ρ g

theorem deadlock_guise (hρ : Renumbers ρ) (h : m.Takes ρ g) :
    Matches ρ m.deadlock (m.guise ρ g).deadlock where
  outcome := by
    have hmain : (m.guise ρ g).vm.main.bind (m.guise ρ g).vm.scheduler.get? =
        (m.vm.main.bind m.vm.scheduler.get?).map (Task.renumber ρ) := by
      show (m.vm.main.map ρ).bind (m.vm.scheduler.renumber ρ).get? = _
      cases m.vm.main with
      | none => rfl
      | some k => exact Scheduler.get?_renumber hρ k
    unfold deadlock
    rw [hmain]
    cases m.vm.main.bind m.vm.scheduler.get? with
    | none => rfl
    | some main =>
      have htrace : (main.renumber ρ).trace (m.guise ρ g).heap = _ := Task.trace_guise h.code main
      dsimp only [Option.map_some]
      rw [htrace]
  machine := ⟨g, h.shutdown, shutdown_guise hρ m⟩

theorem dispatch_guise (hρ : Renumbers ρ) (h : m.Takes ρ g) :
    Matches ρ m.dispatch (m.guise ρ g).dispatch := by
  have hnext : (m.guise ρ g).vm.scheduler.takeNext (m.guise ρ g).heap = _ :=
    Scheduler.takeNext_guise hρ
  unfold dispatch
  rw [hnext]
  have hkept : (m.vm.scheduler.takeNext m.heap).2.1.nextId = m.vm.scheduler.nextId ∧
      (m.vm.scheduler.takeNext m.heap).2.2.chunks = m.heap.chunks := by
    unfold Scheduler.takeNext
    split <;> exact ⟨rfl, rfl⟩
  generalize m.vm.scheduler.takeNext m.heap = r at hkept ⊢
  obtain ⟨task, scheduler, heap⟩ := r
  obtain ⟨hid, hchunks⟩ := hkept
  have htakes : Takes ρ g { m with heap, vm := { m.vm with scheduler } } :=
    h.of_eq (congrArg (fun chunks => { m.memory with chunks }) hchunks) rfl hid
  cases task with
  | none => exact deadlock_guise hρ htakes
  | some task => exact ⟨rfl, { g with profiler := g.profiler.recordTaskSwitch }, htakes, rfl⟩

/-- A task whose turn is over is put where it belongs. -/
theorem endTurn_guise (hρ : Renumbers ρ) (task : Task) (o : TurnEnd) :
    (m.guise ρ g).endTurn (task.renumber ρ) o =
      ((m.endTurn task o).1.guise ρ g, (m.endTurn task o).2) := by
  have hterminate : ∀ status, (task.renumber ρ).terminate (m.guise ρ g).heap status = _ :=
    fun status => Task.terminate_guise task status
  have hmain : (m.guise ρ g).vm.main = some (task.renumber ρ).id ↔ m.vm.main = some task.id := by
    show m.vm.main.map ρ = some (ρ task.id) ↔ _
    cases m.vm.main with
    | none => simp
    | some k => simp [hρ.eq_iff]
  -- Whether the program is over depends on who is the main task, and not on its number.
  unfold endTurn
  cases o with
  | yielded =>
    have hrequeue : (m.guise ρ g).vm.scheduler.requeue (m.guise ρ g).heap (task.renumber ρ) = _ :=
      Scheduler.requeue_guise hρ task
    dsimp only
    rw [hrequeue]
    rfl
  | blocked =>
    have hblock : (m.guise ρ g).vm.scheduler.block (m.guise ρ g).heap (task.renumber ρ) = _ :=
      Scheduler.block_guise hρ task
    dsimp only
    rw [hblock]
    rfl
  | completed result =>
    dsimp only
    rw [hterminate]
    by_cases h : m.vm.main = some task.id
    · rw [if_pos h, if_pos (hmain.mpr h)]
      exact Prod.ext (shutdown_guise hρ { m with heap := (task.terminate m.heap .completed).2 }) rfl
    · rw [if_neg h, if_neg (mt hmain.mp h)]
      rfl
  | failed failure =>
    dsimp only
    rw [hterminate]
    by_cases h : m.vm.main = some task.id || failure.error.isFatal
    · have h' : ((m.guise ρ g).vm.main = some (task.renumber ρ).id ||
          failure.error.isFatal) = true := by simpa [hmain] using h
      rw [if_pos h, if_pos h']
      exact Prod.ext (shutdown_guise hρ { m with heap := (task.terminate m.heap .failed).2 }) rfl
    · have h' : ¬((m.guise ρ g).vm.main = some (task.renumber ρ).id ||
          failure.error.isFatal) = true := by simpa [hmain] using h
      rw [if_neg h, if_neg h']
      rfl
  | endless => rfl

theorem Takes.endTurn {s : Turn} (hg : g.Fits ρ s) (o : TurnEnd) :
    (endTurn { ofTurn s with running := none } s.task o).1.Takes ρ g := by
  have hends := (s.over_endTurn o).resettles
  have hnames := hends.names
  refine Takes.of_eq (m := ofTurn s) hg ?_ hnames.globals hends.nextId
  rw [memory, memory, hends.chunks, hnames.id, hnames.natives, hnames.warmedUp]

/-! ## Ticks -/

/-- The next tick turns no task into text. -/
def Discreet (m : Machine) : Prop :=
  ∀ task, m.running = some task → task.resume = none → (m.turn task).Discreet

/-- A guise for a machine is one for the turn of its running task. -/
theorem turn_guise (task : Task) (h : m.Takes ρ g) : ∃ g' : Guise, g'.Fits ρ (m.turn task) ∧
    (m.guise ρ g).turn (task.renumber ρ) = (m.turn task).guise ρ g' :=
  ⟨{ memory := g.memory, profiler := g.profiler, sourceName := g.sourceName }, h, rfl⟩

/-- **A tick does the same in every guise.** -/
theorem tick_guise (hρ : Renumbers ρ) (h : m.Takes ρ g) (hd : m.Discreet) :
    Matches ρ m.tick (m.guise ρ g).tick := by
  cases hr : m.running with
  | none =>
    have hr' : (m.guise ρ g).running = none := by
      show m.running.map _ = none
      rw [hr]
      rfl
    rw [tick_between hr, tick_between hr']
    exact dispatch_guise hρ h
  | some task =>
    have hr' : (m.guise ρ g).running = some (task.renumber ρ) := by
      show m.running.map _ = _
      rw [hr]
      rfl
    obtain ⟨g₁, hg₁, hturn⟩ := m.turn_guise task h
    obtain ⟨g₂, hg₂, hadvance⟩ := Turn.advance_guise hρ (hd task hr) hg₁
    rw [← hturn] at hadvance
    cases ha : (m.turn task).advance with
    | mk o s =>
      rw [ha] at hg₂ hadvance
      cases o with
      | none =>
        rw [tick_goes hr ha, tick_goes hr' hadvance]
        exact ⟨rfl, g₂, hg₂, rfl⟩
      | some o =>
        have hend :
            endTurn { ofTurn (s.guise ρ g₂) with running := none } (s.guise ρ g₂).task o = _ :=
          endTurn_guise (m := { ofTurn s with running := none }) hρ s.task o
        rw [tick_ends hr ha, tick_ends hr' hadvance, hend]
        exact ⟨rfl, g₂, .endTurn hg₂ o, rfl⟩

/-! ## Runs -/

/-- The states between the ticks of a run. -/
abbrev ComesBy : Machine → Machine → Prop :=
  Relation.ReflTransGen fun m m' => m.tick.outcome = none ∧ m' = m.tick.machine

/-- Two runs have ended in the same way, up to the guise. -/
def Agrees (ρ : TaskId → TaskId) {σ : Type} (r r' : Outcome × Machine × σ) : Prop :=
  ∃ g : Guise, r.2.1.Takes ρ g ∧ r' = (r.1, r.2.1.guise ρ g, r.2.2)

/-- **A run that turns no task into text does the same in every guise.** -/
theorem runFor_guise {σ : Type} (hρ : Renumbers ρ) (s : σ) :
    ∀ {fuel : Nat} {m : Machine} {g : Guise}, m.Takes ρ g → (∀ m', m.ComesBy m' → m'.Discreet) →
    Option.Rel (Agrees ρ) (runFor none fuel m s) (runFor none fuel (m.guise ρ g) s)
  | 0, _, _, _, _ => .none
  | fuel + 1, m, g, h, hd => by
    obtain ⟨houtcome, g', hg', hmachine⟩ := tick_guise hρ h (hd m .refl)
    unfold runFor ask tell
    dsimp only
    rw [houtcome]
    cases ho : m.tick.outcome with
    | some o => exact .some ⟨g', hg', by rw [hmachine]⟩
    | none =>
      rw [hmachine]
      exact runFor_guise hρ s hg' fun m' hm' => hd m' (.head ⟨ho, rfl⟩ hm')

end Machine

end TaskVm
