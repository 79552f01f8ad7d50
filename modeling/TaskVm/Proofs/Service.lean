import TaskVm.Proofs.Methods
import TaskVm.Proofs.Numbering
import TaskVm.Proofs.SlotMemory

/-!
# A machine in service

A machine that has a heap for itself is used for one program after the other. Whatever has become
of them, between two programs it is in order: no task has the turn, only numbers that have been
given out occur on the heap, a variable that is still open belongs to a task that will close it,
and what the machine remembers of its code and its natives is right.
-/

namespace TaskVm

open Exec Relation

/-- Objects are added to a heap, with code about which nothing is remembered yet. -/
structure Heap.Furnishes (h h' : Heap) : Prop extends Heap.Extends h h' where
  offers : h.Offers h'

instance : Heap.Permits Heap.Furnishes :=
  ⟨fun h => ⟨h.toExtends, Heap.Permits.of_collects h⟩⟩

/-- What is always so where more may happen is always so. -/
theorem Stable.mono {K K' : Heap → Heap → Prop} {P : Heap → Vm → Prop} (hst : Stable K P)
    (hK : ∀ h h', K' h h' → K h h') : Stable K' P :=
  { hst with heap := fun hp hh => hst.heap hp (hK _ _ hh) }

namespace Machine

variable {m m' : Machine}

/-! ## One program after the other -/

/-- What an embedder can do with a machine that has its heap for itself. Programs end in any way,
or are paused, and then others are loaded. -/
inductive Served : Machine → Prop where
  | new {hosts : Array HostFunction} (hh : ∀ f ∈ hosts, f.Respects Heap.Furnishes) {h : Heap}
      (he : ({} : Heap).Furnishes h) (id : VmId) (config : VmConfig) (dice : Dice) :
      Served (create hosts h id config dice)
  /-- Values and code are made. -/
  | furnish {m : Machine} (hm : Served m) {h : Heap} (he : m.heap.Furnishes h) :
      Served { m with heap := h }
  | define {m : Machine} (hm : Served m) (name : String) (v : Value) : Served (m.define name v)
  | register {m m' : Machine} (hm : Served m) {b : NativeBuilder}
      (hf : ∀ f, b.implementation = some f → f.Respects Heap.Furnishes)
      (hb : m.register b = .ok m') : Served m'
  | profile {m : Machine} (hm : Served m) : Served m.enableProfiling
  | rename {m : Machine} (hm : Served m) (name : String) : Served (m.setSourceName name)
  | clear {m : Machine} (hm : Served m) : Served m.clearOutput
  | load {m : Machine} (hm : Served m) (chunk : ChunkId) : Served (m.load chunk).2
  | run {σ : Type} {m m' : Machine} (hm : Served m) {hook : Option (Hook σ)} {fuel : Nat}
      {s s' : σ} {outcome : Outcome} (hr : m.run hook fuel s = some (outcome, m', s'))
      (ho : outcome ≠ .endless) : Served m'

/-! ## When a run is over -/

theorem tick_idle {outcome : Outcome} (h : m.tick.outcome = some outcome) :
    m.tick.machine.running = none := by
  cases hr : m.running with
  | none =>
    rw [tick_between hr] at h ⊢
    unfold dispatch deadlock shutdown at h ⊢
    split at h
    · exact hr
    · cases h
  | some task =>
    cases ha : (m.turn task).advance with
    | mk o s =>
      cases o with
      | none =>
        rw [tick_goes hr ha] at h
        cases h
      | some o =>
        rw [tick_ends hr ha]
        exact (s.over_endTurn o).idle

theorem pause_idle (m : Machine) : m.pause.1.running = none := by
  cases hr : m.running with
  | none =>
    rw [pause, hr]
    exact hr
  | some task => rw [pause, hr]

/-- When a run is over no task has the turn. -/
theorem runFor_idle {σ : Type} {hook : Option (Hook σ)} {outcome : Outcome} :
    ∀ {fuel : Nat} {m m' : Machine} {s s' : σ},
    m.runFor hook fuel s = some (outcome, m', s') → m'.running = none
  | 0, _, _, _, _, h => nomatch h
  | fuel + 1, m, m', s, s', h => by
    rw [runFor] at h
    split at h
    · cases h
      exact m.pause_idle
    · dsimp only at h
      split at h
      · cases h
        exact tick_idle ‹_›
      · exact runFor_idle h

theorem run_idle {σ : Type} {hook : Option (Hook σ)} {fuel : Nat} {outcome : Outcome} {s s' : σ}
    (h : m.run hook fuel s = some (outcome, m', s')) (hr : m.running = none) :
    m'.running = none := by
  unfold run at h
  split at h
  · cases h
    exact hr
  · exact runFor_idle h

/-- A function that is registered becomes a native that is bound. -/
theorem register_frame {b : NativeBuilder} (h : m.register b = .ok m') :
    m.heap.Extends m'.heap ∧ m.vm.Alike m'.vm ∧ m'.running = m.running := by
  unfold register NativeBuilder.build at h
  cases ha : b.arity with
  | none =>
    rw [ha] at h
    cases h
  | some arity =>
    cases hi : b.implementation with
    | none =>
      rw [ha, hi] at h
      cases h
    | some f =>
      rw [ha, hi] at h
      cases h
      exact ⟨.of_eq rfl rfl rfl rfl rfl rfl, m.vm.setGlobal_alike b.name _, rfl⟩

/-! ## Between two programs -/

/-- A machine is in order between two programs. -/
structure Kept (m : Machine) : Prop where
  idle : m.running = none
  fit : m.Fit
  numbered : m.Numbered
  /-- Who has captured a variable that is open is there to close it. -/
  backed : ∀ c t slot, m.heap.cells[c]? = some (.onStack t slot) → m.store.Backs c t slot
  furnishes : ∀ f ∈ m.hosts, f.Respects Heap.Furnishes
  coherent : m.vm.Coherent
  /-- What is remembered is remembered for this machine. -/
  recalls : m.heap.Recalls (Function.update (fun _ => .empty) m.vm.id m.vm.globals)

/-- A machine stays in order whatever is done with it, if that has come to its end. -/
theorem Kept.after (h : m.Kept) {hist : List Act} (hrun : Run (fun _ => True) m hist m')
    (huses : m.Uses Heap.Furnishes m') (hidle : m'.running = none) : m'.Kept := by
  have hrecalls : Stable Heap.Furnishes _ :=
    (stable_recalls (fun _ => .empty) m.vm.id).mono fun _ _ hh => hh.offers
  obtain ⟨hfurnishes, hcoherent⟩ := huses.keeps (stable_coherent _) h.furnishes h.coherent
  obtain ⟨-, hid, -, hrecalled⟩ :=
    huses.keeps hrecalls h.furnishes ⟨rfl, h.coherent.lawful, h.recalls⟩
  have hopens := hrun.opens h.fit
  exact {
    idle := hidle
    fit := hrun.fit h.fit
    numbered := hrun.numbered h.fit h.numbered
    backed := fun c t slot hc => by
      rcases hopens c t slot hc with ⟨hold, hback⟩ | ⟨hback, -⟩
      · exact hback (h.backed c t slot hold)
      · exact hback
    furnishes := hfurnishes
    coherent := hcoherent
    recalls := hid.symm ▸ hrecalled }

theorem create_kept {hosts : Array HostFunction} (hh : ∀ f ∈ hosts, f.Respects Heap.Furnishes)
    {h : Heap} (he : ({} : Heap).Furnishes h) (id : VmId) (config : VmConfig) (dice : Dice) :
    (create hosts h id config dice).Kept := by
  -- A heap that only furnishes the empty one holds no handles, no cells and nobody in line.
  have hheap := create_heap hosts h id config dice
  have hhandles : (create hosts h id config dice).heap.handles = #[] := by
    rw [hheap]
    exact he.handles
  have hcells : (create hosts h id config dice).heap.cells = #[] := by
    rw [hheap]
    exact he.cells
  have hchunks : (create hosts h id config dice).heap.chunks = h.chunks := by rw [hheap]
  have hchannels : (create hosts h id config dice).heap.channels = h.channels := by rw [hheap]
  obtain ⟨fresh, hfresh, hnew⟩ := he.channels
  exact {
    idle := rfl
    fit := create_fit (fun f hf args h => (hh f hf args h).toExtends) h id config dice
    numbered := {
      handles := by
        rw [Heap.numbers, hhandles]
        exact Array.map_empty
      waiters := fun i w hw => by
        have hnone : w ∈ (({} : Heap).channel i).waiters :=
          Heap.mem_append_channels (hchannels.trans hfresh) hnew hw
        exact absurd hnone List.not_mem_nil }
    backed := fun c t slot hc => by
      rw [hcells] at hc
      simp at hc
    furnishes := hh
    coherent := create_coherent hosts h id config dice
    recalls := by
      have hnone : ({} : Heap).Recalls (Function.update (fun _ => .empty) id .empty) := by
        intro id chunk constant slot hs
        simp [Heap.chunk, SlotCache.get?] at hs
      exact ((hnone.offers he.offers).of_chunks hchunks).grow fun name slot hslot => by
        simp [OrderedMap.empty, OrderedMap.place?] at hslot }

/-- **A machine that has its heap for itself is in order between two programs**, whatever has
become of the ones before. -/
theorem Served.kept (h : m.Served) : m.Kept := by
  induction h with
  | new hh he id config dice => exact create_kept hh he id config dice
  | @furnish m hm h he ih =>
    -- Furnishing changes the heap alone: to the scheduler it is a move in which nothing is done.
    have hmove : Move (fun _ => True) m [] { m with heap := h } :=
      .prepare ih.fit.tame he.toExtends (.refl _) rfl
    have hrun := hmove.run
    exact {
      idle := ih.idle
      fit := hrun.fit ih.fit
      numbered := hrun.numbered ih.fit ih.numbered
      backed := fun c t slot hc => by
        rcases hrun.opens ih.fit c t slot hc with ⟨hold, hback⟩ | ⟨hback, -⟩
        · exact hback (ih.backed c t slot hold)
        · exact hback
      furnishes := ih.furnishes
      coherent := ih.coherent
      recalls := ih.recalls.offers he.offers }
  | @define m hm name v ih =>
    have hmove : Move (fun _ => True) m [] (m.define name v) :=
      .prepare ih.fit.tame (.refl _) (m.vm.setGlobal_alike name v) rfl
    exact ih.after hmove.run (.single (.define name v)) ih.idle
  | @register m m' hm b hf hb ih =>
    have huse : Use Heap.Furnishes m m' := .register hf hb
    have hhosts := (huse.keeps (Stable.trivial _) ih.furnishes trivial).1
    obtain ⟨he, hv, hr⟩ := register_frame hb
    have hmove : Move (fun _ => True) m [] m' :=
      .prepare (fun f hf args h => (hhosts f hf args h).toExtends) he hv hr
    exact ih.after hmove.run (.single huse) (hr.trans ih.idle)
  | @profile m hm ih =>
    have hmove : Move (fun _ => True) m [] m.enableProfiling :=
      .prepare ih.fit.tame (.refl _) ⟨rfl, rfl, rfl, rfl, rfl, id⟩ rfl
    exact ih.after hmove.run (.single .profile) ih.idle
  | @rename m hm name ih =>
    have hmove : Move (fun _ => True) m [] (m.setSourceName name) :=
      .prepare ih.fit.tame (.refl _) ⟨rfl, rfl, rfl, rfl, rfl, id⟩ rfl
    exact ih.after hmove.run (.single (.rename name)) ih.idle
  | @clear m hm ih =>
    have hmove : Move (fun _ => True) m [] m.clearOutput :=
      .prepare ih.fit.tame (.of_eq rfl rfl rfl rfl rfl rfl) (.refl _) rfl
    exact ih.after hmove.run (.single .clear) ih.idle
  | @load m hm chunk ih =>
    exact ih.after (Move.load ih.idle chunk).run (.single (.load ih.idle chunk)) ih.idle
  | run hm hr ho ih =>
    obtain ⟨hist, hrun⟩ := run_moves ih.fit.tame hr ho
    exact ih.after hrun (run_uses hr) (run_idle hr ih.idle)

end Machine

end TaskVm
