import TaskVm.Host
import TaskVm.Proofs.Executing
import TaskVm.Proofs.Globals

/-!
# Machines in a host

A host makes machines, binds globals in them, registers functions, and loads and runs programs, in
any order and on any of its machines. All of them work on one heap. A machine looks names up in two
ways that are meant to be fast and not to be seen: methods go through a table of the natives among
its globals, and code remembers where it has found a global. This module says what can happen to
either, inside a turn and outside.
-/

namespace TaskVm

open Exec Relation

/-- A relation between heaps that allows anything. -/
def Heap.Anyhow (_ _ : Heap) : Prop := True

instance : Heap.Permits Heap.Anyhow := ⟨fun _ => trivial⟩

theorem HostFunction.respects_anyhow (f : HostFunction) : f.Respects Heap.Anyhow :=
  fun _ _ => trivial

/-! ## Inside a turn -/

/-- Globals and the table of natives are the same. -/
structure Vm.SameNames (v v' : Vm) : Prop where
  id : v'.id = v.id
  globals : v'.globals = v.globals
  natives : v'.natives = v.natives
  warmedUp : v'.warmedUp = v.warmedUp

theorem Vm.SameNames.refl (v : Vm) : v.SameNames v := ⟨rfl, rfl, rfl, rfl⟩

theorem Vm.setGlobal_globals (v : Vm) (name : String) (x : Value) :
    (v.setGlobal name x).globals = v.globals.insert name x := by
  unfold Vm.setGlobal
  extract_lets isNative wasNative v'
  split <;> rfl

theorem Vm.warmUp_globals (v : Vm) : v.warmUp.globals = v.globals := by
  unfold Vm.warmUp
  split <;> rfl

theorem Turn.Scans.names {s s' : Turn} (h : s.Scans s') : s.vm.SameNames s'.vm := by
  cases h
  exact ⟨rfl, rfl, rfl, rfl⟩

/-- What a deed does to names and to what is remembered about them. -/
inductive Turn.Names (K : Heap → Heap → Prop) (s s' : Turn) : Prop where
  | quiet (hc : s'.heap.chunks = s.heap.chunks) (hv : s.vm.SameNames s'.vm)
  | heap (hh : K s.heap s'.heap) (hv : s.vm.SameNames s'.vm)
  | remember {chunk : ChunkId} {constant slot : Nat} {name : String}
      (hc : (s.heap.chunk chunk).constants[constant]? = some (.string name))
      (hs : s.vm.globals.place? name = some slot)
      (hh : s'.heap = s.heap.rememberSlot chunk constant s.vm.id slot) (hv : s'.vm = s.vm)
  | vm (hh : s'.heap = s.heap) (hv : s.vm.Works s'.vm)

variable {K : Heap → Heap → Prop} {s s' : Turn}

theorem ChangeIn.names (h : ChangeIn K s s') : s.Names K s' := by
  cases h with
  | heap hh => exact .heap hh (.refl _)
  | remember hc hs => exact .remember hc hs rfl rfl
  | vm hv => exact .vm rfl hv
  | @writeCell cell hc v =>
    cases hcell : s.heap.cell cell with
    | closed w =>
      rw [writeCell_closed hcell]
      exact .quiet rfl (.refl _)
    | onStack task slot =>
      rw [writeCell_onStack hcell, setSlotOf]
      dsimp only
      split
      · exact .quiet rfl (.refl _)
      · split <;> exact .quiet rfl ⟨rfl, rfl, rfl, rfl⟩
  | @capture f fs hf slot =>
    rw [endState_ok (captureSlot_apply s (f.stackBase + slot)), OpenUpvalues.capture_frame]
    exact .quiet rfl (.refl _)
  | @leave f callers hf =>
    refine .quiet ?_ (.refl _)
    rw [dropFrame_heap]
  | spawn hc name hid hh he => exact .quiet he.chunks ⟨rfl, rfl, rfl, rfl⟩
  | reserve => exact .quiet rfl ⟨rfl, rfl, rfl, rfl⟩
  | _ => exact .quiet rfl (.refl _)

theorem DeedIn.names (h : DeedIn K s s') : s.Names K s' := by
  cases h with
  | change h => exact h.names
  | wake w r =>
    rw [endState_ok (wake_apply s w r)]
    refine .quiet ?_ ⟨rfl, rfl, rfl, rfl⟩
    dsimp only
    rw [Machine.wake_frame]
  | unwind hh v =>
    obtain ⟨acts, events, cells, frames, openUpvalues, iterations, stack, hs⟩ :=
      Turn.unwind_frame hh v
    rw [hs]
    exact .quiet rfl (.refl _)
  | _ => exact .quiet rfl (.refl _)

/-! ## What is always so of a machine -/

/-- What is true of a heap and a machine whatever happens to them. -/
structure Stable (K : Heap → Heap → Prop) (P : Heap → Vm → Prop) : Prop where
  quiet {h h' : Heap} {v v' : Vm} (hp : P h v) (hc : h'.chunks = h.chunks)
    (hv : v.SameNames v') : P h' v'
  heap {h h' : Heap} {v : Vm} (hp : P h v) (hh : K h h') : P h' v
  remember {h : Heap} {v : Vm} {chunk : ChunkId} {constant slot : Nat} {name : String} (hp : P h v)
    (hc : (h.chunk chunk).constants[constant]? = some (.string name))
    (hs : v.globals.place? name = some slot) : P (h.rememberSlot chunk constant v.id slot) v
  bind {h : Heap} {v : Vm} (hp : P h v) (name : String) (x : Value) : P h (v.setGlobal name x)
  look {h : Heap} {v : Vm} (hp : P h v) (hw : v.warmedUp = true) (name : String) :
    P h { v with natives := (v.natives.lookup v.globals name).2 }
  warmUp {h : Heap} {v : Vm} (hp : P h v) : P h v.warmUp

namespace Stable

protected theorem trivial (K : Heap → Heap → Prop) : Stable K fun _ _ => True :=
  ⟨fun _ _ _ => ⟨⟩, fun _ _ => ⟨⟩, fun _ _ _ => ⟨⟩, fun _ _ _ => ⟨⟩, fun _ _ _ => ⟨⟩, fun _ => ⟨⟩⟩

variable {P : Heap → Vm → Prop}

theorem works (hst : Stable K P) {h : Heap} {v v' : Vm} (hp : P h v) (hw : v.warmedUp = true)
    (hv : v.Works v') : P h v' := by
  cases hv with
  | count => exact hst.quiet hp rfl ⟨rfl, rfl, rfl, rfl⟩
  | bind name x => exact hst.bind hp name x
  | look name => exact hst.look hp hw name

theorem deeds (hst : Stable K P) (h : DeedsIn K s s') (hp : P s.heap s.vm)
    (hw : s.vm.warmedUp = true) : P s'.heap s'.vm ∧ s'.vm.warmedUp = true := by
  induction h with
  | refl => exact ⟨hp, hw⟩
  | tail _ hd ih =>
    obtain ⟨hp, hw⟩ := ih
    cases hd.names with
    | quiet hc hv => exact ⟨hst.quiet hp hc hv, hv.warmedUp.trans hw⟩
    | heap hh hv => exact ⟨hst.quiet (hst.heap hp hh) rfl hv, hv.warmedUp.trans hw⟩
    | remember hc hs hh hv =>
      rw [hh, hv]
      exact ⟨hst.remember hp hc hs, hw⟩
    | vm hh hv =>
      rw [hh]
      exact ⟨hst.works hp hw hv, hv.alike.warm hw⟩

end Stable

namespace Machine

variable {P : Heap → Vm → Prop} {m m' : Machine}

theorem Resettles.names (h : m.Resettles m') : m.vm.SameNames m'.vm := by
  rw [h.vm]
  exact ⟨rfl, rfl, rfl, rfl⟩

/-- Nothing that lasts depends on where tasks are. -/
theorem Resettles.stable (h : m.Resettles m') (hst : Stable K P) (hp : P m.heap m.vm)
    (hw : m.vm.warmedUp = true) : P m'.heap m'.vm ∧ m'.vm.warmedUp = true :=
  ⟨hst.quiet hp h.chunks h.names, h.names.warmedUp.trans hw⟩

theorem tick_stable [Heap.Permits K] (hst : Stable K P) (ht : ∀ f ∈ m.hosts, f.Respects K)
    (hp : P m.heap m.vm) (hw : m.vm.warmedUp = true) :
    P m.tick.machine.heap m.tick.machine.vm ∧ m.tick.machine.vm.warmedUp = true := by
  refine tick_induct (P := fun m' => P m'.heap m'.vm ∧ m'.vm.warmedUp = true)
    (fun _ => m.dispatch_resettles.stable hst hp hw) ?_ ?_
  · exact fun task _ => hst.deeds (Turn.deeds_advance (s := m.turn task) ht) hp hw
  · exact fun _ _ _ _ _ hover hdone => hover.resettles.stable hst hdone.1 hdone.2

/-- What has been warmed up stays so. -/
theorem tick_warm (hw : m.vm.warmedUp = true) : m.tick.machine.vm.warmedUp = true :=
  (tick_stable (K := Heap.Anyhow) (P := fun _ _ => True) ⟨fun _ _ _ => trivial, fun _ _ => trivial,
    fun _ _ _ => trivial, fun _ _ _ => trivial, fun _ _ _ => trivial, fun _ => trivial⟩
    (fun f _ => f.respects_anyhow) trivial hw).2

/-- The builtins of a new machine are bound one after the other. -/
theorem create_lawful (hosts : Array HostFunction) (h : Heap) (id : VmId) (config : VmConfig)
    (dice : Dice) : (create hosts h id config dice).vm.globals.Lawful := by
  unfold create
  cases h.newSink with
  | mk sink h' =>
    dsimp only
    cases h'.newBuiltins sink with
    | mk named h'' => exact OrderedMap.lawful_ofList _

/-! ## What happens to a machine -/

/-- The embedder does something with a machine, or its program goes on. -/
inductive Use (K : Heap → Heap → Prop) (m : Machine) : Machine → Prop where
  | define (name : String) (v : Value) : Use K m (m.define name v)
  | register {b : NativeBuilder} {m' : Machine} (hf : ∀ f, b.implementation = some f → f.Respects K)
      (hb : m.register b = .ok m') : Use K m m'
  | load (hr : m.running = none) (chunk : ChunkId) : Use K m (m.load chunk).2
  | warmUp : Use K m { m with vm := m.vm.warmUp }
  | tick (hw : m.vm.warmedUp = true) : Use K m m.tick.machine
  | pause : Use K m m.pause.1
  | profile : Use K m m.enableProfiling
  | rename (name : String) : Use K m (m.setSourceName name)
  | clear : Use K m m.clearOutput

/-- Much may happen to a machine. -/
abbrev Uses (K : Heap → Heap → Prop) : Machine → Machine → Prop := ReflTransGen (Use K)

section Runs

variable {σ : Type} {hook : Option (Hook σ)} {fuel : Nat} {s s' : σ} {outcome : Outcome}

theorem runFor_uses (hw : m.vm.warmedUp = true)
    (hr : runFor hook fuel m s = some (outcome, m', s')) : Uses K m m' := by
  induction fuel generalizing m s with
  | zero => cases hr
  | succ fuel ih =>
    unfold runFor at hr
    split at hr
    · cases hr
      exact .single .pause
    · dsimp only at hr
      split at hr
      · cases hr
        exact .single (.tick hw)
      · exact .head (.tick hw) (ih (tick_warm hw) hr)

/-- A run is one of the things that happen. -/
theorem run_uses (hr : m.run hook fuel s = some (outcome, m', s')) : Uses K m m' := by
  unfold run at hr
  split at hr
  · cases hr
    exact .refl
  · refine .head .warmUp (runFor_uses ?_ hr)
    unfold Vm.warmUp
    split
    · assumption
    · rfl

end Runs

variable [Heap.Permits K]

theorem Use.keeps (hu : Use K m m') (hst : Stable K P) (ht : ∀ f ∈ m.hosts, f.Respects K)
    (hp : P m.heap m.vm) : (∀ f ∈ m'.hosts, f.Respects K) ∧ P m'.heap m'.vm := by
  cases hu with
  | define name v => exact ⟨ht, hst.bind hp name v⟩
  | @register b _ hf hb =>
    unfold Machine.register NativeBuilder.build at hb
    cases ha : b.arity with
    | none =>
      rw [ha] at hb
      cases hb
    | some arity =>
      cases hi : b.implementation with
      | none =>
        rw [ha, hi] at hb
        cases hb
      | some f =>
        rw [ha, hi] at hb
        cases hb
        refine ⟨fun g hg => ?_, hst.bind (hst.heap hp ?_) _ _⟩
        · rcases Array.mem_push.mp hg with hg | rfl
          · exact ht g hg
          · exact hf g hi
        · exact Heap.Permits.of_collects (Heap.Collects.newNative _ _)
  | load hr chunk =>
    refine ⟨ht, hst.quiet hp ?_ ⟨rfl, rfl, rfl, rfl⟩⟩
    show m.shutdown.heap.chunks = _
    rw [shutdown_heap]
  | warmUp => exact ⟨ht, hst.warmUp hp⟩
  | tick hw => exact ⟨(tick_hosts ht).symm ▸ ht, (tick_stable hst ht hp hw).1⟩
  | pause =>
    have hpause := m.pause_resettles
    exact ⟨hpause.hosts.symm ▸ ht, hst.quiet hp hpause.chunks hpause.names⟩
  | profile => exact ⟨ht, hst.quiet hp rfl ⟨rfl, rfl, rfl, rfl⟩⟩
  | rename name => exact ⟨ht, hst.quiet hp rfl ⟨rfl, rfl, rfl, rfl⟩⟩
  | clear => exact ⟨ht, hst.quiet hp rfl (.refl _)⟩

/-- **What is always so stays so, whatever happens.** -/
theorem Uses.keeps (hu : Uses K m m') (hst : Stable K P) (ht : ∀ f ∈ m.hosts, f.Respects K)
    (hp : P m.heap m.vm) : (∀ f ∈ m'.hosts, f.Respects K) ∧ P m'.heap m'.vm := by
  induction hu with
  | refl => exact ⟨ht, hp⟩
  | tail _ hu ih => exact hu.keeps hst ih.1 ih.2

end Machine

/-! ## What happens in a host -/

namespace Host

/-- A machine is made, the embedder does something to the heap, or much happens to a machine. -/
inductive Step (K : Heap → Heap → Prop) (w : Host) : Host → Prop where
  /-- A machine with a number that no other has. -/
  | make {id : VmId} (hid : ∀ vm ∈ w.vms, vm.id ≠ id) (config : VmConfig) (dice : Dice)
      {m : Machine} (hm : m = Machine.create w.functions w.heap id config dice) :
      Step K w { functions := m.hosts, heap := m.heap, vms := w.vms.push m.vm }
  | heap {h : Heap} (hh : K w.heap h) : Step K w { w with heap := h }
  | use {i : Nat} (hi : i < w.vms.size) {m : Machine} (hm : (w.machine i).Uses K m)
      (hr : m.running = none) : Step K w (w.put i m)

/-- What a host with nothing in it can come to. -/
abbrev Reached (K : Heap → Heap → Prop) : Host → Prop := ReflTransGen (Step K) {}

/-- Machines are made as a host adds them. -/
theorem step_add {K : Heap → Heap → Prop} {w : Host} (hids : ∀ vm ∈ w.vms, vm.id < w.vms.size)
    (config : VmConfig) (dice : Dice) : Step K w (w.add config dice) :=
  .make (fun vm hvm => Nat.ne_of_lt (hids vm hvm)) config dice rfl

variable {K : Heap → Heap → Prop} [Heap.Permits K] {P : Heap → Vm → Prop} {w : Host}

theorem Reached.functions (h : Reached K w) : ∀ f ∈ w.functions, f.Respects K := by
  induction h with
  | refl => simp
  | tail _ hstep ih =>
    cases hstep with
    | make hid config dice hm =>
      subst hm
      exact ih
    | heap hh => exact ih
    | use hi hm hr => exact (hm.keeps (.trivial K) ih trivial).1

theorem machine_vm {i : Nat} (hi : i < w.vms.size) : (w.machine i).vm = w.vms[i] := by
  simp [machine, hi]

/-- What is always so of a new machine, and does not depend on its heap, is so of all. -/
theorem Reached.all {Q : Vm → Prop} (h : Reached K w) (hst : Stable K fun _ => Q)
    (hnew : ∀ hosts h id config dice, Q (Machine.create hosts h id config dice).vm) :
    ∀ vm ∈ w.vms, Q vm := by
  induction h with
  | refl => simp
  | @tail w _ h hstep ih =>
    cases hstep with
    | make hid config dice hm =>
      intro vm hvm
      rcases Array.mem_push.mp hvm with hvm | rfl
      · exact ih vm hvm
      · rw [hm]
        exact hnew ..
    | heap hh => exact ih
    | @use i hi m hm hr =>
      have hq : Q (w.machine i).vm := machine_vm hi ▸ ih _ (Array.getElem_mem hi)
      intro vm hvm
      rcases Array.mem_or_eq_of_mem_setIfInBounds hvm with hvm | rfl
      · exact ih vm hvm
      · exact (hm.keeps hst (Reached.functions h) hq).2

end Host

end TaskVm
