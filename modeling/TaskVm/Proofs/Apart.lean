import TaskVm.Host
import TaskVm.Proofs.OpenCells
import TaskVm.Proofs.Waiters

/-!
# Machines that share a heap

Machines of a host number their tasks each for itself, and what their tasks leave on the heap
they share has only the number of a task on it: waiters in lines of channels, and cells that
point at a stack. Who comes across something of another machine takes it for its own.

So machines get on with each other as long as none operates on a channel where a waiter of
another stands, nor on a cell that points at a stack of another. Then whoever is woken has waited
at a channel that the other side has operated on, and who reads or changes a variable on a stack
does so on the stack of the task that the variable belongs to.
-/

namespace TaskVm

open Exec Relation

/-! ## What is left on the heap -/

/-- The cell of a captured variable that is read or changed. -/
def Act.cell? : Act → Option CellId
  | cellRead c _ | cellSet c _ => some c
  | _ => none

/-- The variable is on a stack. -/
def Cell.isOpen : Cell → Bool
  | onStack _ _ => true
  | closed _ => false

/-- An act comes across what another act has left: a waiter in the line of the channel it
operates on, or the cell of a variable that is on a stack. -/
def Act.meets (h : Heap) (a left : Act) : Bool :=
  match left with
  | parked k w _ => a.isExchange && a.channel? == some k && decide (w ∈ (h.channel k).waiters)
  | captured _ _ c => a.cell? == some c && h.cells[c]?.any Cell.isOpen
  | _ => false

/-! ## Crews -/

namespace Crew

variable {c : Crew} {hist : List Act}

/-- What others do to the heap leaves what is on record true. -/
theorem Files.elsewhere {handles : Nat} {status : HandleId → TaskStatus} (hf : c.Files hist)
    (hc : c.Tended) (hsame : ∀ id k, c.roster id = some k → status k = c.status k) :
    ({ c with handles, status } : Crew).Files hist where
  early := hf.early
  running := hf.running
  held k w o hp b hb := by
    have hst : status b.handle = c.status b.handle := hsame _ _ (hc.known _ _ hb)
    show w.epoch < b.epoch ∨ w.epoch = b.epoch ∧ status b.handle = .blocked ∧ _
    rw [hst]
    exact hf.held k w o hp b hb

end Crew

namespace Machine

variable {ok : Machine → Prop} {m m₀ : Machine} {hist acts : List Act}

/-! ## One machine -/

theorem Run.files (hok : ∀ m, ok m → m.roomy = true) (h : Run ok m₀ acts m) (hm : m₀.Fit)
    (hf : m₀.crew.Files hist) : m.crew.Files (hist ++ acts) := by
  induction h with
  | refl =>
    rw [List.append_nil]
    exact hf
  | tail h hmove ih =>
    rw [← List.append_assoc]
    exact (hmove.accounts hok (h.fit hm)).files _ ih

/-- Who is in line has been there, or is on record. -/
theorem Run.lines (hok : ∀ m, ok m → m.roomy = true) (h : Run ok m₀ acts m) (hm : m₀.Fit)
    {k : ChannelId} {w : Waiter} (hw : w ∈ (m.heap.channel k).waiters) :
    w ∈ (m₀.heap.channel k).waiters ∨ ∃ o, .parked k w o ∈ acts := by
  induction h with
  | refl => exact .inl hw
  | tail h hmove ih =>
    rcases (hmove.accounts hok (h.fit hm)).lines k w hw with hw | ⟨o, ho⟩
    · rcases ih hw with hold | ⟨o, ho⟩
      · exact .inl hold
      · exact .inr ⟨o, List.mem_append_left _ ho⟩
    · exact .inr ⟨o, List.mem_append_right _ ho⟩

/-- The stages of tasks of other machines are left alone. -/
theorem Run.others (h : Run ok m₀ acts m) (hm : m₀.Fit) {k : Nat} (hk : k < m₀.crew.handles)
    (hn : ∀ id, m₀.crew.roster id ≠ some k) : m.crew.status k = m₀.crew.status k := by
  induction h with
  | refl => rfl
  | @tail _ _ m m' h hmove ih =>
    have hset := h.settles hm
    have hlt : k < m.crew.handles := Nat.lt_of_lt_of_le hk hset.grows
    rw [(hmove.crew (h.fit hm)).others (h.fit hm).tended (crew_blank m) hlt ?_, ih]
    intro id hid
    rcases hset.fresh id k hid with hold | hnew
    · exact hn id hold
    · omega

end Machine

/-! ## A host -/

namespace Host

variable {hist : List (Nat × Act)} {w : Host} {i j : Nat}

/-- What is on record of one machine. -/
def recordOf (i : Nat) (hist : List (Nat × Act)) : List Act :=
  hist.filterMap fun p => if p.1 = i then some p.2 else none

theorem mem_recordOf {a : Act} : a ∈ recordOf i hist ↔ (i, a) ∈ hist := by
  simp [recordOf]

theorem recordOf_own (acts : List Act) :
    recordOf i (hist ++ acts.map (i, ·)) = recordOf i hist ++ acts := by
  simp [recordOf, List.filterMap_append, List.filterMap_map]

theorem recordOf_other (hij : j ≠ i) (acts : List Act) :
    recordOf j (hist ++ acts.map (i, ·)) = recordOf j hist := by
  simp [recordOf, List.filterMap_append, List.filterMap_map, hij.symm]

/-- The next tick of a machine does not line its task up in vain, and it leaves alone what tasks
of other machines have left on the heap. -/
def keepsOff (hist : List (Nat × Act)) (i : Nat) (m : Machine) : Bool :=
  m.roomy && m.tick.acts.all fun a => hist.all fun p => p.1 == i || !a.meets m.heap p.2

/-- What has become of a host, with what has gone on record of each machine. Machines are made,
the host adds to the heap, and machines work, one at a time and each for as long as it likes.
Ticks may be asked to satisfy a condition, given what has been on record when the machine began to
work. -/
inductive Told (ok : List (Nat × Act) → Nat → Machine → Prop) : List (Nat × Act) → Host → Prop where
  | start : Told ok [] {}
  | make {hist : List (Nat × Act)} {w : Host} (h : Told ok hist w) (id : VmId) (config : VmConfig)
      (dice : Dice) {m : Machine} (hm : m = Machine.create w.functions w.heap id config dice) :
      Told ok hist { functions := m.hosts, heap := m.heap, vms := w.vms.push m.vm }
  | heap {hist : List (Nat × Act)} {w : Host} (h : Told ok hist w) {heap : Heap}
      (hh : w.heap.Extends heap) : Told ok hist { w with heap }
  | use {hist : List (Nat × Act)} {w : Host} (h : Told ok hist w) {i : Nat} (hi : i < w.vms.size)
      {acts : List Act} {m : Machine} (hm : Machine.Run (ok hist i) (w.machine i) acts m)
      (hr : m.running = none) : Told ok (hist ++ acts.map (i, ·)) (w.put i m)

/-- What is so of a host whose machines leave each other alone. -/
structure Orderly (hist : List (Nat × Act)) (w : Host) : Prop where
  known : ∀ p ∈ hist, p.1 < w.vms.size
  tame : ∀ f ∈ w.functions, f.Tame
  tended : ∀ i < w.vms.size, (w.machine i).crew.Tended
  /-- No two machines have a handle in common. -/
  apart : ∀ i < w.vms.size, ∀ j < w.vms.size, i ≠ j → ∀ id id' k,
    (w.machine i).crew.roster id = some k → (w.machine j).crew.roster id' ≠ some k
  files : ∀ i < w.vms.size, (w.machine i).crew.Files (recordOf i hist)
  lined : ∀ k x, x ∈ (w.heap.channel k).waiters → ∃ i o, (i, .parked k x o) ∈ hist
  opened : ∀ c t slot, w.heap.cells[c]? = some (.onStack t slot) →
    ∃ i < w.vms.size, (w.machine i).store.Backs c t slot ∧
      ∃ x v, (i, .captured x v c) ∈ hist ∧ x.task = t

theorem Orderly.fit (h : Orderly hist w) (hi : i < w.vms.size) : (w.machine i).Fit :=
  ⟨h.tame, h.tended i hi⟩

theorem roomy_of_keepsOff {m : Machine} (h : keepsOff hist i m = true) : m.roomy = true :=
  (Bool.and_eq_true_iff.mp h).1

/-- Who is met has left it for the same machine. -/
theorem own_of_keepsOff {m : Machine} (h : keepsOff hist i m = true) {a left : Act}
    (ha : a ∈ m.tick.acts) (hmeets : a.meets m.heap left = true) (hl : (j, left) ∈ hist) :
    j = i := by
  have hall := List.all_eq_true.mp (List.all_eq_true.mp (Bool.and_eq_true_iff.mp h).2 a ha) _ hl
  simpa [hmeets] using hall

/-! ### One machine at work -/

section Use

variable {acts : List Act} {m : Machine}

theorem machine_put (hi : i < w.vms.size) (hr : m.running = none) : (w.put i m).machine i = m := by
  obtain ⟨hosts, heap, vm, running⟩ := m
  cases hr
  simp [put, machine, hi]

/-- The other machines have the same tasks, on another heap. -/
theorem machine_put_other (hij : j ≠ i) : (w.put i m).machine j =
    { w.machine j with hosts := m.hosts, heap := m.heap } := by
  simp [put, machine, hij.symm]

/-- What a machine does leaves the tasks of others at their stages. -/
theorem Orderly.stages (h : Orderly hist w) (hi : i < w.vms.size) (hj : j < w.vms.size)
    (hij : j ≠ i) {ok : Machine → Prop} (hrun : Machine.Run ok (w.machine i) acts m) {id : TaskId}
    {k : Nat} (hk : (w.machine j).crew.roster id = some k) :
    (m.heap.handle k).status = (w.heap.handle k).status := by
  have hlt : k < (w.machine i).crew.handles := ((h.tended j hj).listed id k hk).2
  have hn : ∀ id', (w.machine i).crew.roster id' ≠ some k := by
    intro id' hid'
    exact h.apart i hi j hj hij.symm id' id k hid' hk
  exact hrun.others (h.fit hi) hlt hn

theorem Orderly.use (h : Orderly hist w) (hi : i < w.vms.size)
    (hrun : Machine.Run (keepsOff hist i · = true) (w.machine i) acts m) (hr : m.running = none) :
    Orderly (hist ++ acts.map (i, ·)) (w.put i m) := by
  have hfit := hrun.fit (h.fit hi)
  have hset := hrun.settles (h.fit hi)
  have hown : (w.put i m).machine i = m := machine_put hi hr
  have hothers : ∀ j, j ≠ i → (w.put i m).machine j =
      { w.machine j with hosts := m.hosts, heap := m.heap } := fun j => machine_put_other
  have hsize : (w.put i m).vms.size = w.vms.size := by simp [put]
  have hroster : ∀ j, j ≠ i →
      ((w.put i m).machine j).crew.roster = (w.machine j).crew.roster := by
    intro j hij
    rw [hothers j hij]
    rfl
  -- What this machine has changes with its run, and the others see only another heap.
  constructor
  case known =>
    intro p hp
    rw [hsize]
    rcases List.mem_append.mp hp with hp | hp
    · exact h.known p hp
    · obtain ⟨a, -, rfl⟩ := List.mem_map.mp hp
      exact hi
  case tame => exact hfit.tame
  case tended =>
    intro j hj
    rw [hsize] at hj
    by_cases hij : j = i
    · subst hij
      rw [hown]
      exact hfit.tended
    · rw [hothers j hij]
      exact (h.tended j hj).elsewhere hset.grows fun id k hk => h.stages hi hj hij hrun hk
  case apart =>
    have hnew : ∀ j, j < w.vms.size → j ≠ i → ∀ id id' k, m.crew.roster id = some k →
        (w.machine j).crew.roster id' ≠ some k := by
      intro j hj hij id id' k hk hk'
      rcases hset.fresh id k hk with hold | hfresh
      · exact h.apart i hi j hj (Ne.symm hij) id id' k hold hk'
      · have hlt : k < (w.machine i).crew.handles := ((h.tended j hj).listed id' k hk').2
        exact absurd hlt (Nat.not_lt.mpr hfresh)
    intro j hj j' hj' hne id id' k hk hk'
    rw [hsize] at hj hj'
    by_cases hij : j = i
    · subst hij
      rw [hown] at hk
      rw [hroster j' (Ne.symm hne)] at hk'
      exact hnew j' hj' (Ne.symm hne) id id' k hk hk'
    · rw [hroster j hij] at hk
      by_cases hij' : j' = i
      · subst hij'
        rw [hown] at hk'
        exact hnew j hj hij id' id k hk' hk
      · rw [hroster j' hij'] at hk'
        exact h.apart j hj j' hj' hne id id' k hk hk'
  case files =>
    intro j hj
    rw [hsize] at hj
    by_cases hij : j = i
    · subst hij
      rw [hown, recordOf_own]
      exact hrun.files (fun m => roomy_of_keepsOff) (h.fit hi) (h.files j hj)
    · rw [hothers j hij, recordOf_other hij]
      exact (h.files j hj).elsewhere (h.tended j hj) fun id k hk => h.stages hi hj hij hrun hk
  case lined =>
    intro k x hx
    rcases hrun.lines (fun m => roomy_of_keepsOff) (h.fit hi) hx with hold | ⟨o, ho⟩
    · obtain ⟨j, o, ho⟩ := h.lined k x hold
      exact ⟨j, o, List.mem_append_left _ ho⟩
    · exact ⟨i, o, List.mem_append_right _ (List.mem_map_of_mem ho)⟩
  case opened =>
    intro c t slot hc
    rw [hsize]
    rcases hrun.opens (h.fit hi) c t slot hc with ⟨hold, hkeep⟩ | ⟨hbacks, x, v, hx, hxt⟩
    · obtain ⟨j, hj, hbacks, x, v, hx, hxt⟩ := h.opened c t slot hold
      refine ⟨j, hj, ?_, x, v, List.mem_append_left _ hx, hxt⟩
      by_cases hij : j = i
      · subst hij
        rw [hown]
        exact hkeep hbacks
      · rw [hothers j hij]
        exact hbacks
    · refine ⟨i, hi, ?_, x, v, List.mem_append_right _ (List.mem_map_of_mem hx), hxt⟩
      rw [hown]
      exact hbacks

end Use

/-! ### The host at work -/

/-- The host adds to the heap. -/
theorem Orderly.heap (h : Orderly hist w) {heap : Heap} (hh : w.heap.Extends heap) :
    Orderly hist { w with heap } := by
  have hcrew : ∀ i, (machine { w with heap } i).crew = (w.machine i).crew := fun i =>
    Machine.crew_heap (w.machine i) hh.handles
  constructor
  case known => exact h.known
  case tame => exact h.tame
  case tended => exact fun i hi => (hcrew i).symm ▸ h.tended i hi
  case apart =>
    intro i hi j hj hij id id' k
    rw [hcrew, hcrew]
    exact h.apart i hi j hj hij id id' k
  case files => exact fun i hi => (hcrew i).symm ▸ h.files i hi
  case lined =>
    intro k x hx
    obtain ⟨fresh, hfresh, hnew⟩ := hh.channels
    exact h.lined k x (Heap.mem_append_channels hfresh hnew hx)
  case opened =>
    intro c t slot hc
    exact h.opened c t slot (hh.cells ▸ hc)

theorem machine_push {m : Machine} (hi : i < w.vms.size) :
    machine { functions := m.hosts, heap := m.heap, vms := w.vms.push m.vm } i =
      { w.machine i with hosts := m.hosts, heap := m.heap } := by
  have hne : i ≠ w.vms.size := by omega
  simp [machine, Array.getElem?_push, hne]

theorem machine_pushed {m : Machine} (hr : m.running = none) :
    machine { functions := m.hosts, heap := m.heap, vms := w.vms.push m.vm } w.vms.size = m := by
  obtain ⟨hosts, heap, vm, running⟩ := m
  cases hr
  simp [machine]

/-- A new machine has nothing and is on no record. -/
theorem Orderly.make (h : Orderly hist w) (id : VmId) (config : VmConfig) (dice : Dice)
    {m : Machine} (hm : m = Machine.create w.functions w.heap id config dice) :
    Orderly hist { functions := m.hosts, heap := m.heap, vms := w.vms.push m.vm } := by
  have hheap := Machine.create_heap w.functions w.heap id config dice
  have hheld := Machine.create_held w.functions w.heap id config dice
  have hfit := Machine.create_fit h.tame w.heap id config dice
  have hroster : ∀ k, (Machine.create w.functions w.heap id config dice).crew.roster k = none :=
    fun k => Std.ExtTreeMap.getElem?_empty
  have hrunning : (Machine.create w.functions w.heap id config dice).running = none := rfl
  -- A new machine has no tasks, no handles and nobody in a line.
  rw [← hm] at hheap hheld hfit hroster hrunning
  have hnew := machine_pushed (w := w) hrunning
  have hcrew : ∀ i < w.vms.size,
      (machine { functions := m.hosts, heap := m.heap, vms := w.vms.push m.vm } i).crew =
        (w.machine i).crew := by
    intro i hi
    have hhandles : m.heap.handles = w.heap.handles := by rw [hheap]
    rw [machine_push hi]
    exact Machine.crew_heap { w.machine i with hosts := m.hosts } hhandles
  -- Whoever is not an old machine is the new one.
  have hcases : ∀ i < (w.vms.push m.vm).size, i < w.vms.size ∨ i = w.vms.size := by
    intro i hi
    rw [Array.size_push] at hi
    omega
  have hblank : recordOf w.vms.size hist = [] := by
    refine List.eq_nil_iff_forall_not_mem.mpr fun a ha => ?_
    exact Nat.lt_irrefl _ (h.known _ (mem_recordOf.mp ha))
  constructor
  case known =>
    intro p hp
    have hlt := h.known p hp
    simp only [Array.size_push]
    omega
  case tame => exact hfit.tame
  case tended =>
    intro i hi
    rcases hcases i hi with hi | rfl
    · rw [hcrew i hi]
      exact h.tended i hi
    · rw [hnew]
      exact hfit.tended
  case apart =>
    intro i hi j hj hij id id' k hk hk'
    rcases hcases i hi with hi | rfl
    · rcases hcases j hj with hj | rfl
      · rw [hcrew i hi] at hk
        rw [hcrew j hj] at hk'
        exact h.apart i hi j hj hij id id' k hk hk'
      · rw [hnew, hroster] at hk'
        cases hk'
    · rw [hnew, hroster] at hk
      cases hk
  case files =>
    intro i hi
    rcases hcases i hi with hi | rfl
    · rw [hcrew i hi]
      exact h.files i hi
    · rw [hnew, hblank]
      exact .vacant (by simp) (by rw [Machine.crew, hrunning]; rfl) fun id _ => hheld id
  case lined =>
    intro k x hx
    rw [Heap.channel, congrArg Heap.channels hheap] at hx
    exact h.lined k x hx
  case opened =>
    intro c t slot hc
    rw [congrArg Heap.cells hheap] at hc
    obtain ⟨i, hi, hbacks, hcaptured⟩ := h.opened c t slot hc
    refine ⟨i, Nat.lt_of_lt_of_le hi ?_, ?_, hcaptured⟩
    · simp
    · rw [machine_push hi]
      exact hbacks

/-- Machines that leave each other alone keep things in order. -/
theorem Told.orderly (h : Told (keepsOff · · · = true) hist w) : Orderly hist w := by
  induction h with
  | start =>
    constructor
    case known => simp
    case tame => simp
    case lined =>
      intro k x hx
      cases hx
    case opened => simp
    all_goals
      intro i hi
      cases hi
  | make h id config dice hm ih => exact ih.make id config dice hm
  | heap h hh ih => exact ih.heap hh
  | use h hi hm hr ih => exact ih.use hi hm hr

/-- **Machines that leave each other's waiters and open cells alone do not disturb each other's
tasks.** Whatever machines have done before and whoever does the next thing: a task is woken only
while it is parked, and by something that happens to a channel that it has a claim on. A cell
that is read or changed while its variable is on a stack is that of a variable that a task of the
same machine has captured. That task is there, and has the cell among those it will close. Tasks
of other machines are at the stages they have been at. -/
theorem Told.undisturbed (h : Told (keepsOff · · · = true) hist w) (hi : i < w.vms.size)
    {acts : List Act} {m : Machine}
    (hrun : Machine.Run (keepsOff hist i · = true) (w.machine i) acts m)
    (hok : keepsOff hist i m = true) (hend : m.tick.outcome ≠ some .endless) :
    (∀ x r, .woken x r ∈ m.tick.acts →
      m.vm.taskStatus? m.heap x.task = some .blocked ∧
      ∃ op, lastBegun x.task (recordOf i hist ++ acts) = some op ∧
        ∃ k ∈ op.claims, ∃ a ∈ m.tick.acts,
          a.isExchange = true ∧ a.channel? = some k.channel) ∧
    (∀ a ∈ m.tick.acts, ∀ c t slot, a.cell? = some c → m.heap.cells[c]? = some (.onStack t slot) →
      (∃ y v, .captured y v c ∈ recordOf i hist ++ acts ∧ y.task = t) ∧
      ∃ task, m.HasTask task ∧ task.id = t ∧ (slot, c) ∈ task.openUpvalues.cells) ∧
    ∀ j < w.vms.size, j ≠ i → ∀ id, (w.machine j).vm.taskStatus? m.tick.machine.heap id =
      (w.machine j).vm.taskStatus? w.heap id := by
  have horderly := h.orderly
  have hfit := hrun.fit (horderly.fit hi)
  have hfiles := hrun.files (fun m => roomy_of_keepsOff) (horderly.fit hi) (horderly.files i hi)
  have haccounts := Machine.tick_accounts hfit (roomy_of_keepsOff hok) hend
  refine ⟨fun x r hmem => ?_, fun a ha c t slot hcell hopen => ?_, fun j hj hij id => ?_⟩
  · obtain ⟨hlive, k, hx, a, ha, hexchange, hk⟩ := haccounts.wakes x r hmem
    obtain ⟨b, hb, hst, he⟩ := Crew.held_of_live hlive
    -- Whoever stands in the line is on record, and as this machine operates on the channel it
    -- is on the machine's own record.
    have hparked : ∃ o, .parked k x o ∈ recordOf i hist ++ acts := by
      rcases hrun.lines (fun m => roomy_of_keepsOff) (horderly.fit hi) hx with hold | ⟨o, ho⟩
      · obtain ⟨j, o, ho⟩ := horderly.lined k x hold
        have hmeets : a.meets m.heap (.parked k x o) = true := by
          simp [Act.meets, hexchange, hk, hx]
        have hown := own_of_keepsOff hok ha hmeets ho
        exact ⟨o, List.mem_append_left _ (mem_recordOf.mpr (hown ▸ ho))⟩
      · exact ⟨o, List.mem_append_right _ ho⟩
    obtain ⟨o, ho⟩ := hparked
    refine ⟨?_, ?_⟩
    · have hroster := hfit.tended.known _ _ hb
      show (m.crew.roster x.task).map m.crew.status = some .blocked
      rw [hroster, Option.map_some, hst]
    · rcases hfiles.held k x o ho b hb with hlt | ⟨-, -, op, hop, claim, hclaim, rfl⟩
      · omega
      · exact ⟨op, hop, claim, hclaim, a, ha, hexchange, hk⟩
  · have hcapture : (∃ y v, .captured y v c ∈ recordOf i hist ++ acts ∧ y.task = t) ∧
        m.store.Backs c t slot := by
      rcases hrun.opens (horderly.fit hi) c t slot hopen with
        ⟨hold, hkeep⟩ | ⟨hbacks, y, v, hy, hyt⟩
      · obtain ⟨j, -, hbacks, y, v, hy, hyt⟩ := horderly.opened c t slot hold
        have hmeets : a.meets m.heap (.captured y v c) = true := by
          simp [Act.meets, hcell, hopen, Cell.isOpen]
        obtain rfl := own_of_keepsOff hok ha hmeets hy
        exact ⟨⟨y, v, List.mem_append_left _ (mem_recordOf.mpr hy), hyt⟩, hkeep hbacks⟩
      · exact ⟨⟨y, v, List.mem_append_right _ hy, hyt⟩, hbacks⟩
    obtain ⟨hcaptured, s, hs, hmem⟩ := hcapture
    obtain ⟨task, htask, rfl⟩ := Option.map_eq_some_iff.mp hs
    obtain ⟨hhas, hid⟩ := (Machine.task?_eq_some hfit.tended).mp htask
    exact ⟨hcaptured, task, hhas, hid, hmem⟩
  · have hrun' := hrun.tail (.tick hok hend)
    refine Option.map_congr fun k hk => ?_
    exact horderly.stages hi hj hij hrun' hk

/-- Programs for two machines. The first receives from a channel that nobody sends to. The second
starts a task that sends to some channel, and receives from another one. -/
def lent (k : ChannelId) : Heap where
  channels := #[.ofCapacity 0, .ofCapacity 0]
  closures := #[{ template := 0 }]
  templates := #[{ name := "sender", chunk := 2 }]
  chunks := #[
    { code := Machine.assemble [(.constant, [0, 0]), (.channelRecv, []), (.ret, [])]
      constants := #[.channel 0] },
    { code := Machine.assemble [(.constant, [0, 0]), (.spawn, [0]), (.pop, []), (.constant, [0, 1]),
        (.channelRecv, []), (.ret, [])]
      constants := #[.closure 0, .channel 1] },
    { code := Machine.assemble [(.constant, [0, 0]), (.pushTrue, []), (.channelSend, []), (.ret, [])]
      constants := #[.channel k] }]

/-- Two machines on a heap. -/
def twoOn (heap : Heap) : Host := (({ heap } : Host).add {}).add {}

theorem told_lent (ok : List (Nat × Act) → Nat → Machine → Prop) (k : ChannelId) :
    Told ok [] (twoOn (lent k)) := by
  have hext : ({} : Heap).Extends (lent k) := by
    constructor
    case channels =>
      refine ⟨(lent k).channels, (Array.empty_append).symm, fun c hc => ⟨0, ?_⟩⟩
      simpa [lent] using hc
    case handles => rfl
    case cells => rfl
    case closures => exact ⟨(lent k).closures, (Array.empty_append).symm, by simp [lent]⟩
    case templates => exact ⟨(lent k).templates, (Array.empty_append).symm⟩
    case code => exact ⟨Nat.zero_le _, fun id hid => absurd hid (Nat.not_lt_zero id)⟩
  exact ((Told.start.heap hext).make 0 {} {} rfl).make 1 {} {} rfl

/-- A machine loads a program and ticks a number of times. -/
def play (ok : Machine → Bool) (w : Host) (i : Nat) (chunk : ChunkId) (n : Nat) :
    Option (List Act × Machine) :=
  Machine.tickFor ok n ((w.machine i).load chunk).2 ((w.machine i).endings (w.machine i).shutdown)

theorem run_of_play {ok : Machine → Bool} {chunk : ChunkId} {n : Nat} {acts : List Act}
    {m : Machine} (h : play ok w i chunk n = some (acts, m)) :
    Machine.Run (ok · = true) (w.machine i) acts m :=
  Machine.run_of_tickFor (Machine.Run.refl.tail (.load rfl chunk)) h

/-- A task that waits at one channel and is sent to at the same is woken, and a waiter of another
machine's task that has had the same number stays where it is. -/
theorem lent_undisturbed : ∃ hist w acts m, Told (keepsOff · · · = true) hist w ∧
    Machine.Run (keepsOff hist 1 · = true) (w.machine 1) acts m ∧
    (m.heap.channel 0).receivers = [⟨0, 0, none⟩] ∧
    .woken ⟨0, 0, none⟩ (.value (.bool true)) ∈ m.tick.acts ∧
    m.vm.taskStatus? m.heap 0 = some .blocked ∧
    ∃ op, lastBegun 0 (recordOf 1 hist ++ acts) = some op ∧
      ∃ k ∈ op.claims, ∃ a ∈ m.tick.acts, a.isExchange = true ∧ a.channel? = some k.channel := by
  have hrun : ((play (keepsOff [] 0) (twoOn (lent 1)) 0 0 4).any fun p =>
      p.2.running.isNone && (play (keepsOff (p.1.map (0, ·)) 1)
        ((twoOn (lent 1)).put 0 p.2) 1 1 9).any fun q =>
          keepsOff (p.1.map (0, ·)) 1 q.2 && decide (q.2.tick.outcome ≠ some .endless) &&
          decide ((q.2.heap.channel 0).receivers = [⟨0, 0, none⟩]) &&
          decide (.woken ⟨0, 0, none⟩ (.value (.bool true)) ∈ q.2.tick.acts)) = true := by
    decide +kernel
  obtain ⟨⟨acts₀, m₀⟩, hplay₀, hp⟩ := (Option.any_eq_true _ _).mp hrun
  obtain ⟨hidle, hp⟩ := Bool.and_eq_true_iff.mp hp
  obtain ⟨⟨acts, m⟩, hplay, hp⟩ := (Option.any_eq_true _ _).mp hp
  simp only [Bool.and_eq_true, decide_eq_true_eq] at hp
  obtain ⟨⟨⟨hok, hend⟩, hline⟩, hwoken⟩ := hp
  have htold := (told_lent (keepsOff · · · = true) 1).use (i := 0) (Nat.zero_lt_succ 1)
    (run_of_play hplay₀) (by simpa using hidle)
  have hsize : 1 < ((twoOn (lent 1)).put 0 m₀).vms.size := by simp [put, twoOn, Host.add]
  obtain ⟨hwakes, -, -⟩ := htold.undisturbed hsize (run_of_play hplay) hok hend
  exact ⟨_, _, acts, m, htold, run_of_play hplay, hline, hwoken, hwakes _ _ hwoken⟩

/-- **Who comes across a waiter of another machine wakes the wrong task.** The main task of the
first machine is gone, but its waiter stands in the line of channel 0. The second machine sends to
that channel, and takes the waiter for that of its own main task, which waits at channel 1 for its
first time just as the other did. -/
theorem lent_disturbed : ∃ hist w acts m, Told (fun _ _ m => m.roomy = true) hist w ∧
    Machine.Run (fun m => m.roomy = true) (w.machine 1) acts m ∧
    ∃ x r, .woken x r ∈ m.tick.acts ∧
      lastBegun x.task (recordOf 1 hist ++ acts) = some (.receive 1) ∧
      ∀ a ∈ m.tick.acts, a.channel? ≠ some 1 := by
  have hrun : ((play Machine.roomy (twoOn (lent 0)) 0 0 4).any fun p =>
      p.2.running.isNone && (play Machine.roomy ((twoOn (lent 0)).put 0 p.2) 1 1 9).any fun q =>
        decide (.woken ⟨0, 0, none⟩ (.value (.bool true)) ∈ q.2.tick.acts) &&
        decide (lastBegun 0 (recordOf 1 (p.1.map (0, ·)) ++ q.1) = some (.receive 1)) &&
        q.2.tick.acts.all fun a => decide (a.channel? ≠ some 1)) = true := by
    decide +kernel
  obtain ⟨⟨acts₀, m₀⟩, hplay₀, hp⟩ := (Option.any_eq_true _ _).mp hrun
  obtain ⟨hidle, hp⟩ := Bool.and_eq_true_iff.mp hp
  obtain ⟨⟨acts, m⟩, hplay, hp⟩ := (Option.any_eq_true _ _).mp hp
  simp only [Bool.and_eq_true, List.all_eq_true, decide_eq_true_eq] at hp
  obtain ⟨⟨hwoken, hbegun⟩, hacts⟩ := hp
  have htold := (told_lent (fun _ _ m => m.roomy = true) 0).use (i := 0) (Nat.zero_lt_succ 1)
    (run_of_play hplay₀) (by simpa using hidle)
  exact ⟨_, _, acts, m, htold, run_of_play hplay, _, _, hwoken, hbegun, hacts⟩

end Host

end TaskVm
