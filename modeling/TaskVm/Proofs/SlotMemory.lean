import TaskVm.Proofs.Embedding
import Mathlib.Logic.Function.Basic

/-!
# What code remembers about globals

Code that names a global remembers where a machine has found it, so that the machine need not look
again. Code is shared: each machine has its own table of globals, and what one has found is of no
use to another and may be overwritten by it. What is remembered for a machine stays right all the
same, because a global never changes its place, and so nobody can tell that it is remembered.
-/

namespace TaskVm

open Exec Relation

/-! ## Remembering -/

/-- Remembering a place for a constant replaces what is remembered for it, whoever it was for. -/
theorem SlotCache.get?_insert_ite (cache : SlotCache) (constant : Nat) (vm : VmId) (slot : Nat)
    (constant' : Nat) (vm' : VmId) : (cache.insert constant vm slot).get? constant' vm' =
      if constant = constant' then if vm = vm' then some slot else none
      else cache.get? constant' vm' := by
  have hroom : constant < cache.slots.size + (constant + 1 - cache.slots.size) := by omega
  by_cases heq : constant = constant'
  · subst heq
    simp [SlotCache.insert, SlotCache.get?, hroom]
  · unfold SlotCache.insert SlotCache.get?
    dsimp only
    rw [Array.getElem?_setIfInBounds_ne heq, if_neg heq]
    by_cases hlt : constant' < cache.slots.size
    · rw [Array.getElem?_append_left hlt]
    · -- The places that have come with it are empty.
      rw [Array.getElem?_append_right (Nat.le_of_not_lt hlt), Array.getElem?_replicate,
        Array.getElem?_eq_none (Nat.le_of_not_lt hlt)]
      by_cases hnew : constant' - cache.slots.size < constant + 1 - cache.slots.size
      · rw [if_pos hnew]
      · rw [if_neg hnew]

theorem Heap.chunk_rememberSlot {h : Heap} {id : ChunkId} (hid : id < h.chunks.size)
    (constant : Nat) (vm : VmId) (slot : Nat) (id' : ChunkId) :
    (h.rememberSlot id constant vm slot).chunk id' =
      if id = id' then { h.chunk id' with
        slotCache := (h.chunk id').slotCache.insert constant vm slot }
      else h.chunk id' := by
  unfold Heap.chunk Heap.rememberSlot
  rw [Array.getD_eq_getD_getElem?, Array.getD_eq_getD_getElem?, Array.getElem?_modify]
  split
  · rename_i heq
    subst heq
    rw [Array.getElem?_eq_getElem hid]
    rfl
  · rfl

/-- Code is added to a heap, and nobody has remembered anything in it. -/
def Heap.Offers (h h' : Heap) : Prop :=
  ∃ fresh, h'.chunks = h.chunks ++ fresh ∧ ∀ c ∈ fresh, c.slotCache = {}

instance : Heap.Permits Heap.Offers :=
  ⟨fun h => ⟨#[], by rw [h.chunks, Array.append_empty], by simp⟩⟩

/-- Whatever is remembered for a machine is where its table has the global. -/
def Heap.Recalls (h : Heap) (tables : VmId → Globals) : Prop :=
  ∀ id chunk constant slot, (h.chunk chunk).slotCache.get? constant id = some slot →
    ∃ name, (h.chunk chunk).constants[constant]? = some (.string name) ∧
      (tables id).place? name = some slot

namespace Heap.Recalls

variable {h h' : Heap} {tables : VmId → Globals}

theorem of_chunks (hr : h.Recalls tables) (hc : h'.chunks = h.chunks) : h'.Recalls tables := by
  have hchunk : h'.chunk = h.chunk := by
    funext id
    rw [Heap.chunk, Heap.chunk, hc]
  unfold Heap.Recalls
  rw [hchunk]
  exact hr

/-- **What is remembered stays right** while a table grows. -/
theorem grow {id : VmId} {g g' : Globals} (hr : h.Recalls (Function.update tables id g))
    (hg : ∀ name slot, g.place? name = some slot → g'.place? name = some slot) :
    h.Recalls (Function.update tables id g') := by
  intro id' chunk constant slot hs
  obtain ⟨name, hname, hslot⟩ := hr id' chunk constant slot hs
  refine ⟨name, hname, ?_⟩
  by_cases hid : id' = id
  · subst hid
    rw [Function.update_self] at hslot ⊢
    exact hg name slot hslot
  · rw [Function.update_of_ne hid] at hslot ⊢
    exact hslot

theorem offers (hr : h.Recalls tables) (ho : h.Offers h') : h'.Recalls tables := by
  obtain ⟨fresh, hchunks, hblank⟩ := ho
  intro id chunk constant slot hs
  by_cases hlt : chunk < h.chunks.size
  · have hchunk : h'.chunk chunk = h.chunk chunk := by
      rw [Heap.chunk, Heap.chunk, hchunks, Array.getD_eq_getD_getElem?, Array.getD_eq_getD_getElem?,
        Array.getElem?_append_left hlt]
    rw [hchunk] at hs ⊢
    exact hr id chunk constant slot hs
  · -- Nothing is remembered in new code.
    have hnone : (h'.chunk chunk).slotCache = {} := by
      rw [Heap.chunk, hchunks, Array.getD_eq_getD_getElem?,
        Array.getElem?_append_right (Nat.le_of_not_lt hlt)]
      cases hnew : fresh[chunk - h.chunks.size]? with
      | none => rfl
      | some c => exact hblank c (Array.mem_of_getElem? hnew)
    rw [hnone] at hs
    cases hs

theorem remember (hr : h.Recalls tables) {chunk : ChunkId} {constant slot : Nat} {name : String}
    {vm : VmId} (hc : (h.chunk chunk).constants[constant]? = some (.string name))
    (hs : (tables vm).place? name = some slot) :
    (h.rememberSlot chunk constant vm slot).Recalls tables := by
  have hlt : chunk < h.chunks.size := by
    refine Nat.lt_of_not_le fun hle => ?_
    rw [Heap.chunk, Array.getD_eq_getD_getElem?, Array.getElem?_eq_none hle] at hc
    cases hc
  intro id' chunk' constant' slot' hs'
  rw [Heap.chunk_rememberSlot hlt] at hs' ⊢
  split at hs'
  · rename_i heq
    subst heq
    rw [SlotCache.get?_insert_ite] at hs'
    rw [if_pos rfl]
    split at hs'
    · rename_i heq
      subst heq
      split at hs'
      · rename_i heq
        subst heq
        cases hs'
        exact ⟨name, hc, hs⟩
      · cases hs'
    · exact hr id' chunk constant' slot' hs'
  · rename_i hne
    rw [if_neg hne]
    exact hr id' chunk' constant' slot' hs'

end Heap.Recalls

/-! ## Machines on shared code -/

/-- While a machine is in use, what is remembered for the others stays as it is. -/
theorem stable_recalls (tables : VmId → Globals) (id : VmId) :
    Stable Heap.Offers fun h v => v.id = id ∧ v.globals.Lawful ∧
      h.Recalls (Function.update tables id v.globals) where
  quiet hp hc hv := by
    obtain ⟨hid, hlawful, hr⟩ := hp
    rw [hv.globals]
    exact ⟨hv.id.trans hid, hlawful, hr.of_chunks hc⟩
  heap hp hh := ⟨hp.1, hp.2.1, hp.2.2.offers hh⟩
  remember hp hc hs := by
    obtain ⟨hid, hlawful, hr⟩ := hp
    refine ⟨hid, hlawful, hr.remember hc ?_⟩
    rw [hid, Function.update_self]
    exact hs
  bind {h v} hp name x := by
    obtain ⟨hid, hlawful, hr⟩ := hp
    rw [v.setGlobal_globals, (v.setGlobal_alike name x).id]
    exact ⟨hid, hlawful.insert name x,
      hr.grow fun name' slot hslot => OrderedMap.place?_insert_mono hslot name x⟩
  look hp _ _ := hp
  warmUp {h v} hp := by
    rw [v.warmUp_globals, v.warmUp_alike.id]
    exact hp

namespace Host

/-- Machines have numbers of their own, and what is remembered for each is right. -/
structure Remembers (w : Host) (tables : VmId → Globals) : Prop where
  distinct {i j : Nat} {vm vm' : Vm} (hi : w.vms[i]? = some vm) (hj : w.vms[j]? = some vm')
    (hid : vm.id = vm'.id) : i = j
  lawful : ∀ vm ∈ w.vms, vm.globals.Lawful
  own : ∀ vm ∈ w.vms, tables vm.id = vm.globals
  /-- Numbers that have not been given out have no table. -/
  strange : ∀ id, (∀ vm ∈ w.vms, vm.id ≠ id) → tables id = .empty
  recalls : w.heap.Recalls tables

variable {w w' : Host} {tables : VmId → Globals}

/-- **What is remembered for a machine in use is right, and so is what is remembered for the
others.** -/
theorem Remembers.uses (hw : w.Remembers tables) (ht : ∀ f ∈ w.functions, f.Respects Heap.Offers)
    {i : Nat} {vm : Vm} (hi : w.vms[i]? = some vm) {m : Machine}
    (hm : (w.machine i).Uses Heap.Offers m) : m.vm.id = vm.id ∧ m.vm.globals.Lawful ∧
      m.heap.Recalls (Function.update tables vm.id m.vm.globals) := by
  have hvm : (w.machine i).vm = vm := by
    obtain ⟨hlt, rfl⟩ := Array.getElem?_eq_some_iff.mp hi
    exact machine_vm hlt
  have hmem : vm ∈ w.vms := Array.mem_of_getElem? hi
  refine (hm.keeps (stable_recalls tables vm.id) ht ?_).2
  rw [hvm]
  refine ⟨rfl, hw.lawful vm hmem, ?_⟩
  rw [Function.update_eq_self_iff.mpr (hw.own vm hmem).symm]
  exact hw.recalls

/-- A further machine is one for which nothing has been remembered yet. -/
theorem Remembers.make (hw : w.Remembers tables) {id : VmId} (hid : ∀ vm ∈ w.vms, vm.id ≠ id)
    {m : Machine} (hm : m.vm.id = id) (hlawful : m.vm.globals.Lawful)
    (hc : m.heap.chunks = w.heap.chunks) :
    Remembers { functions := m.hosts, heap := m.heap, vms := w.vms.push m.vm }
      (Function.update tables id m.vm.globals) where
  distinct {i j vm vm'} hi hj heq := by
    have hold : ∀ (k : Nat) (vm : Vm), w.vms[k]? = some vm → vm.id ≠ id :=
      fun k vm hk => hid vm (Array.mem_of_getElem? hk)
    dsimp only at hi hj
    rw [Array.getElem?_push] at hi hj
    grind [hw.distinct]
  lawful vm hvm := by
    rcases Array.mem_push.mp hvm with hvm | rfl
    · exact hw.lawful vm hvm
    · exact hlawful
  own vm hvm := by
    rcases Array.mem_push.mp hvm with hvm | rfl
    · rw [Function.update_of_ne (hid vm hvm)]
      exact hw.own vm hvm
    · rw [hm, Function.update_self]
  strange id' hid' := by
    have hne : id' ≠ id := fun heq => hid' m.vm (Array.mem_push_self) (hm.trans heq.symm)
    rw [Function.update_of_ne hne]
    exact hw.strange id' fun vm hvm => hid' vm (Array.mem_push.mpr (.inl hvm))
  recalls := by
    have hnone : w.heap.Recalls (Function.update tables id .empty) := by
      rw [Function.update_eq_self_iff.mpr (hw.strange id hid).symm]
      exact hw.recalls
    exact (hnone.of_chunks hc).grow fun name slot hslot => by simp [OrderedMap.empty,
      OrderedMap.place?] at hslot

/-- The other machines are left where they are. -/
theorem put_getElem? {i j : Nat} {vm vm' : Vm} (hi : w.vms[i]? = some vm) {m : Machine} :
    (w.put i m).vms[j]? = some vm' ↔ j = i ∧ vm' = m.vm ∨ j ≠ i ∧ w.vms[j]? = some vm' := by
  obtain ⟨hlt, -⟩ := Array.getElem?_eq_some_iff.mp hi
  unfold Host.put
  dsimp only
  rw [Array.getElem?_setIfInBounds, if_pos hlt]
  split <;> simp_all [eq_comm]

/-- A machine that has been in use is put back. -/
theorem Remembers.put (hw : w.Remembers tables) {i : Nat} {vm : Vm} (hi : w.vms[i]? = some vm)
    {m : Machine} (hm : m.vm.id = vm.id) (hlawful : m.vm.globals.Lawful)
    (hr : m.heap.Recalls (Function.update tables vm.id m.vm.globals)) :
    (w.put i m).Remembers (Function.update tables vm.id m.vm.globals) where
  distinct {j k vm₁ vm₂} hj hk heq := by
    rcases (put_getElem? hi).mp hj with ⟨rfl, rfl⟩ | ⟨-, hj'⟩ <;>
      rcases (put_getElem? hi).mp hk with ⟨rfl, rfl⟩ | ⟨-, hk'⟩
    · rfl
    · exact hw.distinct hi hk' (hm ▸ heq)
    · exact hw.distinct hj' hi (hm ▸ heq)
    · exact hw.distinct hj' hk' heq
  lawful vm' hvm := by
    rcases Array.mem_or_eq_of_mem_setIfInBounds hvm with hvm | rfl
    · exact hw.lawful vm' hvm
    · exact hlawful
  own vm' hvm := by
    obtain ⟨j, hj⟩ := Array.mem_iff_getElem?.mp hvm
    rcases (put_getElem? hi).mp hj with ⟨rfl, rfl⟩ | ⟨hne, hj⟩
    · rw [hm, Function.update_self]
    · rw [Function.update_of_ne fun heq => hne (hw.distinct hj hi heq)]
      exact hw.own vm' (Array.mem_of_getElem? hj)
  -- An identity that no machine has after the write had none before it, for the write keeps the
  -- identity it replaces.
  strange id hid := by
    have hput : ∀ (j : Nat) vm', (w.put i m).vms[j]? = some vm' → vm'.id ≠ id :=
      fun j vm' hj => hid vm' (Array.mem_of_getElem? hj)
    have hne : vm.id ≠ id := hm ▸ hput i m.vm ((put_getElem? hi).mpr (.inl ⟨rfl, rfl⟩))
    rw [Function.update_of_ne hne.symm]
    refine hw.strange id fun vm' hvm => ?_
    obtain ⟨j, hj⟩ := Array.mem_iff_getElem?.mp hvm
    by_cases heq : j = i
    · subst heq
      rw [hi] at hj
      exact Option.some.inj hj ▸ hne
    · exact hput j vm' ((put_getElem? hi).mpr (.inr ⟨heq, hj⟩))
  recalls := hr

theorem Step.remembers (hs : Step Heap.Offers w w')
    (ht : ∀ f ∈ w.functions, f.Respects Heap.Offers) (hw : w.Remembers tables) :
    ∃ tables', w'.Remembers tables' := by
  cases hs with
  | @make id hid config dice m hm =>
    subst hm
    refine ⟨_, hw.make hid rfl (Machine.create_lawful _ _ _ _ _) ?_⟩
    rw [Machine.create_heap]
  | heap hh => exact ⟨tables, { hw with recalls := hw.recalls.offers hh }⟩
  | @use i hi m hm hr =>
    have hvm := Array.getElem?_eq_getElem hi
    obtain ⟨hid, hlawful, hrecalls⟩ := hw.uses ht hvm hm
    exact ⟨_, hw.put hvm hid hlawful hrecalls⟩

/-- **Whatever happens in a host, what is remembered is right.** -/
theorem Reached.remembers (h : Reached Heap.Offers w) : ∃ tables, w.Remembers tables := by
  induction h with
  | refl =>
    refine ⟨fun _ => .empty, ?_, by simp, by simp, fun _ _ => rfl, ?_⟩
    · intro i j vm vm' hi
      simp at hi
    · intro id chunk constant slot hs
      simp [Heap.chunk, SlotCache.get?] at hs
  | tail h hs ih =>
    obtain ⟨tables, hw⟩ := ih
    exact hs.remembers (Reached.functions h) hw

end Host

/-! ## Reading a global -/

namespace Exec

variable {s : Turn} {f : Frame} {fs : List Frame} {constant : Nat} {name : String}
  {tables : VmId → Globals}

/-- The place of a global is found where the machine's own table has it. -/
theorem globalSlot_apply (hr : s.heap.Recalls tables) (hown : tables s.vm.id = s.vm.globals)
    (hf : s.task.frames = f :: fs)
    (hn : (s.heap.chunk f.chunk).constants[constant]? = some (.string name)) :
    match s.vm.globals.place? name with
    | some slot => ∃ heap, globalSlot constant s = .ok slot { s with heap }
    | none => globalSlot constant s = .error (.raised (.undefinedVariable name)) s := by
  have hframe : frame s = .ok f s := by
    rw [frame, get_bind_apply, Task.frame, hf]
    rfl
  unfold globalSlot
  rw [get_bind_apply, bind_ok hframe]
  cases hslot : (s.heap.chunk f.chunk).slotCache.get? constant s.vm.id with
  | some slot =>
    -- What is remembered is what is in the table.
    obtain ⟨name', hname, hplace⟩ := hr s.vm.id f.chunk constant slot hslot
    rw [hn] at hname
    cases hname
    rw [hown] at hplace
    rw [hplace]
    exact ⟨s.heap, rfl⟩
  | none =>
    dsimp only
    rw [hn]
    dsimp only
    cases hplace : s.vm.globals.place? name with
    | some slot => exact ⟨_, rfl⟩
    | none => rfl

end Exec

/-- The instruction finds the place of the global and pushes what is there. -/
theorem Machine.Executes.getGlobal_eq {m : Machine} {task : Task} {s s₁ : Turn} {constant : Nat}
    (he : m.Executes task .getGlobal s) (hread : readWord s = .ok constant s₁) :
    instruction (m.turn task) = (globalSlot constant >>= fun slot => get >>= fun s =>
      push ((s.vm.globals.at? slot).getD .nil) >>= fun _ => pure Flow.next) s₁ := by
  rw [he.instruction_eq]
  unfold execute
  dsimp only
  rw [bind_ok hread]

/-- **Reading a global gives what the machine's own table has under its name at the moment**,
whatever is remembered, and an error if it has nothing. -/
theorem Host.Reached.globals_current {w : Host} (hw : Reached Heap.Offers w) {i : Nat}
    (hi : i < w.vms.size) {m : Machine} (hm : (w.machine i).Uses Heap.Offers m) {task : Task}
    {s s₁ : Turn} {f : Frame} {fs : List Frame} {constant : Nat} {name : String}
    (he : m.Executes task .getGlobal s) (hread : readWord s = .ok constant s₁)
    (hf : task.frames = f :: fs)
    (hn : (m.heap.chunk f.chunk).constants[constant]? = some (.string name)) :
    match m.vm.globals.get? name with
    | some v => ∃ s', instruction (m.turn task) = .ok .next s' ∧ s'.task = s₁.task.push v ∧
        s'.vm.globals = m.vm.globals
    | none => ∃ s', instruction (m.turn task) = .error (.raised (.undefinedVariable name)) s' ∧
        s'.task = s₁.task ∧ s'.vm.globals = m.vm.globals := by
  obtain ⟨tables, hremembers⟩ := Reached.remembers hw
  obtain ⟨hid, hlawful, hrecalls⟩ :=
    hremembers.uses (Reached.functions hw) (Array.getElem?_eq_getElem hi) hm
  have hscans : (m.turn task).Scans s₁ := he.scans.trans (scans_readWord hread)
  have hglobals : s₁.vm.globals = m.vm.globals := hscans.names.globals
  have hheap : s₁.heap = m.heap := hscans.heap
  obtain ⟨ip, hf₁⟩ := hscans.frames hf
  -- What the cached slot is worth comes from the table remembered for the machine's own identity,
  -- whichever machine filled the cache.
  have hslot := globalSlot_apply (hheap ▸ hrecalls) (by
    rw [hscans.names.id, hglobals]
    exact hid ▸ Function.update_self _ _ _) hf₁ (by rwa [hheap])
  rw [hglobals] at hslot
  rw [he.getGlobal_eq hread]
  cases hplace : m.vm.globals.place? name with
  | some slot =>
    rw [hplace] at hslot
    obtain ⟨heap, hslot⟩ := hslot
    obtain ⟨v, hv⟩ := hlawful.at? hplace
    rw [OrderedMap.get?_eq hplace, hv, bind_ok hslot, get_bind_apply]
    refine ⟨_, rfl, ?_, hglobals⟩
    show s₁.task.push ((s₁.vm.globals.at? slot).getD .nil) = _
    rw [hglobals, hv]
    rfl
  | none =>
    rw [hplace] at hslot
    rw [show m.vm.globals.get? name = none by rw [OrderedMap.get?, hplace]; rfl]
    exact ⟨s₁, bind_error hslot, rfl, hglobals⟩

/-- Code that reads a global. -/
def naming : Heap where
  chunks := #[{
    code := Machine.assemble [(.getGlobal, [0, 0]), (.ret, [])]
    constants := #[.string "x"] }]

namespace Machine

/-- The global is bound and the code loaded. -/
def inform (m : Machine) (v : Value) : Machine := ((m.define "x" v).load 0).2

/-- The code has run. -/
def ran (m : Machine) : Machine :=
  match m.run (none : Option (Hook Unit)) 4 () with
  | some (_, m, _) => m
  | none => m

theorem inform_uses {K : Heap → Heap → Prop} {m : Machine} (hr : m.running = none) (v : Value) :
    m.Uses K (m.inform v) :=
  have hidle : (m.define "x" v).running = none := hr
  (ReflTransGen.single (.define "x" v)).tail (.load hidle 0)

theorem ran_uses {K : Heap → Heap → Prop} (m : Machine) : m.Uses K m.ran := by
  unfold ran
  split
  · exact run_uses ‹_›
  · exact .refl

end Machine

/-- Two machines on that code. -/
def pair : Host := (({ heap := naming } : Host).add {}).add {}

/-- The first has run it. -/
def pairOnce : Host := pair.put 0 ((pair.machine 0).inform (.string "old")).ran

/-- The second has run it, and it has the global in another place. -/
def pairTwice : Host :=
  pairOnce.put 1 (((pairOnce.machine 1).define "y" .nil).inform (.string "other")).ran

theorem pairTwice_reached : Host.Reached Heap.Offers pairTwice ∧ pairTwice.vms.size = 2 := by
  have hnaming : Heap.Offers {} naming := ⟨naming.chunks, by simp, by simp [naming]⟩
  have hpair : Host.Reached Heap.Offers pair :=
    ((ReflTransGen.single (.heap hnaming)).tail (Host.step_add (by simp) {} {})).tail
      (Host.step_add (by decide +kernel) {} {})
  have hsize : pair.vms.size = 2 := rfl
  have hidle : ((pair.machine 0).inform (.string "old")).ran.running = none := by
    exact Option.isNone_iff_eq_none.mp (by decide +kernel)
  have honce : Host.Reached Heap.Offers pairOnce :=
    hpair.tail (.use (by omega) ((Machine.inform_uses rfl _).trans (Machine.ran_uses _)) hidle)
  have hsize₁ : pairOnce.vms.size = 2 := by simp [pairOnce, Host.put, hsize]
  have hidle₁ : (((pairOnce.machine 1).define "y" .nil).inform (.string "other")).ran.running =
      none := by
    exact Option.isNone_iff_eq_none.mp (by decide +kernel)
  refine ⟨honce.tail (.use (by omega) (.trans ?_ (Machine.ran_uses _)) hidle₁), ?_⟩
  · exact (ReflTransGen.single (.define "y" .nil)).trans (Machine.inform_uses rfl _)
  · simp [pairTwice, Host.put, hsize₁]

/-- What is remembered is now the place where the second has the global, and the first finds what it
has been given since. -/
theorem pairTwice_global : ∃ m task s', Host.Reached Heap.Offers pairTwice ∧
    0 < pairTwice.vms.size ∧ (pairTwice.machine 0).Uses Heap.Offers m ∧
    (m.heap.chunk 0).slotCache.slots = #[some (1, 42)] ∧ m.vm.globals.place? "x" = some 41 ∧
    instruction (m.turn task) = .ok .next s' ∧ s'.task.stack = #[.string "new"] := by
  have hrun : (((pairTwice.machine 0).inform (.string "new")).vm.warmedUp &&
      let m := ((pairTwice.machine 0).inform (.string "new")).tick.machine
      (m.heap.chunk 0).slotCache.slots == #[some (1, 42)] &&
      m.vm.globals.place? "x" == some 41 &&
      (m.heap.chunk 0).constants == #[.string "x"] &&
      m.vm.globals.get? "x" == some (.string "new") &&
      m.opcode?.any fun x => x.2.1 == .getGlobal && x.1.stack == #[] &&
        (x.1.frames.head?.any fun f => f.chunk == 0) &&
        passes readWord x.2.2 fun constant _ => constant == 0) = true := by
    decide +kernel
  simp only [Bool.and_eq_true, beq_iff_eq] at hrun
  obtain ⟨hwarm, ⟨⟨⟨hcache, hplace⟩, hconstants⟩, hglobal⟩, hop⟩ := hrun
  obtain ⟨hreached, hsize⟩ := pairTwice_reached
  have hsome : 0 < pairTwice.vms.size := by omega
  have hused : (pairTwice.machine 0).Uses Heap.Offers
      ((pairTwice.machine 0).inform (.string "new")).tick.machine :=
    (Machine.inform_uses rfl _).tail (.tick hwarm)
  -- The machine is a long term by now; what was read off it is enough.
  generalize ((pairTwice.machine 0).inform (.string "new")).tick.machine = m at *
  obtain ⟨⟨task, op, s⟩, hop, hx⟩ := (Option.any_eq_true _ _).mp hop
  simp only [Bool.and_eq_true, beq_iff_eq] at hx
  obtain ⟨⟨⟨rfl, hstack⟩, hhead⟩, hread⟩ := hx
  obtain ⟨f, hf, hchunk⟩ := (Option.any_eq_true _ _).mp hhead
  obtain ⟨fs, hframes⟩ := List.head?_eq_some_iff.mp hf
  obtain ⟨constant, s₁, hword, hread⟩ := of_passes hread
  have hexecutes := Machine.executes_of_opcode? hop
  have hname : (m.heap.chunk f.chunk).constants[constant]? = some (.string "x") := by
    rw [beq_iff_eq.mp hchunk, beq_iff_eq.mp hread, hconstants]
    rfl
  have hvalue := Host.Reached.globals_current hreached hsome hused hexecutes hword hframes hname
  rw [hglobal] at hvalue
  obtain ⟨s', hs', htask, -⟩ := hvalue
  refine ⟨m, task, s', hreached, hsome, hused, hcache, hplace, hs', ?_⟩
  have hscans := hexecutes.scans.trans (scans_readWord hword)
  rw [htask, Task.push]
  show s₁.task.stack.push _ = _
  rw [hscans.stack, show (m.turn task).task.stack = #[] from hstack]
  rfl

end TaskVm
