import TaskVm.Proofs.Executing
import TaskVm.Proofs.Methods
import TaskVm.Proofs.SlotMemory
import TaskVm.Proofs.Texts

/-!
# Machines in other guises

A machine in another guise has other numbers for its tasks, and remembers other things: where
its code has found globals, which natives its globals are, what has been counted, and what has
been put on record. This module shows that computations do the same in every guise, as long as
they turn no task into text, and that what is remembered, where it is right, makes no
difference.
-/

namespace TaskVm

open Exec

/-- Binding a global changes nothing but the table of globals and that of natives. -/
theorem Vm.setGlobal_eq (v : Vm) (name : String) (x : Value) : v.setGlobal name x =
    { v with globals := v.globals.insert name x, natives := (v.setGlobal name x).natives } := by
  unfold Vm.setGlobal
  extract_lets isNative wasNative v'
  split <;> rfl

/-! ## Guises -/

/-- What a machine remembers to be faster: in the code where globals are, and the natives among
its globals. -/
structure Memory where
  chunks : Array Chunk
  id : VmId
  natives : NativeCache
  warmedUp : Bool

/-- What is remembered is right for some globals. -/
structure Memory.Sound (m : Memory) (globals : Globals) : Prop where
  coherent : Vm.Coherent {
    id := m.id, sink := 0, globals, natives := m.natives, warmedUp := m.warmedUp }
  warm : m.warmedUp = true
  recalls : ∃ tables, Heap.Recalls { chunks := m.chunks } (Function.update tables m.id globals)

namespace Memory.Sound

variable {m : Memory} {globals : Globals}

theorem slot (hm : m.Sound globals) {chunk : ChunkId} {constant slot : Nat}
    (hs : (m.chunks.getD chunk {}).slotCache.get? constant m.id = some slot) :
    ∃ name, (m.chunks.getD chunk {}).constants[constant]? = some (.string name) ∧
      globals.place? name = some slot := by
  obtain ⟨tables, hr⟩ := hm.recalls
  obtain ⟨name, hname, hplace⟩ := hr m.id chunk constant slot hs
  rw [Function.update_self] at hplace
  exact ⟨name, hname, hplace⟩

theorem remember (hm : m.Sound globals) {h : Heap} (hh : h.chunks = m.chunks) {chunk : ChunkId}
    {constant slot : Nat} {name : String}
    (hc : (h.chunk chunk).constants[constant]? = some (.string name))
    (hs : globals.place? name = some slot) :
    Memory.Sound { m with chunks := (h.rememberSlot chunk constant m.id slot).chunks } globals := by
  obtain ⟨tables, hr⟩ := hm.recalls
  have hown : (Function.update tables m.id globals m.id).place? name = some slot := by
    rwa [Function.update_self]
  exact ⟨hm.coherent, hm.warm, tables, ((hr.of_chunks hh).remember hc hown).of_chunks rfl⟩

theorem append (hm : m.Sound globals) {fresh : Array Chunk}
    (hblank : ∀ c ∈ fresh, c.slotCache = {}) :
    Memory.Sound { m with chunks := m.chunks ++ fresh } globals := by
  obtain ⟨tables, hr⟩ := hm.recalls
  exact ⟨hm.coherent, hm.warm, tables, hr.offers ⟨fresh, rfl, hblank⟩⟩

theorem look (hm : m.Sound globals) (name : String) :
    Memory.Sound { m with natives := (m.natives.lookup globals name).2 } globals :=
  ⟨hm.coherent.look hm.warm name, hm.warm, hm.recalls⟩

/-- What is remembered about a machine's globals stays right when one of them is bound. -/
theorem bind {v : Vm} {chunks : Array Chunk}
    (hm : Memory.Sound ⟨chunks, v.id, v.natives, v.warmedUp⟩ v.globals) (name : String)
    (x : Value) :
    Memory.Sound ⟨chunks, v.id, (v.setGlobal name x).natives, v.warmedUp⟩
      (v.globals.insert name x) := by
  obtain ⟨tables, hr⟩ := hm.recalls
  have hv : v.Coherent := hm.coherent.of_same ⟨rfl, rfl, rfl, rfl⟩
  have hwarm := (v.setGlobal_natives name x).1
  refine ⟨(hv.bind name x).of_same ⟨(v.setGlobal_alike name x).id.symm,
    (v.setGlobal_globals name x).symm, rfl, hwarm.symm⟩, hm.warm, tables, ?_⟩
  exact hr.grow fun name' slot hslot => OrderedMap.place?_insert_mono hslot name x

end Memory.Sound

/-- What can be different in a machine that does the same, numbers of tasks apart. -/
structure Guise where
  memory : Memory
  profiler : Profiler := {}
  sourceName : String := ""
  events : List Event := []
  acts : List Act := []
  tidy : Bool := true
  touched : List Touch := []

def Vm.guise (ρ : TaskId → TaskId) (g : Guise) (v : Vm) : Vm :=
  { v with
    id := g.memory.id
    natives := g.memory.natives
    warmedUp := g.memory.warmedUp
    scheduler := v.scheduler.renumber ρ
    main := v.main.map ρ
    handles := rekey ρ (fun handle => handle) v.handles
    profiler := g.profiler
    sourceName := g.sourceName }

def Turn.guise (ρ : TaskId → TaskId) (g : Guise) (s : Turn) : Turn where
  hosts := s.hosts
  heap := s.heap.guise ρ g.memory.chunks
  vm := s.vm.guise ρ g
  task := s.task.renumber ρ
  events := g.events
  acts := g.acts
  tidy := g.tidy
  touched := g.touched

def Turn.memory (s : Turn) : Memory := ⟨s.heap.chunks, s.vm.id, s.vm.natives, s.vm.warmedUp⟩

/-- What two machines remember is about the same code and right for the same globals, and the
numbers that are still to be given out follow each other in both. -/
structure Suits (ρ : TaskId → TaskId) (m m' : Memory) (globals : Globals) (nextId : TaskId) :
    Prop where
  code : SameCode m'.chunks m.chunks
  mine : m.Sound globals
  other : m'.Sound globals
  next : ∀ k, nextId ≤ k → ρ (k + 1) = ρ k + 1

/-- The guise is one for a turn in this state. -/
def Guise.Fits (ρ : TaskId → TaskId) (g : Guise) (s : Turn) : Prop :=
  Suits ρ s.memory g.memory s.vm.globals s.vm.scheduler.nextId

theorem Guise.Fits.of_chunks {ρ : TaskId → TaskId} {g : Guise} {s : Turn} (hg : g.Fits ρ s)
    {h : Heap} (hc : h.chunks = s.heap.chunks) : g.Fits ρ { s with heap := h } := by
  unfold Guise.Fits Turn.memory at hg ⊢
  dsimp only
  rw [hc]
  exact hg

/-! ## Computations -/

namespace Exec

variable {α β γ δ : Type} {ρ : TaskId → TaskId} {s : Turn}

/-- Two computations have come to the same, up to the guise. -/
inductive Answers (ρ : TaskId → TaskId) (Q : α → β → Prop) :
    EStateM.Result Fault Turn α → EStateM.Result Fault Turn β → Prop where
  | ok {a : α} {b : β} {s : Turn} {g : Guise} (hq : Q a b) (hg : g.Fits ρ s) :
      Answers ρ Q (.ok a s) (.ok b (s.guise ρ g))
  | error {e : Fault} {s : Turn} {g : Guise} (hg : g.Fits ρ s) :
      Answers ρ Q (.error e s) (.error e (s.guise ρ g))

/-- From a state, and from the same state in any guise, two computations come to the same. -/
def EchoesAt (ρ : TaskId → TaskId) (Q : α → β → Prop) (x : Exec α) (y : Exec β) (s : Turn) :
    Prop := ∀ g : Guise, g.Fits ρ s → Answers ρ Q (x s) (y (s.guise ρ g))

def Echoes (ρ : TaskId → TaskId) (Q : α → β → Prop) (x : Exec α) (y : Exec β) : Prop :=
  ∀ s, EchoesAt ρ Q x y s

/-- A computation does the same in every guise. -/
abbrev Echo (ρ : TaskId → TaskId) (x : Exec α) : Prop := Echoes ρ (· = ·) x x

section

variable {Q : α → β → Prop} {Q' : γ → δ → Prop}

theorem Answers.ok_of_eq {a : α} {b : β} {s t : Turn} {g : Guise} (hq : Q a b)
    (hg : g.Fits ρ s) (ht : t = s.guise ρ g) : Answers ρ Q (.ok a s) (.ok b t) := by
  rw [ht]
  exact .ok hq hg

theorem Answers.error_of_eq {e : Fault} {s t : Turn} {g : Guise} (hg : g.Fits ρ s)
    (ht : t = s.guise ρ g) : Answers ρ Q (.error e s) (.error e t) := by
  rw [ht]
  exact .error hg

theorem echoes_pure {a : α} {b : β} (hq : Q a b) : Echoes ρ Q (pure a) (pure b) :=
  fun _ _ hg => .ok hq hg

theorem echoes_throw (e : Fault) : Echoes ρ Q (throw e) (throw e) := fun _ _ hg => .error hg

theorem echoes_raise (e : RuntimeError) : Echoes ρ Q (raise e) (raise e) :=
  echoes_throw (.raised e)

theorem echoesAt_bind {x : Exec α} {y : Exec β} {f : α → Exec γ} {f' : β → Exec δ}
    (hx : EchoesAt ρ Q x y s)
    (hf : ∀ a b s', x s = .ok a s' → Q a b → EchoesAt ρ Q' (f a) (f' b) s') :
    EchoesAt ρ Q' (x >>= f) (y >>= f') s := by
  intro g hg
  have hanswers := hx g hg
  generalize hy : y (s.guise ρ g) = r at hanswers
  cases hs : x s with
  | ok a s' =>
    rw [hs] at hanswers
    cases hanswers with
    | ok hq hg' =>
      rw [bind_ok hs, bind_ok hy]
      exact hf a _ s' hs hq _ hg'
  | error e s' =>
    rw [hs] at hanswers
    cases hanswers with
    | error hg' =>
      rw [bind_error hs, bind_error hy]
      exact .error hg'

theorem echoes_bind {x : Exec α} {y : Exec β} {f : α → Exec γ} {f' : β → Exec δ}
    (hx : Echoes ρ Q x y) (hf : ∀ a b, Q a b → Echoes ρ Q' (f a) (f' b)) :
    Echoes ρ Q' (x >>= f) (y >>= f') :=
  fun s => echoesAt_bind (hx s) fun a b s' _ hq => hf a b hq s'

/-- The same computation first, in both. -/
theorem echo_bind {x : Exec α} {f : α → Exec γ} {f' : α → Exec δ} (hx : Echo ρ x)
    (hf : ∀ a, Echoes ρ Q' (f a) (f' a)) : Echoes ρ Q' (x >>= f) (x >>= f') :=
  echoes_bind hx fun a _ hq => hq ▸ hf a

theorem echoesAt_get_bind {f : Turn → Exec α} {f' : Turn → Exec β}
    (hf : ∀ g : Guise, g.Fits ρ s → EchoesAt ρ Q (f s) (f' (s.guise ρ g)) s) :
    EchoesAt ρ Q (get >>= f) (get >>= f') s := by
  intro g hg
  rw [get_bind_apply, get_bind_apply]
  exact hf g hg g hg

theorem echoes_get_bind {f : Turn → Exec α} {f' : Turn → Exec β}
    (hf : ∀ (s : Turn) (g : Guise), g.Fits ρ s → Echoes ρ Q (f s) (f' (s.guise ρ g))) :
    Echoes ρ Q (get >>= f) (get >>= f') :=
  fun s => echoesAt_get_bind fun g hg => hf s g hg s

end

theorem echo_pure (a : α) : Echo ρ (pure a) := echoes_pure rfl

/-- Looking at the state, at something that is the same in every guise. -/
theorem echo_get_bind {f : Turn → Exec α} (he : ∀ s g, f (s.guise ρ g) = f s)
    (hf : ∀ s, Echo ρ (f s)) : Echo ρ (get >>= f) :=
  echoes_get_bind fun s g _ => (he s g).symm ▸ hf s

theorem echo_ofExcept (x : Except RuntimeError α) : Echo ρ (ofExcept x) := by
  cases x with
  | ok a => exact echo_pure a
  | error e => exact echoes_raise e

theorem echoes_modify {f f' : Turn → Turn} (hf : ∀ (s : Turn) (g : Guise), g.Fits ρ s →
      ∃ g' : Guise, g'.Fits ρ (f s) ∧ f' (s.guise ρ g) = (f s).guise ρ g') :
    Echoes ρ (· = ·) (modify f : Exec PUnit) (modify f' : Exec PUnit) := by
  intro s g hg
  obtain ⟨g', hg', heq⟩ := hf s g hg
  exact .ok_of_eq rfl hg' heq

theorem echo_onTask {f : Task → Except RuntimeError (α × Task)}
    (hf : ∀ t, f (t.renumber ρ) = (f t).map fun r => (r.1, r.2.renumber ρ)) :
    Echo ρ (onTask f) := by
  intro s g hg
  unfold onTask
  rw [show (s.guise ρ g).task = s.task.renumber ρ from rfl, hf]
  cases f s.task with
  | ok r => exact .ok_of_eq rfl hg rfl
  | error e => exact .error hg

theorem echoes_modifyTask {f f' : Task → Task}
    (hf : ∀ t, f' (t.renumber ρ) = (f t).renumber ρ) :
    Echoes ρ (· = ·) (modifyTask f) (modifyTask f') := by
  intro s g hg
  refine .ok_of_eq rfl hg ?_
  rw [show (s.guise ρ g).task = s.task.renumber ρ from rfl, hf]
  rfl

theorem echo_create {f : Heap → α × Heap} (hc : ∀ h, (f h).2.chunks = h.chunks)
    (hf : ∀ h cs, f (h.guise ρ cs) = ((f h).1, (f h).2.guise ρ cs)) : Echo ρ (create f) := by
  intro s g hg
  unfold create
  rw [show (s.guise ρ g).heap = s.heap.guise ρ g.memory.chunks from rfl, hf]
  exact .ok_of_eq rfl (hg.of_chunks (hc s.heap)) rfl

/-! ### Records -/

theorem echoes_emit (e e' : Event) : Echoes ρ (· = ·) (emit e) (emit e') :=
  echoes_modify fun _ g hg => ⟨{ g with events := g.events ++ [e'] }, hg, rfl⟩

theorem echoes_note (a a' : Act) : Echoes ρ (· = ·) (note a) (note a') :=
  echoes_modify fun _ g hg => ⟨{ g with acts := g.acts ++ [a'] }, hg, rfl⟩

theorem echoes_touch (x x' : Touch) : Echoes ρ (· = ·) (touch x) (touch x') :=
  echoes_modify fun _ g hg => ⟨{ g with touched := g.touched ++ [x'] }, hg, rfl⟩

theorem echo_take (height : Nat) : Echo ρ (take height) :=
  echoes_modify fun s g hg => ⟨{ g with
    tidy := g.tidy && s.task.keeps height
    touched := g.touched ++ [.operands s.task.stackBase height] }, hg, rfl⟩

/-! ### Operands -/

theorem echo_push (v : Value) : Echo ρ (push v) := echoes_modifyTask fun _ => rfl

theorem echo_pop : Echo ρ pop := by
  refine echo_bind (echo_onTask fun t => ?_) fun v => ?_
  · unfold Task.pop
    rw [show (t.renumber ρ).stack = t.stack from rfl]
    cases t.stack.back? <;> rfl
  · refine echoes_get_bind fun s g hg => ?_
    exact echo_bind (echo_take _) fun _ => echo_pure v

theorem echo_peek : Echo ρ peek := echoes_get_bind fun _ _ _ => echo_ofExcept _

theorem echo_popMany (n : Nat) : Echo ρ (popMany n) := by
  refine echo_bind (echo_onTask fun t => ?_) fun vs => ?_
  · unfold Task.popMany
    rw [show (t.renumber ρ).stack = t.stack from rfl]
    split <;> rfl
  · refine echoes_get_bind fun s g hg => ?_
    exact echo_bind (echo_take _) fun _ => echo_pure vs

theorem echo_frame : Echo ρ frame := echoes_get_bind fun _ _ _ => echo_ofExcept _

theorem echo_invalid (reason : String) : Echo ρ (invalid reason : Exec α) :=
  echoes_get_bind fun _ _ _ => echoes_raise _

end Exec

namespace Frame

variable {ρ : TaskId → TaskId} {h : Heap} {cs : Array Chunk} (hcs : SameCode cs h.chunks)
  (f : Frame)

include hcs

theorem code_guise : f.code (h.guise ρ cs) = f.code h := Heap.code_guise hcs f.chunk

theorem readByte_guise : f.readByte (h.guise ρ cs) = f.readByte h := by
  rw [readByte, readByte, f.code_guise hcs]

theorem jumpTarget?_guise (offset : Int) :
    f.jumpTarget? (h.guise ρ cs) offset = f.jumpTarget? h offset := by
  rw [jumpTarget?, jumpTarget?, f.code_guise hcs]

theorem jump_guise (offset : Int) : f.jump (h.guise ρ cs) offset = f.jump h offset := by
  rw [jump, jump, f.jumpTarget?_guise hcs]

theorem constant_guise (index : Nat) :
    f.constant (h.guise ρ cs) index = f.constant h index := by
  rw [constant, constant, Heap.constants_guise hcs]

theorem lineAt_guise (offset : Nat) : f.lineAt (h.guise ρ cs) offset = f.lineAt h offset := by
  rw [lineAt, lineAt, Chunk.lineAt, Chunk.lineAt, Heap.lines_guise hcs]

end Frame

theorem Task.trace_guise {ρ : TaskId → TaskId} {h : Heap} {cs : Array Chunk}
    (hcs : SameCode cs h.chunks) (t : Task) :
    (t.renumber ρ).trace (h.guise ρ cs) = t.trace h :=
  List.map_congr_left fun f _ => by rw [f.lineAt_guise hcs]; rfl

namespace Exec

variable {α : Type} {ρ : TaskId → TaskId}

theorem echo_readByte : Echo ρ readByte := by
  refine echo_bind echo_frame fun f => echoes_get_bind fun s g hg => ?_
  rw [show (s.guise ρ g).heap = s.heap.guise ρ g.memory.chunks from rfl, f.readByte_guise hg.code]
  refine echo_bind (echo_ofExcept _) fun r => ?_
  exact echo_bind (echoes_modifyTask fun _ => rfl) fun _ => echo_pure _

theorem echo_readWord : Echo ρ readWord :=
  echo_bind echo_readByte fun _ => echo_bind echo_readByte fun _ => echo_pure _

theorem echo_readOffset : Echo ρ readOffset := echo_bind echo_readWord fun _ => echo_pure _

theorem echo_jump (offset : Int) : Echo ρ (jump offset) := by
  refine echo_bind echo_frame fun f => echoes_get_bind fun s g hg => ?_
  rw [show (s.guise ρ g).heap = s.heap.guise ρ g.memory.chunks from rfl, f.jump_guise hg.code]
  exact echo_bind (echo_ofExcept _) fun _ => echoes_modifyTask fun _ => rfl

theorem echo_constant (index : Nat) : Echo ρ (constant index) := by
  refine echo_bind echo_frame fun f => echoes_get_bind fun s g hg => ?_
  rw [show (s.guise ρ g).heap = s.heap.guise ρ g.memory.chunks from rfl,
    f.constant_guise hg.code]
  exact echo_ofExcept _

theorem echo_readName : Echo ρ readName := by
  refine echo_bind echo_readWord fun w => echo_bind (echo_constant w) fun v => ?_
  split
  · exact echo_pure _
  · exact echo_invalid _

theorem echo_readBytes : ∀ n, Echo ρ (readBytes n)
  | 0 => echo_pure _
  | n + 1 => echo_bind echo_readByte fun _ => echo_bind (echo_readBytes n) fun _ => echo_pure _

theorem echo_localIndex (slot : Nat) : Echo ρ (localIndex slot) := by
  refine echo_bind echo_frame fun f => echoes_get_bind fun s g hg => ?_
  rw [show (s.guise ρ g).task.stack = s.task.stack from rfl]
  split
  · exact echo_pure _
  · exact echo_invalid _

theorem echo_setSlot (index : Nat) (v : Value) : Echo ρ (setSlot index v) :=
  echo_bind (echoes_modifyTask fun _ => rfl) fun _ => echoes_get_bind fun _ _ _ =>
    echoes_note _ _

theorem echo_pushLocal (slot : Nat) : Echo ρ (pushLocal slot) := by
  refine echo_bind (echo_localIndex slot) fun index => echoes_get_bind fun s g hg => ?_
  exact echoes_bind (echoes_note _ _) fun _ _ _ => echo_push _

/-! ### Variables -/

theorem echo_readUpvalue : Echo ρ readUpvalue := by
  refine echo_bind echo_readByte fun index => echo_bind echo_frame fun f => ?_
  refine echoes_get_bind fun s g hg => ?_
  rw [show (s.guise ρ g).heap.closure f.closure = s.heap.closure f.closure from rfl]
  split
  · exact echo_pure _
  · exact echo_invalid _

theorem stackOf_guise (hρ : Renumbers ρ) (s : Turn) (g : Guise) (task : TaskId) :
    stackOf (s.guise ρ g) (ρ task) = stackOf s task := by
  unfold stackOf
  rw [show (s.guise ρ g).task.id = ρ s.task.id from rfl,
    show (s.guise ρ g).vm.scheduler = s.vm.scheduler.renumber ρ from rfl,
    Scheduler.get?_renumber hρ]
  by_cases h : task = s.task.id
  · rw [if_pos h, if_pos (congrArg ρ h)]
    rfl
  · rw [if_neg h, if_neg (mt hρ.eq_iff.mp h)]
    cases s.vm.scheduler.get? task <;> rfl

theorem echo_readCell (hρ : Renumbers ρ) (cell : CellId) : Echo ρ (readCell cell) := by
  refine echoes_get_bind fun s g hg => ?_
  rw [show (s.guise ρ g).heap = s.heap.guise ρ g.memory.chunks from rfl, Heap.cell_guise hρ]
  cases s.heap.cell cell with
  | closed v => exact echoes_bind (echoes_note _ _) fun _ _ _ => echo_pure v
  | onStack task slot =>
    dsimp only [Cell.renumber]
    rw [stackOf_guise hρ]
    exact echoes_bind (echoes_note _ _) fun _ _ _ => echo_pure _

theorem setSlotOf_guise (hρ : Renumbers ρ) (s : Turn) (g : Guise) (task : TaskId) (slot : Nat)
    (v : Value) :
    setSlotOf (ρ task) slot v (s.guise ρ g) = (setSlotOf task slot v s).guise ρ g := by
  unfold setSlotOf
  rw [show (s.guise ρ g).task.id = ρ s.task.id from rfl,
    show (s.guise ρ g).vm.scheduler = s.vm.scheduler.renumber ρ from rfl,
    Scheduler.get?_renumber hρ]
  dsimp only
  by_cases h : task = s.task.id
  · rw [if_pos h, if_pos (congrArg ρ h)]
    rfl
  · rw [if_neg h, if_neg (mt hρ.eq_iff.mp h)]
    cases s.vm.scheduler.get? task with
    | none => rfl
    | some t =>
      let t' : Task := { t with stack := t.stack.setIfInBounds slot v }
      exact congrArg (fun scheduler => { s.guise ρ g with
        vm := { (s.guise ρ g).vm with scheduler } }) (Scheduler.put_renumber hρ t')

theorem setSlotOf_kept (task : TaskId) (slot : Nat) (v : Value) {g : Guise} {s : Turn}
    (hg : g.Fits ρ s) : g.Fits ρ (setSlotOf task slot v s) := by
  unfold setSlotOf
  dsimp only
  split
  · exact hg
  · split <;> exact hg

theorem echo_writeCell (hρ : Renumbers ρ) (cell : CellId) (v : Value) :
    Echo ρ (writeCell cell v) := by
  refine echo_bind (echoes_note _ _) fun _ => echoes_get_bind fun s g hg => ?_
  rw [show (s.guise ρ g).heap = s.heap.guise ρ g.memory.chunks from rfl, Heap.cell_guise hρ]
  cases s.heap.cell cell with
  | closed w =>
    refine echoes_modify fun s g hg => ⟨g, hg, ?_⟩
    exact congrArg (fun heap => { s.guise ρ g with heap }) (Heap.setCell_guise cell v)
  | onStack task slot =>
    refine echoes_bind (echoes_touch _ _) fun _ _ _ => ?_
    exact echoes_modify fun s g hg =>
      ⟨g, setSlotOf_kept task slot v hg, setSlotOf_guise hρ s g task slot v⟩

/-! ### Globals -/

/-- What a name constant of the innermost frame stands for, wherever it is looked up. -/
def slotOf (s : Turn) (f : Frame) (constant : Nat) : Except RuntimeError Nat :=
  match (s.heap.chunk f.chunk).constants[constant]? with
  | some (.string name) =>
    match s.vm.globals.place? name with
    | some slot => .ok slot
    | none => .error (.undefinedVariable name)
  | _ => .error (.invalidBytecode s.task.ip "name operand is not a string constant")

/-- **What is remembered about a global is what would be found**, and a place that has been
looked up may be remembered. -/
theorem globalSlot_eq {s : Turn} (hm : s.memory.Sound s.vm.globals) (constant : Nat) {f : Frame}
    (hf : s.task.frame = .ok f) :
    ∃ chunks, SameCode chunks s.heap.chunks ∧
      Memory.Sound { s.memory with chunks } s.vm.globals ∧
      globalSlot constant s = match slotOf s f constant with
        | .ok slot => .ok slot { s with heap := { s.heap with chunks } }
        | .error e => .error (.raised e) s := by
  have hframe : frame s = .ok f s := by
    rw [frame, get_bind_apply, hf]
    rfl
  unfold globalSlot slotOf
  rw [get_bind_apply, bind_ok hframe]
  dsimp only
  -- A slot that is remembered is the one that a lookup would find.
  cases hs : (s.heap.chunk f.chunk).slotCache.get? constant s.vm.id with
  | some slot =>
    obtain ⟨name, hname, hplace⟩ := hm.slot hs
    have hname' : (s.heap.chunk f.chunk).constants[constant]? = some (.string name) := hname
    rw [hname']
    dsimp only
    rw [hplace]
    exact ⟨s.heap.chunks, rfl, hm, rfl⟩
  | none =>
    dsimp only
    cases hname : (s.heap.chunk f.chunk).constants[constant]? with
    | none => exact ⟨s.heap.chunks, rfl, hm, rfl⟩
    | some v =>
      cases v with
      | string name =>
        dsimp only
        cases hplace : s.vm.globals.place? name with
        | some slot =>
          exact ⟨_, sameCode_rememberSlot .., hm.remember rfl hname hplace, rfl⟩
        | none => exact ⟨s.heap.chunks, rfl, hm, rfl⟩
      | _ => exact ⟨s.heap.chunks, rfl, hm, rfl⟩

theorem echo_globalSlot (constant : Nat) : Echo ρ (globalSlot constant) := by
  intro s g hg
  have hframe : (s.guise ρ g).task.frame = s.task.frame := rfl
  cases hf : s.task.frame with
  | error e =>
    have herror : ∀ s : Turn, s.task.frame = .error e →
        globalSlot constant s = .error (.raised e) s :=
      fun s hf => by
        rw [globalSlot, get_bind_apply]
        refine bind_error ?_
        rw [frame, get_bind_apply, hf]
        rfl
    rw [herror s hf, herror (s.guise ρ g) (hframe.trans hf)]
    exact .error hg
  | ok f =>
    -- What either side remembers after that may differ, and the slot does not.
    obtain ⟨chunks, hcode, hsound, heq⟩ := globalSlot_eq hg.mine constant hf
    obtain ⟨chunks', hcode', hsound', heq'⟩ :=
      globalSlot_eq (s := s.guise ρ g) hg.other constant (hframe.trans hf)
    have hslot : slotOf (s.guise ρ g) f constant = slotOf s f constant := by
      unfold slotOf
      rw [show (s.guise ρ g).heap = s.heap.guise ρ g.memory.chunks from rfl,
        Heap.constants_guise hg.code]
      rfl
    rw [heq, heq', hslot]
    cases slotOf s f constant with
    | error e => exact .error hg
    | ok slot =>
      refine .ok_of_eq (g := { g with memory := { g.memory with chunks := chunks' } }) rfl ?_ rfl
      exact ⟨(hcode'.trans hg.code).trans hcode.symm, hsound, hsound', hg.next⟩

theorem echo_setGlobal (name : String) (v : Value) : Echo ρ (setGlobal name v) := by
  refine echoes_modify fun s g hg => ?_
  let vm' := (s.vm.guise ρ g).setGlobal name v
  let g' : Guise := { g with memory := { g.memory with natives := vm'.natives } }
  have hmine := s.vm.setGlobal_eq name v
  have hother := (s.vm.guise ρ g).setGlobal_eq name v
  refine ⟨g', ?_, ?_⟩
  · unfold Guise.Fits Turn.memory
    dsimp only
    rw [hmine]
    exact ⟨hg.code, hg.mine.bind name v, Memory.Sound.bind (v := s.vm.guise ρ g) hg.other name v,
      hg.next⟩
  · refine congrArg (fun vm => { s.guise ρ g with vm }) (hother.trans ?_)
    rw [hmine]
    rfl

/-! ### Operations on the stack -/

/-- An operation that has the same result on every heap in another guise. -/
theorem echo_binary {op : Heap → Value → Value → Except RuntimeError Value}
    (hop : ∀ (h : Heap) (cs : Array Chunk) (a b : Value), SameCode cs h.chunks →
      op (h.guise ρ cs) a b = op h a b) : Echo ρ (binary op) := by
  refine echo_bind echo_pop fun b => echo_bind echo_pop fun a => ?_
  refine echoes_get_bind fun s g hg => ?_
  rw [show (s.guise ρ g).heap = s.heap.guise ρ g.memory.chunks from rfl, hop _ _ a b hg.code]
  exact echo_bind (echo_ofExcept _) fun _ => echo_push _

theorem echo_equality (hρ : Renumbers ρ) (wanted : Bool) : Echo ρ (equality wanted) := by
  refine echo_bind echo_pop fun b => echo_bind echo_pop fun a => ?_
  refine echoes_get_bind fun s g hg => ?_
  rw [show (s.guise ρ g).heap = s.heap.guise ρ g.memory.chunks from rfl,
    Heap.equal?_guise hρ hg.code]
  split
  · exact echo_push _
  · exact echoes_throw _

theorem echo_ordering (test : Ordering → Bool) : Echo ρ (ordering test) :=
  echo_bind echo_pop fun _ => echo_bind echo_pop fun _ =>
    echo_bind (echo_ofExcept _) fun _ => echo_push _

theorem echo_popChannel : Echo ρ popChannel := by
  refine echo_bind echo_pop fun v => echoes_get_bind fun s g hg => ?_
  have hchannel : channelOf (s.guise ρ g).heap v = channelOf s.heap v := by
    unfold channelOf
    rw [show (s.guise ρ g).heap.channels.size = s.heap.channels.size from Array.size_map ..]
  rw [hchannel]
  exact echo_ofExcept _

theorem echo_setMap (id : MapId) (m : OrderedMap Value) : Echo ρ (setMap id m) :=
  echoes_modify fun _ g hg => ⟨g, hg, rfl⟩

theorem echo_pushArray (items : List Value) : Echo ρ (pushArray items) :=
  echo_bind (echo_create (fun _ => rfl) fun _ _ => rfl) fun _ => echo_push _

theorem echo_newMap (m : OrderedMap Value) : Echo ρ (create (·.newMap m)) :=
  echo_create (fun _ => rfl) fun _ _ => rfl

theorem echo_pushFirst : ∀ (n : Nat) (vs : List Value), Echo ρ (pushFirst n vs)
  | 0, _ => echo_pure _
  | n + 1, vs => echo_bind (echo_push _) fun _ => echo_pushFirst n vs.tail

theorem echo_writeLine (line : String) : Echo ρ (writeLine line) :=
  echoes_modify fun _ g hg => ⟨g, hg, rfl⟩

theorem echo_touchIteration (left : Nat) : Echo ρ (touchIteration left) :=
  echoes_get_bind fun _ _ _ => echoes_touch _ _

theorem echo_nextItem : Echo ρ nextItem := by
  refine echoes_get_bind fun s g hg => ?_
  rw [show (s.guise ρ g).task.iterations = s.task.iterations from rfl]
  split
  · refine echo_bind (echo_touchIteration _) fun _ => ?_
    exact echo_bind (echoes_modifyTask fun _ => rfl) fun _ => echo_pure _
  · exact echo_invalid _

theorem echo_endIteration : Echo ρ endIteration := by
  refine echoes_get_bind fun s g hg => ?_
  rw [show (s.guise ρ g).task.iterations = s.task.iterations from rfl]
  split
  · exact echo_bind (echo_touchIteration _) fun _ => echoes_modifyTask fun _ => rfl
  · exact echo_invalid _

theorem echo_dropHandler : Echo ρ dropHandler := by
  refine echoes_get_bind fun s g hg => ?_
  dsimp only
  rw [show (s.guise ρ g).task.handlers = s.task.handlers from rfl]
  split
  · exact echoes_bind (echoes_touch _ _) fun _ _ _ => echoes_modifyTask fun _ => rfl
  · exact echo_pure _

theorem echo_tryBegin : Echo ρ tryBegin := by
  refine echo_bind echo_readOffset fun offset => echoes_get_bind fun s g hg => ?_
  refine echo_bind echo_frame fun f => ?_
  rw [show (s.guise ρ g).heap = s.heap.guise ρ g.memory.chunks from rfl,
    f.jumpTarget?_guise hg.code]
  split
  · exact echo_invalid _
  · exact echoes_modifyTask fun _ => rfl

theorem echo_tryEnd : Echo ρ tryEnd := by
  refine echoes_modifyTask fun t => ?_
  rw [show (t.renumber ρ).handlers = t.handlers from rfl]
  cases t.handlers with
  | nil => rfl
  | cons handler rest =>
    show (if handler.frameDepth = t.frames.length then _ else _) =
      Task.renumber ρ (if _ then _ else _)
    split <;> rfl

theorem echo_dropFrame (f : Frame) (callers : List Frame) : Echo ρ (dropFrame f callers) := by
  refine echoes_modify fun s g hg => ?_
  have hclose : s.task.openUpvalues.closeFrom (s.heap.guise ρ g.memory.chunks) f.stackBase
      s.task.stack = _ := s.task.openUpvalues.closeFrom_guise f.stackBase s.task.stack
  refine ⟨{ g with acts := g.acts ++ [.left (ρ s.task.id) [f]] }, ?_, ?_⟩
  · refine hg.of_chunks (h := (s.task.openUpvalues.closeFrom s.heap f.stackBase s.task.stack).2) ?_
    rw [OpenUpvalues.closeFrom_frame]
  · dsimp only
    rw [show (s.guise ρ g).task.openUpvalues.closeFrom (s.guise ρ g).heap f.stackBase
      (s.guise ρ g).task.stack = _ from hclose]
    rfl

theorem echo_leaveFrame (result : Value) : Echo ρ (leaveFrame result) := by
  refine echoes_get_bind fun s g hg => ?_
  rw [show (s.guise ρ g).task.frames = s.task.frames from rfl]
  split
  · exact echo_pure _
  · refine echoes_get_bind fun s g hg => ?_
    refine echoes_bind (echoes_emit _ _) fun _ _ _ => ?_
    refine echo_bind (echo_dropFrame _ _) fun _ => ?_
    split
    · exact echo_pure _
    · exact echo_bind (echo_push _) fun _ => echo_pure _

/-! ### Calls -/

theorem echo_bindArguments (t : Template) (argc : Nat) : Echo ρ (bindArguments t argc) := by
  unfold bindArguments
  dsimp only
  split
  · split
    · exact echoes_raise _
    · refine echo_bind (echo_popMany _) fun extras => ?_
      refine echo_bind (echo_create (fun _ => rfl) fun _ _ => rfl) fun id => ?_
      exact echo_bind (echo_push _) fun _ => echo_pure _
  · split
    · exact echo_pure _
    · exact echoes_raise _

theorem echo_enterFrame (f : Frame) (locals : Array Value) : Echo ρ (enterFrame f locals) :=
  echo_bind (echo_take _) fun _ => echoes_modifyTask fun _ => rfl

theorem echo_callClosure (closure : ClosureId) (argc : Nat) :
    Echo ρ (callClosure closure argc) := by
  refine echoes_get_bind fun s g hg => ?_
  refine echo_bind (echo_bindArguments _ argc) fun params => echoes_get_bind fun s₁ g₁ hg₁ => ?_
  dsimp only
  rw [show (s₁.guise ρ g₁).vm.config = s₁.vm.config from rfl,
    show (s₁.guise ρ g₁).task.frames = s₁.task.frames from rfl,
    show (s₁.guise ρ g₁).task.stack = s₁.task.stack from rfl]
  split
  · exact echoes_raise _
  · split
    · exact echoes_raise _
    · rw [show Frame.enter (s₁.guise ρ g₁).heap closure (s₁.task.stack.size - params)
        (s₁.guise ρ g₁).task.iterations.length = Frame.enter s₁.heap closure
        (s₁.task.stack.size - params) s₁.task.iterations.length from rfl]
      split
      · exact echoes_raise _
      · exact echoes_bind (echoes_emit _ _) fun _ _ _ => echo_enterFrame _ _

theorem echoAt_callNative {s : Turn} {id : NativeId} {args : List Value} (hρ : Renumbers ρ)
    (hd : (s.heap.native id).Discreet s.hosts args s.heap) :
    EchoesAt ρ (· = ·) (callNative id args) (callNative id args) s := by
  intro g hg
  let g₁ : Guise := { g with profiler := g.profiler.recordNativeCall }
  have hagree := (Native.blind_call hd) ρ g.memory.chunks hρ hg.code
  show Answers ρ _
    (onHeap ((s.heap.native id).call s.hosts args) { s with vm := { s.vm with
      profiler := s.vm.profiler.recordNativeCall } })
    (onHeap ((s.heap.native id).call s.hosts args) { s.guise ρ g with vm := { (s.guise ρ g).vm with
      profiler := g.profiler.recordNativeCall } })
  unfold onHeap
  dsimp only
  rw [show (s.guise ρ g).heap = s.heap.guise ρ g.memory.chunks from rfl]
  generalize (s.heap.native id).call s.hosts args s.heap = r at hagree ⊢
  generalize (s.heap.native id).call s.hosts args (s.heap.guise ρ g.memory.chunks) = r' at hagree ⊢
  -- The native may have made chunks, and none of these remembers anything yet.
  have hfits : ∀ {h : Heap} {fresh : Array Chunk}, h.chunks = s.heap.chunks ++ fresh →
      (∀ c ∈ fresh, c.slotCache = {}) →
      Guise.Fits ρ { g₁ with memory := { g.memory with chunks := g.memory.chunks ++ fresh } }
        { s with heap := h, vm := { s.vm with profiler := s.vm.profiler.recordNativeCall } } := by
    intro h fresh hchunks hblank
    unfold Guise.Fits Turn.memory
    dsimp only
    rw [hchunks]
    exact ⟨hg.code.append fresh, hg.mine.append hblank, hg.other.append hblank, hg.next⟩
  cases hagree with
  | ok hchunks hblank => exact .ok_of_eq rfl (hfits hchunks hblank) rfl
  | error hchunks hblank => exact .error_of_eq (hfits hchunks hblank) rfl

/-- A method stands for the same native, whatever is remembered. -/
theorem echo_resolveMethod (receiver : Value) (method : String) :
    Echo ρ (resolveMethod receiver method) := by
  unfold resolveMethod
  dsimp only
  split
  · exact echoes_raise _
  · rename_i name _
    intro s g hg
    have hfound : ((s.guise ρ g).vm.natives.lookup s.vm.globals name).1 =
        (s.vm.natives.lookup s.vm.globals name).1 := by
      refine Option.ext fun id => ?_
      exact (hg.other.coherent.lookup_iff name id).trans (hg.mine.coherent.lookup_iff name id).symm
    rw [get_bind_apply, get_bind_apply, modify_bind_apply, modify_bind_apply,
      show (s.guise ρ g).vm.globals = s.vm.globals from rfl, hfound]
    have hfits : Guise.Fits ρ
        { g with memory := { g.memory with
          natives := (g.memory.natives.lookup s.vm.globals name).2 } }
        { s with vm := { s.vm with natives := (s.vm.natives.lookup s.vm.globals name).2 } } :=
      ⟨hg.code, hg.mine.look name, hg.other.look name, hg.next⟩
    cases (s.vm.natives.lookup s.vm.globals name).1 with
    | some id => exact .ok_of_eq rfl hfits rfl
    | none => exact .error_of_eq hfits rfl

theorem echo_readCaptures : ∀ n, Echo ρ (readCaptures n)
  | 0 => echo_pure _
  | n + 1 => echo_bind echo_readByte fun _ => echo_bind echo_readByte fun _ =>
      echo_bind (echo_readCaptures n) fun _ => echo_pure _

theorem echo_captureSlot (slot : Nat) : Echo ρ (captureSlot slot) := by
  intro s g hg
  have hcapture : s.task.openUpvalues.capture (s.heap.guise ρ g.memory.chunks) (ρ s.task.id) slot =
      _ := s.task.openUpvalues.capture_guise s.task.id slot
  have hchunks : (s.task.openUpvalues.capture s.heap s.task.id slot).2.2.chunks =
      s.heap.chunks := by
    rw [OpenUpvalues.capture_frame]
  unfold captureSlot
  dsimp only
  rw [show (s.guise ρ g).task.openUpvalues.capture (s.guise ρ g).heap (s.guise ρ g).task.id slot =
    _ from hcapture]
  exact .ok_of_eq (g := { g with
    acts := g.acts ++ [.captured ((s.guise ρ g).task.localAt slot) (s.task.stack.getD slot .nil)
      (s.task.openUpvalues.capture s.heap s.task.id slot).1]
    tidy := g.tidy && s.task.hasLocal slot }) rfl (hg.of_chunks hchunks) rfl

theorem echo_captureCells (f : Frame) : ∀ captures, Echo ρ (captureCells f captures)
  | [] => echo_pure _
  | c :: cs => by
    refine echo_bind ?_ fun cell =>
      echo_bind (echo_captureCells f cs) fun _ => echo_pure _
    unfold captureCell
    split
    · exact echo_captureSlot _
    · refine echoes_get_bind fun s g hg => ?_
      rw [show (s.guise ρ g).heap.closure f.closure = s.heap.closure f.closure from rfl]
      split
      · exact echo_pure _
      · exact echoes_raise _

theorem echo_makeClosure : Echo ρ makeClosure := by
  refine echo_bind echo_readWord fun w => echo_bind (echo_constant w) fun v => ?_
  split
  · refine echo_bind echo_readByte fun n => echo_bind (echo_readCaptures n) fun captures => ?_
    refine echo_bind echo_frame fun f => echo_bind (echo_captureCells f captures) fun cells => ?_
    exact echo_bind (echo_create (fun _ => rfl) fun _ _ => rfl) fun _ => echo_push _
  · exact echoes_raise _

/-- Another task in the place of the running one. -/
theorem echoes_withTask (task : Task) {x : Exec Unit} (hx : Echo ρ x) :
    Echoes ρ (fun t t' => t' = t.renumber ρ) (withTask task x) (withTask (task.renumber ρ) x) := by
  intro s g hg
  have hanswers := hx { s with task } g hg
  unfold withTask
  rw [show ({ s.guise ρ g with task := task.renumber ρ } : Turn) =
    Turn.guise ρ g { s with task } from rfl]
  generalize x { s with task } = r at hanswers ⊢
  generalize x (Turn.guise ρ g { s with task }) = r' at hanswers ⊢
  cases hanswers with
  | @ok _ _ s' g' _ hg' =>
    exact .ok_of_eq (g := { g' with tidy := g.tidy, touched := g.touched }) rfl hg' rfl
  | @error _ s' g' hg' =>
    exact .error_of_eq (g := { g' with tidy := g.tidy, touched := g.touched }) hg' rfl

theorem echoes_start (hρ : Renumbers ρ) (child : Task) :
    Echoes ρ (· = ·) (start child) (start (child.renumber ρ)) := by
  refine echoes_modify fun s g hg => ⟨g, hg, ?_⟩
  have hrequeue : (s.vm.scheduler.renumber ρ).requeue (s.heap.guise ρ g.memory.chunks)
      (child.renumber ρ) = _ := Scheduler.requeue_guise hρ child
  have hhandles : (rekey ρ (fun handle : HandleId => handle) s.vm.handles).insert (ρ child.id)
      child.handle = rekey ρ (fun handle => handle) (s.vm.handles.insert child.id child.handle) :=
    rekey_insert hρ (fun handle => handle) s.vm.handles child.id child.handle
  dsimp only
  rw [show (s.guise ρ g).vm.scheduler.requeue (s.guise ρ g).heap (child.renumber ρ) = _ from
    hrequeue, show (s.guise ρ g).vm.handles.insert (child.renumber ρ).id
      (child.renumber ρ).handle = _ from hhandles]
  rfl

theorem echo_spawn (hρ : Renumbers ρ) (callee : Value) (args : List Value) :
    Echo ρ (spawn callee args) := by
  unfold spawn
  split
  · rename_i c
    intro s g hg
    -- The child gets the next number, which is renumbered to the next number of the other side.
    let s₁ : Turn := { s with
      heap := (Task.new s.heap s.vm.scheduler.takeId.1 (s.heap.closureTemplate c).name).2
      vm := { s.vm with scheduler := s.vm.scheduler.takeId.2 } }
    let child := (Task.new s.heap s.vm.scheduler.takeId.1 (s.heap.closureTemplate c).name).1
    have hg₁ : g.Fits ρ s₁ :=
      ⟨hg.code, hg.mine, hg.other, fun k hk => hg.next k (Nat.le_of_succ_le hk)⟩
    have hid := Scheduler.takeId_renumber (hg.next s.vm.scheduler.nextId (Nat.le_refl _))
    have hnew : Task.new (s.heap.guise ρ g.memory.chunks) (ρ s.vm.scheduler.takeId.1)
        (s.heap.closureTemplate c).name = _ :=
      Task.new_guise s.vm.scheduler.takeId.1 (s.heap.closureTemplate c).name
    have hrest : Echoes ρ (· = ·)
        (withTask { child with stack := args.toArray } (callClosure c args.length) >>= fun child =>
          start child >>= fun _ => pure (Value.task child.handle))
        (withTask { child.renumber ρ with stack := args.toArray } (callClosure c args.length) >>=
          fun child => start child >>= fun _ => pure (Value.task child.handle)) := by
      refine echoes_bind (echoes_withTask _ (echo_callClosure c args.length)) fun t t' ht => ?_
      subst ht
      exact echoes_bind (echoes_start hρ t) fun _ _ _ => echo_pure _
    have hanswers := hrest s₁ g hg₁
    rw [get_bind_apply, get_bind_apply]
    dsimp only
    rw [show (s.guise ρ g).vm.scheduler.takeId = _ from hid]
    dsimp only
    rw [show Task.new (s.guise ρ g).heap (ρ s.vm.scheduler.takeId.1)
      ((s.guise ρ g).heap.closureTemplate c).name = _ from hnew]
    exact hanswers
  · exact echoes_raise _

end Exec

end TaskVm
