import TaskVm.Proofs.Growth
import Mathlib.Logic.Relation

/-!
# What instructions can do

Everything an instruction does is a sequence of few kinds of changes. They are listed here
once, with what is known when each is made, so that an invariant is proved for each kind of
change and not for each opcode.

Channel operations stand apart. What they do depends on what all tasks are waiting for, and
is followed step by step where it matters.
-/

namespace TaskVm

open Exec Relation

/-- Two machines differ in what concerns neither tasks nor limits. -/
structure Vm.Alike (v v' : Vm) : Prop where
  scheduler : v'.scheduler = v.scheduler
  main : v'.main = v.main
  handles : v'.handles = v.handles
  config : v'.config = v.config
  id : v'.id = v.id
  /-- What is warmed up stays so. -/
  warm : v.warmedUp = true → v'.warmedUp = true

theorem Vm.Alike.refl (v : Vm) : v.Alike v := ⟨rfl, rfl, rfl, rfl, rfl, fun h => h⟩

/-- Binding a global is such a difference. -/
theorem Vm.setGlobal_alike (vm : Vm) (name : String) (v : Value) :
    vm.Alike (vm.setGlobal name v) := by
  unfold Vm.setGlobal
  extract_lets isNative wasNative vm'
  split
  · exact ⟨rfl, rfl, rfl, rfl, rfl, fun h => h⟩
  · exact ⟨rfl, rfl, rfl, rfl, rfl, fun h => h⟩

theorem Vm.warmUp_alike (vm : Vm) : vm.Alike vm.warmUp := by
  unfold Vm.warmUp
  split
  · exact Vm.Alike.refl vm
  · exact ⟨rfl, rfl, rfl, rfl, rfl, fun _ => rfl⟩

/-- What instructions do to a machine's own records. -/
inductive Vm.Works (v : Vm) : Vm → Prop where
  /-- Something is counted, or drawn. -/
  | count (profiler : Profiler) (instructions : Nat) (dice : Dice) :
      Works v { v with profiler, instructions, dice }
  /-- A global is bound. -/
  | bind (name : String) (value : Value) : Works v (v.setGlobal name value)
  /-- A name is looked up among the natives. -/
  | look (name : String) : Works v { v with natives := (v.natives.lookup v.globals name).2 }

theorem Vm.Works.alike {v v' : Vm} (h : v.Works v') : v.Alike v' := by
  cases h with
  | bind name value => exact v.setGlobal_alike name value
  | _ => exact ⟨rfl, rfl, rfl, rfl, rfl, fun h => h⟩

namespace Turn

/-- The running task can get at a captured variable: a closure has it, or its own stack. -/
def Holds (s : Turn) (cell : CellId) : Prop :=
  (∃ c, cell ∈ (s.heap.closure c).upvalues) ∨ ∃ slot, (slot, cell) ∈ s.task.openUpvalues.cells

/-- The value of a captured variable. -/
def cellValue (s : Turn) (cell : CellId) : Value :=
  match s.heap.cell cell with
  | .closed v => v
  | .onStack task slot => (stackOf s task).getD slot .nil

end Turn

/-- A task that is about to have its first turn. -/
structure Task.Newborn (t : Task) : Prop where
  frames : ∃ f, t.frames = [f] ∧ f.stackBase + f.localCount ≤ t.stack.size ∧ f.ip = 0 ∧
    f.activation = 0
  handlers : t.handlers = []
  openUpvalues : t.openUpvalues = {}
  resume : t.resume = none
  waitEpoch : t.waitEpoch = 0
  activations : t.activations = 1

/-- One change of a turn, in which natives may do to the heap what `K` allows. -/
inductive ChangeIn (K : Heap → Heap → Prop) (s : Turn) : Turn → Prop where
  /-- Objects that nothing in the machine relies on, and new ones. -/
  | heap {h : Heap} (hh : K s.heap h) : ChangeIn K s { s with heap := h }
  /-- Where a global was found is remembered in the chunk that names it. -/
  | remember {chunk : ChunkId} {constant slot : Nat} {name : String}
      (hc : (s.heap.chunk chunk).constants[constant]? = some (.string name))
      (hs : s.vm.globals.place? name = some slot) :
      ChangeIn K s { s with heap := s.heap.rememberSlot chunk constant s.vm.id slot }
  /-- Counters, globals and dice. -/
  | vm {vm : Vm} (hv : s.vm.Works vm) : ChangeIn K s { s with vm }
  | tell (es : List Event) : ChangeIn K s { s with events := s.events ++ es }
  | push (v : Value) : ChangeIn K s { s with task := s.task.push v }
  /-- What is taken off the stack is on record. -/
  | drop {n : Nat} (hn : n ≤ s.task.stack.size) : ChangeIn K s { s with
      tidy := s.tidy && s.task.keeps n
      touched := s.touched ++ [.operands s.task.stackBase n]
      task := { s.task with stack := s.task.stack.take n } }
  | readLocal {f : Frame} {fs : List Frame} (hf : s.task.frames = f :: fs) (index : Nat) :
      ChangeIn K s { s with acts := s.acts ++ [.localRead ⟨s.task.id, f.activation, index⟩
        (s.task.stack.getD (f.stackBase + index) .nil)] }
  | writeLocal {f : Frame} {fs : List Frame} (hf : s.task.frames = f :: fs) (index : Nat)
      (v : Value) : ChangeIn K s { s with
        acts := s.acts ++ [.localSet ⟨s.task.id, f.activation, index⟩ v]
        task := { s.task with stack := s.task.stack.setIfInBounds (f.stackBase + index) v } }
  | readCell {cell : CellId} (hc : s.Holds cell) : ChangeIn K s { s with
      acts := s.acts ++ [.cellRead cell (s.cellValue cell)] }
  | writeCell {cell : CellId} (hc : s.Holds cell) (v : Value) :
      ChangeIn K s (endState (Exec.writeCell cell v) s)
  /-- Within the code of the innermost frame. -/
  | goto {f : Frame} {fs : List Frame} (hf : s.task.frames = f :: fs) {ip : Nat}
      (hip : ip ≤ (f.code s.heap).size) :
      ChangeIn K s { s with task := { s.task with frames := { f with ip } :: fs } }
  | iterate (i : Iteration) :
      ChangeIn K s { s with task := { s.task with iterations := i :: s.task.iterations } }
  | moveOn {i : Iteration} {is : List Iteration} (hi : s.task.iterations = i :: is) :
      ChangeIn K s { s with
        touched := s.touched ++
          [.iteration s.task.iterBase s.task.iterations.length (is.length + 1)]
        task := { s.task with iterations := i.next.2 :: is } }
  | moveOff {i : Iteration} {is : List Iteration} (hi : s.task.iterations = i :: is) :
      ChangeIn K s { s with
        touched := s.touched ++ [.iteration s.task.iterBase s.task.iterations.length is.length]
        task := { s.task with iterations := is } }
  /-- A handler is for the innermost frame and the operands there are. -/
  | protect {f : Frame} {fs : List Frame} (hf : s.task.frames = f :: fs)
      {target : Nat} (ht : target ≤ (f.code s.heap).size) :
      ChangeIn K s { s with task := s.task.protect f target }
  /-- The handler of a frame that comes to the end of what it protects. -/
  | unprotect {hd : Handler} {rest : List Handler} (hh : s.task.handlers = hd :: rest)
      (hd' : hd.frameDepth = s.task.frames.length) :
      ChangeIn K s { s with task := { s.task with handlers := rest } }
  /-- The handler of a frame that deals with what it has caught, whoever registered it. -/
  | catchInto {hd : Handler} {rest : List Handler} (hh : s.task.handlers = hd :: rest) :
      ChangeIn K s { s with
        touched := s.touched ++ [.handler s.task.activation hd.activation]
        task := { s.task with handlers := rest } }
  | capture {f : Frame} {fs : List Frame} (hf : s.task.frames = f :: fs) (slot : Nat) :
      ChangeIn K s (endState (captureSlot (f.stackBase + slot)) s)
  /-- A closure takes hold of what the running task can get at. -/
  | close {c : Closure} (hc : ∀ cell ∈ c.upvalues, s.Holds cell) :
      ChangeIn K s { s with heap := (s.heap.newClosure c).2 }
  /-- The arguments of a call are the first locals of the new frame. -/
  | enter {f : Frame} (hip : f.ip = 0) (hf : f.stackBase ≤ s.task.stack.size)
      (hi : f.iterBase = s.task.iterations.length)
      {locals : Array Value}
      (hl : f.stackBase + f.localCount ≤ s.task.stack.size + locals.size) :
      ChangeIn K s (endState (enterFrame f locals) s)
  | leave {f : Frame} {callers : List Frame} (hf : s.task.frames = f :: callers) :
      ChangeIn K s (endState (dropFrame f callers) s)
  /-- A number and a handle are given out, whether a task comes of it or not. -/
  | reserve (name : String) : ChangeIn K s { s with
      heap := (s.heap.newHandle { id := s.vm.scheduler.nextId, name }).2
      vm := { s.vm with scheduler := s.vm.scheduler.takeId.2 } }
  /-- A task begins with a number and a handle of its own. -/
  | spawn {child : Task} (hc : child.Newborn) (name : String)
      (hid : child.id = s.vm.scheduler.nextId) (hh : child.handle = s.heap.handles.size)
      {h : Heap} (he : (s.heap.newHandle { id := child.id, name }).2.Collects h) :
      ChangeIn K s (endState (start child) { s with
        heap := h
        vm := { s.vm with scheduler := s.vm.scheduler.takeId.2 } })

/-- One change of a turn in which natives leave alone what tasks share. -/
abbrev Change : Turn → Turn → Prop := ChangeIn Heap.Extends

/-- Changes one after the other. -/
abbrev ChangesIn (K : Heap → Heap → Prop) : Turn → Turn → Prop := ReflTransGen (ChangeIn K)

abbrev Changes : Turn → Turn → Prop := ChangesIn Heap.Extends

section

variable {K : Heap → Heap → Prop} {s s' : Turn}

theorem ChangeIn.changes (h : ChangeIn K s s') : ChangesIn K s s' := ReflTransGen.single h

/-- Computing is a change that is always allowed. -/
theorem ChangeIn.collect [Heap.Permits K] {h : Heap} (hh : s.heap.Collects h) :
    ChangeIn K s { s with heap := h } := .heap (Heap.Permits.of_collects hh)

end

@[simp] theorem Exec.note_apply (a : Act) (s : Turn) :
    note a s = .ok ⟨⟩ { s with acts := s.acts ++ [a] } := rfl

@[simp] theorem Exec.push_apply (v : Value) (s : Turn) :
    push v s = .ok ⟨⟩ { s with task := s.task.push v } := rfl

/-- A closed variable has its value in its cell. -/
theorem Exec.writeCell_closed {s : Turn} {cell : CellId} {w : Value}
    (h : s.heap.cell cell = .closed w) (v : Value) :
    endState (writeCell cell v) s = { s with
      acts := s.acts ++ [.cellSet cell v]
      heap := s.heap.setCell cell (.closed v) } := by
  have hw : writeCell cell v s = .ok ⟨⟩ { s with
      acts := s.acts ++ [.cellSet cell v]
      heap := s.heap.setCell cell (.closed v) } := by
    rw [writeCell, bind_ok (note_apply _ _), get_bind_apply]
    simp only [h, modify_apply]
  exact endState_ok hw

/-- An open one has it on a stack. -/
theorem Exec.writeCell_onStack {s : Turn} {cell : CellId} {task : TaskId} {slot : Nat}
    (h : s.heap.cell cell = .onStack task slot) (v : Value) :
    endState (writeCell cell v) s = setSlotOf task slot v { s with
      acts := s.acts ++ [.cellSet cell v]
      touched := s.touched ++ [.slot task slot] } := by
  have hw : writeCell cell v s = .ok ⟨⟩ (setSlotOf task slot v { s with
      acts := s.acts ++ [.cellSet cell v]
      touched := s.touched ++ [.slot task slot] }) := by
    rw [writeCell, bind_ok (note_apply _ _), get_bind_apply]
    simp only [h, touch, modify_bind_apply, modify_apply]
  exact endState_ok hw

/-- Wherever the variable lives, nothing but cells and stacks is touched. -/
theorem Exec.writeCell_frame (s : Turn) (cell : CellId) (v : Value) :
    ∃ cells tasks stack touched, endState (writeCell cell v) s = { s with
      touched
      acts := s.acts ++ [.cellSet cell v]
      heap := { s.heap with cells }
      vm := { s.vm with scheduler := { s.vm.scheduler with tasks } }
      task := { s.task with stack } } := by
  cases hcell : s.heap.cell cell with
  | closed w =>
    rw [writeCell_closed hcell]
    exact ⟨_, _, _, _, rfl⟩
  | onStack task slot =>
    rw [writeCell_onStack hcell, setSlotOf]
    dsimp only
    split
    · exact ⟨_, _, _, _, rfl⟩
    · split <;> exact ⟨_, _, _, _, rfl⟩

/-- The host's functions are there for good. -/
theorem ChangeIn.hosts_eq {K : Heap → Heap → Prop} {s s' : Turn} (h : ChangeIn K s s') :
    s'.hosts = s.hosts := by
  cases h with
  | @writeCell cell hc v =>
    obtain ⟨cells, tasks, stack, touched, hs⟩ := writeCell_frame s cell v
    rw [hs]
  | _ => rfl

theorem hosts_of_changes {K : Heap → Heap → Prop} {s s' : Turn} (h : ChangesIn K s s') :
    s'.hosts = s.hosts := by
  induction h with
  | refl => rfl
  | tail _ hc ih => rw [hc.hosts_eq, ih]

namespace Exec

variable {K : Heap → Heap → Prop} {α : Type} (s : Turn)

/-! ## Reading and the stack -/

theorem leads_ofExcept (x : Except RuntimeError α) : Leads (ChangesIn K) (Exec.ofExcept x) s := by
  cases x with
  | ok a => exact ReflTransGen.refl
  | error e => exact ReflTransGen.refl

theorem leads_raise (e : RuntimeError) : Leads (ChangesIn K) (raise e : Exec α) s :=
  ReflTransGen.refl

theorem leads_invalid (reason : String) : Leads (ChangesIn K) (invalid reason : Exec α) s :=
  ReflTransGen.refl

theorem leads_push (v : Value) : Leads (ChangesIn K) (push v) s := (ChangeIn.push v).changes

theorem leads_peek : Leads (ChangesIn K) peek s := leads_ofExcept s _

theorem leads_frame : Leads (ChangesIn K) frame s := leads_ofExcept s _

theorem ofExcept_eq_ok {x : Except RuntimeError α} {s' : Turn} {a : α}
    (h : Exec.ofExcept x s = .ok a s') : x = .ok a ∧ s' = s := by
  cases x with
  | ok b =>
    injection h with hb hs
    exact ⟨congrArg Except.ok hb, hs.symm⟩
  | error e => nomatch h

theorem frame_eq_ok {s' : Turn} {f : Frame} (h : frame s = .ok f s') :
    s' = s ∧ ∃ fs, s.task.frames = f :: fs := by
  obtain ⟨hf, hs⟩ := ofExcept_eq_ok s h
  refine ⟨hs, ?_⟩
  unfold Task.frame at hf
  split at hf
  · rename_i g fs hg
    injection hf with hf
    exact ⟨fs, by rw [hg, hf]⟩
  · cases hf

theorem frame_ok {f : Frame} {fs : List Frame} (hf : s.task.frames = f :: fs) :
    frame s = .ok f s := by
  show Exec.ofExcept s.task.frame s = _
  rw [Task.frame, hf]
  rfl

theorem onTask_ok {f : Task → Except RuntimeError (α × Task)} {a : α} {t : Task}
    (h : f s.task = .ok (a, t)) : onTask f s = .ok a { s with task := t } := by
  rw [onTask, h]

theorem onTask_error {f : Task → Except RuntimeError (α × Task)} {e : RuntimeError}
    (h : f s.task = .error e) : onTask f s = .error (.raised e) s := by
  rw [onTask, h]

theorem take_height (a : α) : (do take (← get).task.stack.size; pure a : Exec α) s =
    .ok a { s with
      tidy := s.tidy && s.task.keeps s.task.stack.size
      touched := s.touched ++ [.operands s.task.stackBase s.task.stack.size] } := rfl

/-- Popping takes the topmost value off. -/
theorem pop_ok {v : Value} (h : s.task.stack.back? = some v) :
    pop s = .ok v { s with
      tidy := s.tidy && s.task.keeps (s.task.stack.size - 1)
      touched := s.touched ++ [.operands s.task.stackBase (s.task.stack.size - 1)]
      task := { s.task with stack := s.task.stack.pop } } := by
  have ht : Task.pop s.task = .ok (v, { s.task with stack := s.task.stack.pop }) := by
    rw [Task.pop, h]
  rw [← Array.size_pop]
  exact (bind_ok (onTask_ok s ht)).trans (take_height _ v)

theorem popMany_ok {n : Nat} (h : n ≤ s.task.stack.size) :
    popMany n s = .ok (s.task.stack.extract (s.task.stack.size - n) s.task.stack.size).toList
      { s with
        tidy := s.tidy && s.task.keeps (s.task.stack.size - n)
        touched := s.touched ++ [.operands s.task.stackBase (s.task.stack.size - n)]
        task := { s.task with stack := s.task.stack.take (s.task.stack.size - n) } } := by
  have ht : s.task.popMany n =
      .ok ((s.task.stack.extract (s.task.stack.size - n) s.task.stack.size).toList,
        { s.task with stack := s.task.stack.take (s.task.stack.size - n) }) := by
    rw [Task.popMany, if_pos h]
  have hz : (s.task.stack.take (s.task.stack.size - n)).size = s.task.stack.size - n := by
    simp
  rw [popMany, bind_ok (onTask_ok s ht)]
  refine (take_height _ _).trans ?_
  rw [show ({ s with task := { s.task with stack := s.task.stack.take (s.task.stack.size - n) } } :
    Turn).task.stack.size = s.task.stack.size - n from hz]
  rfl

theorem leads_pop : Leads (ChangesIn K) pop s := by
  cases h : s.task.stack.back? with
  | none => exact leads_of_error (bind_error (onTask_error s (by rw [Task.pop, h])))
  | some v =>
    have hc := ChangeIn.drop (K := K) (s := s) (n := s.task.stack.size - 1) (Nat.sub_le _ _)
    rw [show s.task.stack.take (s.task.stack.size - 1) = s.task.stack.pop from
      Array.extract_eq_pop rfl] at hc
    exact leads_of_ok (pop_ok s h) hc.changes

theorem leads_popMany (n : Nat) : Leads (ChangesIn K) (popMany n) s := by
  by_cases h : n ≤ s.task.stack.size
  · exact leads_of_ok (popMany_ok s h) (ChangeIn.drop (Nat.sub_le _ _)).changes
  · exact leads_of_error (bind_error (onTask_error s (by rw [Task.popMany, if_neg h])))

/-! ## Operands -/

/-- Moving on in the code of the innermost frame. -/
theorem leads_setFrame {f : Frame} {fs : List Frame} (hf : s.task.frames = f :: fs) {ip : Nat}
    (hip : ip ≤ (f.code s.heap).size) :
    Leads (ChangesIn K) (modifyTask (·.setFrame { f with ip })) s := by
  have hc := (ChangeIn.goto (K := K) hf hip).changes
  rw [show fs = s.task.frames.drop 1 by rw [hf, List.drop_one, List.tail_cons]] at hc
  exact hc

theorem leads_readByte : Leads (ChangesIn K) readByte s := by
  unfold readByte
  refine leads_bind (leads_frame s) fun f s' hf => ?_
  obtain ⟨rfl, fs, hfs⟩ := frame_eq_ok s hf
  refine leads_get_bind (leads_bind (leads_ofExcept _ _) fun r s' hr => ?_)
  obtain ⟨hr, rfl⟩ := ofExcept_eq_ok _ hr
  have hg : f.ip + 1 ≤ (f.code s'.heap).size ∧ r.2 = { f with ip := f.ip + 1 } := by
    unfold Frame.readByte at hr
    split at hr
    · rename_i b hb
      injection hr with hr
      exact ⟨(Array.getElem?_eq_some_iff.mp hb).1, by rw [← hr]⟩
    · cases hr
  obtain ⟨b, g⟩ := r
  obtain ⟨hip, hg⟩ := hg
  subst hg
  exact leads_bind (leads_setFrame _ hfs hip) fun _ _ _ => leads_pure _ _

theorem leads_readWord : Leads (ChangesIn K) readWord s :=
  leads_bind (leads_readByte s) fun _ s _ =>
    leads_bind (leads_readByte s) fun _ s _ => leads_pure _ s

theorem leads_readOffset : Leads (ChangesIn K) readOffset s :=
  leads_bind (leads_readWord s) fun _ s _ => leads_pure _ s

/-- A jump lands within the code or right behind it. -/
theorem jumpTarget?_le {h : Heap} {f : Frame} {offset : Int} {target : Nat}
    (ht : f.jumpTarget? h offset = some target) : target ≤ (f.code h).size := by
  unfold Frame.jumpTarget? at ht
  dsimp only at ht
  split at ht
  · cases ht
  · injection ht with ht
    omega

theorem leads_jump (offset : Int) : Leads (ChangesIn K) (jump offset) s := by
  unfold jump
  refine leads_bind (leads_frame s) fun f s' hf => ?_
  obtain ⟨rfl, fs, hfs⟩ := frame_eq_ok s hf
  refine leads_get_bind (leads_bind (leads_ofExcept _ _) fun g s' hg => ?_)
  obtain ⟨hg, rfl⟩ := ofExcept_eq_ok _ hg
  unfold Frame.jump at hg
  split at hg
  · rename_i ip hip
    injection hg with hg
    rw [← hg]
    exact leads_setFrame _ hfs (jumpTarget?_le hip)
  · cases hg

theorem leads_constant (index : Nat) : Leads (ChangesIn K) (constant index) s :=
  leads_bind (leads_frame s) fun _ s _ => leads_get_bind (leads_ofExcept s _)

theorem leads_readName : Leads (ChangesIn K) readName s := by
  unfold readName
  refine leads_bind (leads_readWord s) fun _ s _ => ?_
  refine leads_bind (leads_constant s _) fun _ s _ => ?_
  split
  · exact leads_pure _ s
  · exact leads_invalid s _

theorem leads_readBytes : ∀ (n : Nat) (s : Turn), Leads (ChangesIn K) (readBytes n) s
  | 0, s => leads_pure _ s
  | n + 1, s => leads_bind (leads_readByte s) fun _ s _ =>
      leads_bind (leads_readBytes n s) fun _ s _ => leads_pure _ s

/-! ## Variables -/

theorem leads_localIndex (slot : Nat) : Leads (ChangesIn K) (localIndex slot) s := by
  unfold localIndex
  refine leads_bind (leads_frame s) fun f s _ => leads_get_bind ?_
  split
  · exact leads_pure _ s
  · exact leads_invalid s _

/-- A local is at a stack slot of the innermost frame. -/
theorem localIndex_eq_ok {s' : Turn} {slot index : Nat} (h : localIndex slot s = .ok index s') :
    s' = s ∧ ∃ f fs, s.task.frames = f :: fs ∧ index = f.stackBase + slot := by
  obtain ⟨f, s₁, hf, hrest⟩ := bind_eq_ok.mp h
  obtain ⟨rfl, fs, hfs⟩ := frame_eq_ok s hf
  rw [get_bind_apply] at hrest
  split at hrest
  · cases hrest
    exact ⟨rfl, f, fs, hfs, rfl⟩
  · cases hrest

theorem localAt_eq {t : Task} {f : Frame} {fs : List Frame} (hf : t.frames = f :: fs)
    (index : Nat) : t.localAt (f.stackBase + index) = ⟨t.id, f.activation, index⟩ := by
  unfold Task.localAt
  rw [hf]
  dsimp only
  rw [Nat.add_sub_cancel_left]

theorem leads_setSlot {f : Frame} {fs : List Frame} (hf : s.task.frames = f :: fs)
    (index : Nat) (v : Value) : Leads (ChangesIn K) (setSlot (f.stackBase + index) v) s := by
  have hc := (ChangeIn.writeLocal (K := K) hf index v).changes
  rw [← localAt_eq hf index] at hc
  exact hc

theorem leads_pushLocal (slot : Nat) : Leads (ChangesIn K) (pushLocal slot) s := by
  unfold pushLocal
  refine leads_bind (leads_localIndex s slot) fun index s' hs => leads_get_bind ?_
  obtain ⟨rfl, f, fs, hf, rfl⟩ := localIndex_eq_ok s hs
  refine leads_bind ?_ fun _ s _ => leads_push s _
  have hc := (ChangeIn.readLocal (K := K) hf slot).changes
  rw [← localAt_eq hf slot] at hc
  exact hc

theorem leads_readUpvalue : Leads (ChangesIn K) readUpvalue s := by
  unfold readUpvalue
  refine leads_bind (leads_readByte s) fun _ s _ => ?_
  refine leads_bind (leads_frame s) fun _ s _ => leads_get_bind ?_
  split
  · exact leads_pure _ s
  · exact leads_invalid s _

/-- The variable that code names is one its closure has captured. -/
theorem readUpvalue_holds {s' : Turn} {cell : CellId} (h : readUpvalue s = .ok cell s') :
    s'.Holds cell := by
  obtain ⟨i, s₁, -, h⟩ := bind_eq_ok.mp h
  obtain ⟨f, s₂, -, h⟩ := bind_eq_ok.mp h
  rw [get_bind_apply] at h
  cases hc : (s₂.heap.closure f.closure).upvalues[i]? with
  | none =>
    rw [hc] at h
    cases h
  | some c =>
    rw [hc] at h
    injection h with h h'
    subst h h'
    exact .inl ⟨f.closure, Array.mem_of_getElem? hc⟩

theorem leads_readCell {cell : CellId} (h : s.Holds cell) : Leads (ChangesIn K) (readCell cell) s :=
  (ChangeIn.readCell h).changes

theorem leads_writeCell {cell : CellId} (h : s.Holds cell) (v : Value) :
    Leads (ChangesIn K) (writeCell cell v) s := (ChangeIn.writeCell h v).changes

theorem leads_globalSlot (index : Nat) : Leads (ChangesIn K) (globalSlot index) s := by
  unfold globalSlot
  refine leads_get_bind (leads_bind (leads_frame s) fun f s' hf => ?_)
  obtain ⟨rfl, -⟩ := frame_eq_ok s hf
  dsimp only
  split
  · exact leads_pure _ s'
  · cases hname : (s'.heap.chunk f.chunk).constants[index]? with
    | none => exact leads_invalid s' _
    | some v =>
      cases v with
      | string name =>
        dsimp only
        cases hslot : s'.vm.globals.place? name with
        | none => exact leads_raise s' _
        | some slot =>
          refine leads_bind (leads_modify ?_) fun _ s _ => leads_pure _ s
          exact (ChangeIn.remember hname hslot).changes
      | _ => exact leads_invalid s' _

theorem leads_setGlobal (name : String) (v : Value) : Leads (ChangesIn K) (setGlobal name v) s := by
  exact (ChangeIn.vm (.bind name v)).changes

/-! ## Collections and natives -/

/-- A change of the heap alone. -/
theorem leads_create [Heap.Permits K] {f : Heap → α × Heap} (hf : ∀ h, Heap.Collects h (f h).2) :
    Leads (ChangesIn K) (create f) s := (ChangeIn.collect (hf s.heap)).changes

theorem leads_onHeap {x : HeapM α} (hx : Leads K x s.heap) :
    Leads (ChangesIn K) (onHeap x) s := by
  unfold Leads endState onHeap at *
  cases h : x s.heap with
  | ok a heap =>
    rw [h] at hx
    exact (ChangeIn.heap hx).changes
  | error e heap =>
    rw [h] at hx
    exact (ChangeIn.heap hx).changes

theorem leads_pushArray [Heap.Permits K] (items : List Value) :
    Leads (ChangesIn K) (pushArray items) s :=
  leads_bind (leads_create s fun h => Heap.Collects.newArray h _) fun _ s _ => leads_push s _

theorem leads_pushMap [Heap.Permits K] (pairs : Nat) : Leads (ChangesIn K) (pushMap pairs) s := by
  unfold pushMap
  refine leads_bind (leads_popMany s _) fun _ s _ => leads_get_bind ?_
  exact leads_bind (leads_create s fun h => Heap.Collects.newMap h _) fun _ s _ => leads_push s _

theorem leads_pushFirst : ∀ (n : Nat) (vs : List Value) (s : Turn),
    Leads (ChangesIn K) (pushFirst n vs) s
  | 0, _, s => leads_pure _ s
  | n + 1, vs, s => leads_bind (leads_push s _) fun _ s _ => leads_pushFirst n vs.tail s

theorem leads_setMap [Heap.Permits K] (id : MapId) (m : OrderedMap Value) :
    Leads (ChangesIn K) (setMap id m) s :=
  (ChangeIn.collect (Heap.Collects.setMap s.heap id m)).changes

theorem leads_writeLine [Heap.Permits K] (line : String) : Leads (ChangesIn K) (writeLine line) s :=
  (ChangeIn.collect (Heap.Collects.writeLine s.heap _ line)).changes

theorem leads_setIndex [Heap.Permits K] (collection key v : Value) : Leads (ChangesIn K) (do
    let heap ← Exec.ofExcept ((← get).heap.setIndex collection key v)
    modify fun s => { s with heap }
    push v
    pure Flow.next : Exec Flow) s := by
  refine leads_get_bind (leads_bind (leads_ofExcept s _) fun heap s' hs => ?_)
  obtain ⟨hs, rfl⟩ := ofExcept_eq_ok _ hs
  have hc := (ChangeIn.collect (K := K) (Heap.setIndex_collects hs)).changes
  exact leads_bind hc fun _ s _ => leads_bind (leads_push s _) fun _ s _ => leads_pure _ s

theorem leads_binary (op : Heap → Value → Value → Except RuntimeError Value) :
    Leads (ChangesIn K) (binary op) s := by
  unfold binary
  refine leads_bind (leads_pop s) fun _ s _ => leads_bind (leads_pop s) fun _ s _ => ?_
  exact leads_get_bind (leads_bind (leads_ofExcept s _) fun _ s _ => leads_push s _)

theorem leads_equality (wanted : Bool) : Leads (ChangesIn K) (equality wanted) s := by
  unfold equality
  refine leads_bind (leads_pop s) fun _ s _ => leads_bind (leads_pop s) fun _ s _ => ?_
  refine leads_get_bind ?_
  split
  · exact leads_push s _
  · exact leads_throw _ s

theorem leads_ordering (test : Ordering → Bool) : Leads (ChangesIn K) (ordering test) s := by
  unfold ordering
  refine leads_bind (leads_pop s) fun _ s _ => leads_bind (leads_pop s) fun _ s _ => ?_
  exact leads_bind (leads_ofExcept s _) fun _ s _ => leads_push s _

theorem leads_popKey : Leads (ChangesIn K) popKey s :=
  leads_bind (leads_pop s) fun _ s _ => leads_get_bind (leads_pure _ s)

theorem leads_popChannel : Leads (ChangesIn K) popChannel s :=
  leads_bind (leads_pop s) fun _ s _ => leads_get_bind (leads_ofExcept s _)

theorem leads_popCases : ∀ (kinds : List Nat) (s : Turn), Leads (ChangesIn K) (popCases kinds) s
  | [], s => leads_pure _ s
  | kind :: kinds, s => by
    unfold popCases
    dsimp only
    split
    · refine leads_bind (leads_pop s) fun _ s _ => leads_bind (leads_popChannel s) fun _ s _ => ?_
      refine leads_bind (leads_pure _ s) fun _ s _ => ?_
      exact leads_bind (leads_popCases kinds s) fun _ s _ => leads_pure _ s
    · refine leads_bind (leads_popChannel s) fun _ s _ => ?_
      refine leads_bind (leads_pure _ s) fun _ s _ => ?_
      exact leads_bind (leads_popCases kinds s) fun _ s _ => leads_pure _ s

theorem leads_selectOperands : Leads (ChangesIn K) selectOperands s :=
  leads_bind (leads_readByte s) fun _ s _ => leads_bind (leads_readByte s) fun _ s _ =>
    leads_bind (leads_readBytes _ s) fun _ s _ => leads_bind (leads_popCases _ s) fun _ s _ =>
      leads_pure _ s

theorem leads_nextItem : Leads (ChangesIn K) nextItem s := by
  unfold nextItem
  refine leads_get_bind ?_
  split
  · rename_i i is hi
    have hc := (ChangeIn.moveOn (K := K) hi).changes
    exact hc
  · exact leads_invalid s _

theorem leads_endIteration : Leads (ChangesIn K) endIteration s := by
  unfold endIteration
  refine leads_get_bind ?_
  split
  · rename_i i is hi
    exact (ChangeIn.moveOff hi).changes
  · exact leads_invalid s _

theorem leads_tryBegin : Leads (ChangesIn K) tryBegin s := by
  unfold tryBegin
  refine leads_bind (leads_readOffset s) fun offset s _ => leads_get_bind ?_
  refine leads_bind (leads_frame s) fun f s' hf => ?_
  obtain ⟨rfl, fs, hfs⟩ := frame_eq_ok s hf
  split
  · exact leads_invalid _ _
  · rename_i target ht
    exact (ChangeIn.protect hfs (jumpTarget?_le ht)).changes

theorem leads_tryEnd : Leads (ChangesIn K) tryEnd s := by
  unfold Leads tryEnd modifyTask endState
  dsimp only
  split
  · rename_i hd rest hh
    split
    · rename_i hdepth
      exact (ChangeIn.unprotect hh hdepth).changes
    · exact ReflTransGen.refl
  · exact ReflTransGen.refl

theorem leads_dropHandler : Leads (ChangesIn K) dropHandler s := by
  unfold dropHandler
  refine leads_get_bind ?_
  dsimp only
  split
  · rename_i hd rest hh
    exact (ChangeIn.catchInto hh).changes
  · exact leads_pure _ s

theorem leads_leaveFrame (result : Value) : Leads (ChangesIn K) (leaveFrame result) s := by
  unfold leaveFrame
  refine leads_get_bind ?_
  split
  · exact leads_pure _ s
  · rename_i f callers hf
    refine leads_get_bind (leads_bind (ChangeIn.tell [_]).changes fun _ s' hs => ?_)
    injection hs with _ hs
    have hf' : s'.task.frames = f :: callers := by rw [← hs, hf]
    refine leads_bind (ChangeIn.leave hf').changes fun _ s _ => ?_
    split
    · exact leads_pure _ s
    · exact leads_bind (leads_push s _) fun _ s _ => leads_pure _ s

/-! ## Calls -/

theorem leads_bindArguments [Heap.Permits K] (t : Template) (argc : Nat) :
    Leads (ChangesIn K) (bindArguments t argc) s := by
  unfold bindArguments
  dsimp only
  split
  · split
    · exact leads_raise s _
    · refine leads_bind (leads_popMany s _) fun _ s _ => ?_
      refine leads_bind (leads_create s fun h => Heap.Collects.newArray h _) fun _ s _ => ?_
      exact leads_bind (leads_push s _) fun _ s _ => leads_pure _ s
  · split
    · exact leads_pure _ s
    · exact leads_raise s _

/-- The arguments of a function stay where they are, and the surplus of a variadic one is put into
an array. -/
theorem bindArguments_eq_ok {s s' : Turn} {t : Template} {argc params : Nat}
    (h : bindArguments t argc s = .ok params s') :
    t.variadic = false ∧ argc = t.arity.toNat ∧ params = argc ∧ s' = s ∨
    t.variadic = true ∧ t.arity.toNat ≤ argc ∧ params = t.arity.toNat + 1 ∧
      ∃ extras s₁, popMany (argc - t.arity.toNat) s = .ok extras s₁ ∧
        s' = { s₁ with
          heap := (s₁.heap.newArray extras.toArray).2
          task := s₁.task.push (.array s₁.heap.arrays.size) } := by
  unfold bindArguments at h
  split at h
  · rename_i hvariadic
    split at h
    · cases h
    · rename_i hleast
      obtain ⟨extras, s₁, hpop, h⟩ := bind_eq_ok.mp h
      obtain ⟨id, s₂, hcreate, h⟩ := bind_eq_ok.mp h
      obtain ⟨rfl, rfl⟩ := EStateM.Result.ok.inj hcreate
      obtain ⟨rfl, rfl⟩ := EStateM.Result.ok.inj h
      exact .inr ⟨hvariadic, Nat.le_of_not_lt hleast, rfl, extras, s₁, hpop, rfl⟩
  · rename_i hvariadic
    split at h
    · rename_i harity
      obtain ⟨rfl, rfl⟩ := EStateM.Result.ok.inj h
      exact .inl ⟨eq_false_of_ne_true hvariadic, harity, harity.symm, rfl⟩
    · cases h

theorem leads_callClosure [Heap.Permits K] (c : ClosureId) (argc : Nat) :
    Leads (ChangesIn K) (callClosure c argc) s := by
  unfold callClosure
  refine leads_get_bind (leads_bind (leads_bindArguments s _ argc) fun params s _ => ?_)
  refine leads_get_bind ?_
  dsimp only
  split
  · exact leads_raise s _
  · split
    · exact leads_raise s _
    · split
      · exact leads_raise s _
      · rename_i hsize _
        refine leads_bind (ChangeIn.tell [_]).changes fun _ s' hs =>
          (ChangeIn.enter rfl ?_ ?_ ?_).changes
        -- The frame begins at the lowest of its arguments and reaches as far as its locals do.
        · injection hs with _ hs
          rw [← hs]
          exact Nat.sub_le _ _
        · injection hs with _ hs
          rw [← hs]
          rfl
        · injection hs with _ hs
          rw [← hs, Array.size_replicate]
          show s.task.stack.size - params + _ ≤ s.task.stack.size + _
          omega

theorem leads_callNative [Heap.Permits K] (ht : ∀ f ∈ s.hosts, f.Respects K) (n : NativeId)
    (args : List Value) : Leads (ChangesIn K) (callNative n args) s := by
  unfold callNative
  refine leads_bind (leads_modify ?_) fun _ s' hs => ?_
  · exact (ChangeIn.vm (.count _ _ _)).changes
  · injection hs with _ hs
    refine leads_get_bind (leads_onHeap _ (Native.call_respects ?_ _ _ _))
    rw [← hs]
    exact ht

theorem leads_resolveMethod (receiver : Value) (method : String) :
    Leads (ChangesIn K) (resolveMethod receiver method) s := by
  unfold resolveMethod
  dsimp only
  split
  · exact leads_raise s _
  · refine leads_get_bind (leads_bind (leads_modify ?_) fun _ s _ => ?_)
    · exact (ChangeIn.vm (.look _)).changes
    · split
      · exact leads_pure _ s
      · exact leads_raise s _

theorem leads_callValue [Heap.Permits K] (ht : ∀ f ∈ s.hosts, f.Respects K) (callee : Value)
    (argc : Nat) : Leads (ChangesIn K) (callValue callee argc) s := by
  unfold callValue
  split
  · exact leads_callClosure s _ _
  · refine leads_bind (leads_popMany s _) fun _ s' hs => ?_
    have ht' := (hosts_of_changes (K := K) ((leads_popMany s _).of_ok hs)) ▸ ht
    exact leads_bind (leads_callNative s' ht' _ _) fun _ s _ => leads_push s _
  · refine leads_bind (leads_resolveMethod s _ _) fun _ s₁ hs => ?_
    have ht₁ := (hosts_of_changes (K := K) ((leads_resolveMethod s _ _).of_ok hs)) ▸ ht
    refine leads_bind (leads_popMany s₁ _) fun _ s₂ hs => ?_
    have ht₂ := (hosts_of_changes (K := K) ((leads_popMany s₁ _).of_ok hs)) ▸ ht₁
    exact leads_bind (leads_callNative s₂ ht₂ _ _) fun _ s _ => leads_push s _
  · exact leads_raise s _

/-! ## Closures -/

theorem leads_readCaptures : ∀ (n : Nat) (s : Turn), Leads (ChangesIn K) (readCaptures n) s
  | 0, s => leads_pure _ s
  | n + 1, s => by
    unfold readCaptures
    refine leads_bind (leads_readByte s) fun _ s _ => leads_bind (leads_readByte s) fun _ s _ => ?_
    exact leads_bind (leads_readCaptures n s) fun _ s _ => leads_pure _ s

theorem captureSlot_apply (slot : Nat) : captureSlot slot s =
    .ok (s.task.openUpvalues.capture s.heap s.task.id slot).1 { s with
      heap := (s.task.openUpvalues.capture s.heap s.task.id slot).2.2
      acts := s.acts ++ [.captured (s.task.localAt slot) (s.task.stack.getD slot .nil)
        (s.task.openUpvalues.capture s.heap s.task.id slot).1]
      tidy := s.tidy && s.task.hasLocal slot
      task := { s.task with
        openUpvalues := (s.task.openUpvalues.capture s.heap s.task.id slot).2.1 } } := rfl

/-- Giving up a frame touches cells only. -/
theorem dropFrame_heap (f : Frame) (callers : List Frame) (s : Turn) :
    (endState (dropFrame f callers) s).heap =
      { s.heap with cells := (endState (dropFrame f callers) s).heap.cells } :=
  s.task.openUpvalues.closeFrom_frame s.heap f.stackBase s.task.stack

theorem leads_captureCell {f : Frame} {fs : List Frame} (hf : s.task.frames = f :: fs)
    (capture : Bool × Nat) : Leads (ChangesIn K) (captureCell f capture) s := by
  unfold captureCell
  split
  · exact (ChangeIn.capture hf _).changes
  · refine leads_get_bind ?_
    split
    · exact leads_pure _ s
    · exact leads_raise s _

/-- The cell of a capture is in reach, what was in reach still is, and the frames are as
they were. -/
theorem captureCell_holds {s s' : Turn} {f : Frame} {capture : Bool × Nat} {cell : CellId}
    (h : captureCell f capture s = .ok cell s') :
    s'.Holds cell ∧ (∀ c, s.Holds c → s'.Holds c) ∧ s'.task.frames = s.task.frames := by
  obtain ⟨isLocal, slot⟩ := capture
  -- A local is captured from the stack. Anything else has been captured before, by the closure
  -- itself.
  cases isLocal with
  | true =>
    rw [captureCell, captureSlot_apply] at h
    injection h with hc hs
    subst hs hc
    obtain ⟨hnew, hold⟩ := OpenUpvalues.mem_capture s.task.openUpvalues s.heap s.task.id
      (f.stackBase + slot)
    refine ⟨.inr ⟨_, hnew⟩, ?_, rfl⟩
    rintro c (⟨k, hk⟩ | ⟨n, hn⟩)
    · refine .inl ⟨k, ?_⟩
      unfold OpenUpvalues.capture
      split <;> exact hk
    · exact .inr ⟨n, hold _ hn⟩
  | false =>
    rw [captureCell, get_bind_apply] at h
    cases hc : (s.heap.closure f.closure).upvalues[slot]? with
    | none =>
      rw [hc] at h
      cases h
    | some c =>
      rw [hc] at h
      injection h with h hs
      subst h hs
      exact ⟨.inl ⟨f.closure, Array.mem_of_getElem? hc⟩, fun c hc => hc, rfl⟩

theorem leads_captureCells {f : Frame} {fs : List Frame} : ∀ (captures : List (Bool × Nat))
    (s : Turn), s.task.frames = f :: fs → Leads (ChangesIn K) (captureCells f captures) s
  | [], s, _ => leads_pure _ s
  | c :: cs, s, hf => by
    unfold captureCells
    refine leads_bind (leads_captureCell s hf c) fun _ s' hs => ?_
    have hf' : s'.task.frames = f :: fs := by rw [(captureCell_holds hs).2.2, hf]
    exact leads_bind (leads_captureCells cs s' hf') fun _ s _ => leads_pure _ s

theorem captureCells_holds {f : Frame} : ∀ {captures : List (Bool × Nat)} {s s' : Turn}
    {cells : List CellId}, captureCells f captures s = .ok cells s' →
    (∀ c ∈ cells, s'.Holds c) ∧ (∀ c, s.Holds c → s'.Holds c)
  | [], s, s', cells, h => by
    injection h with hc hs
    subst hc hs
    exact ⟨by simp, fun c hc => hc⟩
  | c :: cs, s, s', cells, h => by
    obtain ⟨cell, s₁, h₁, h⟩ := bind_eq_ok.mp h
    obtain ⟨rest, s₂, h₂, h⟩ := bind_eq_ok.mp h
    injection h with hc hs
    subst hc hs
    obtain ⟨hcell, hold, -⟩ := captureCell_holds h₁
    obtain ⟨hrest, hold'⟩ := captureCells_holds h₂
    refine ⟨?_, fun c hc => hold' c (hold c hc)⟩
    intro c hc
    rcases List.mem_cons.mp hc with rfl | hc
    · exact hold' _ hcell
    · exact hrest c hc

theorem leads_makeClosure : Leads (ChangesIn K) makeClosure s := by
  unfold makeClosure
  refine leads_bind (leads_readWord s) fun _ s _ => leads_bind (leads_constant s _) fun _ s _ => ?_
  split
  · refine leads_bind (leads_readByte s) fun _ s _ => ?_
    refine leads_bind (leads_readCaptures _ s) fun _ s _ => ?_
    refine leads_bind (leads_frame s) fun f s' hf => ?_
    obtain ⟨rfl, fs, hfs⟩ := frame_eq_ok s hf
    refine leads_bind (leads_captureCells _ _ hfs) fun cells s hs => ?_
    have hheld := (captureCells_holds hs).1
    refine leads_bind (ChangeIn.close ?_).changes fun _ s _ => leads_push s _
    intro cell hcell
    exact hheld cell (by simpa using hcell)
  · exact leads_raise s _

/-! ## New tasks -/

/-- Nothing but objects, events and the stack of the task itself has changed. -/
structure Inward (s s' : Turn) : Prop where
  hosts : s'.hosts = s.hosts
  heap : s.heap.Collects s'.heap
  vm : s'.vm = s.vm
  acts : s'.acts = s.acts
  events : ∃ es, s'.events = s.events ++ es
  task : ∃ stack, s'.task = { s.task with stack }

instance : IsPreorder Turn Inward where
  refl s := ⟨rfl, Heap.Collects.refl _, rfl, rfl, ⟨[], (List.append_nil _).symm⟩, ⟨_, rfl⟩⟩
  trans a b c hab hbc := by
    obtain ⟨es, he⟩ := hab.events
    obtain ⟨es', he'⟩ := hbc.events
    obtain ⟨stack, ht⟩ := hab.task
    obtain ⟨stack', ht'⟩ := hbc.task
    refine ⟨hbc.hosts.trans hab.hosts, hab.heap.trans hbc.heap, hbc.vm.trans hab.vm,
      hbc.acts.trans hab.acts, ⟨es ++ es', ?_⟩, ⟨stack', ?_⟩⟩
    · rw [he', he, List.append_assoc]
    · rw [ht', ht]

theorem inward_push (v : Value) : Leads Inward (push v) s :=
  ⟨rfl, Heap.Collects.refl _, rfl, rfl, ⟨[], (List.append_nil _).symm⟩, ⟨_, rfl⟩⟩

theorem inward_popMany (n : Nat) : Leads Inward (popMany n) s := by
  by_cases h : n ≤ s.task.stack.size
  · refine leads_of_ok (popMany_ok s h) ?_
    exact ⟨rfl, Heap.Collects.refl _, rfl, rfl, ⟨[], (List.append_nil _).symm⟩, ⟨_, rfl⟩⟩
  · exact leads_of_error (bind_error (onTask_error s (by rw [Task.popMany, if_neg h])))

theorem inward_newArray (items : Array Value) :
    Leads Inward (create (·.newArray items)) s :=
  ⟨rfl, Heap.Collects.newArray _ _, rfl, rfl, ⟨[], (List.append_nil _).symm⟩, ⟨_, rfl⟩⟩

theorem inward_bindArguments (t : Template) (argc : Nat) :
    Leads Inward (bindArguments t argc) s := by
  unfold bindArguments
  dsimp only
  split
  · split
    · exact leads_throw _ s
    · refine leads_bind (inward_popMany s _) fun _ s _ => ?_
      refine leads_bind (inward_newArray s _) fun _ s _ => ?_
      exact leads_bind (inward_push s _) fun _ s _ => leads_pure _ s
  · split
    · exact leads_pure _ s
    · exact leads_throw _ s

/-- A call fails before it has touched anything that matters to others, or it ends with
entering a frame. -/
theorem callClosure_cases (c : ClosureId) (argc : Nat) :
    (∃ e s', callClosure c argc s = .error e s' ∧ Inward s s') ∨
    ∃ s₁ e f locals, Inward s s₁ ∧ f.stackBase + f.localCount ≤ s₁.task.stack.size + locals.size ∧
      f.ip = 0 ∧
      callClosure c argc s = enterFrame f locals { s₁ with events := s₁.events ++ [e] } := by
  cases hb : bindArguments (s.heap.closureTemplate c) argc s with
  | error e s' =>
    refine .inl ⟨e, s', ?_, ?_⟩
    · rw [callClosure, get_bind_apply]
      exact bind_error hb
    · have h := inward_bindArguments s (s.heap.closureTemplate c) argc
      rwa [Leads, endState_error hb] at h
  | ok params s' =>
    have h := (inward_bindArguments s (s.heap.closureTemplate c) argc).of_ok hb
    rw [callClosure, get_bind_apply, bind_ok hb, get_bind_apply]
    dsimp only
    by_cases hframes : s'.vm.config.maxFrames ≤ s'.task.frames.length
    · rw [if_pos hframes]
      exact .inl ⟨_, s', rfl, h⟩
    · rw [if_neg hframes]
      by_cases hargs : s'.task.stack.size < params
      · rw [if_pos hargs]
        exact .inl ⟨_, s', rfl, h⟩
      · rw [if_neg hargs]
        split
        · exact .inl ⟨_, s', rfl, h⟩
        · refine .inr ⟨s', _, _, _, h, ?_, rfl, rfl⟩
          rw [Array.size_replicate]
          show s'.task.stack.size - params + _ ≤ _
          omega

/-- What has gone on inwards is, from outside, objects and events. -/
theorem changes_of_inward [Heap.Permits K] {s s' : Turn} {t : Task}
    (h : Inward { s with task := t } s') :
    ChangesIn K s { s' with task := s.task, tidy := s.tidy, touched := s.touched } := by
  obtain ⟨hosts, heap, vm, task, events, acts, tidy, touched⟩ := s'
  obtain ⟨hhosts, hheap, hvm, hacts, ⟨es, hevents⟩, -⟩ := h
  dsimp only at hhosts hheap hvm hacts hevents
  subst hhosts hvm hacts hevents
  exact ((ChangeIn.collect hheap).changes).tail (ChangeIn.tell es)

theorem leads_spawn [Heap.Permits K] (callee : Value) (args : List Value) :
    Leads (ChangesIn K) (spawn callee args) s := by
  unfold spawn
  split
  · rename_i c
    refine leads_get_bind ?_
    dsimp only
    let s₀ : Turn := { s with
      heap := (s.heap.newHandle { id := s.vm.scheduler.nextId,
                                  name := (s.heap.closureTemplate c).name }).2
      vm := { s.vm with scheduler := s.vm.scheduler.takeId.2 } }
    let t : Task := { id := s.vm.scheduler.nextId, handle := s.heap.handles.size,
                      stack := args.toArray }
    have hs₀ : ChangesIn K s s₀ := (ChangeIn.reserve _).changes
    -- The call runs on the child, so what it does to the task is out of sight for the parent.
    show ChangesIn K s (endState (do
      let child ← withTask t (callClosure c args.length)
      start child
      pure (Value.task child.handle)) s₀)
    rcases callClosure_cases { s₀ with task := t } c args.length with
      ⟨e, s', hc, hin⟩ | ⟨s₁, e, f, locals, hin, hbound, hip, hc⟩
    · have hw : withTask t (callClosure c args.length) s₀ =
          .error e { s' with task := s.task, tidy := s.tidy, touched := s.touched } := by
        rw [withTask, hc]
      rw [endState_error (bind_error hw)]
      exact hs₀.trans (changes_of_inward (s := s₀) hin)
    · obtain ⟨hosts, heap, vm, task, events, acts, tidy, touched⟩ := s₁
      obtain ⟨hhosts, hheap, hvm, hacts, ⟨es, hevents⟩, ⟨stack, htask⟩⟩ := hin
      dsimp only at hhosts hheap hvm hacts hevents htask hbound
      subst hhosts hvm hacts hevents htask
      let child : Task := { t with stack }.enter f locals
      have hw : withTask t (callClosure c args.length) s₀ =
          .ok child { s₀ with heap, events := s.events ++ es ++ [e] } := by
        rw [withTask, hc]
        rfl
      rw [endState_bind_ok hw]
      have hchild : child.Newborn := by
        refine ⟨⟨_, rfl, ?_, hip, rfl⟩, rfl, rfl, rfl, rfl, rfl⟩
        show f.stackBase + f.localCount ≤ (stack ++ locals).size
        rw [Array.size_append]
        exact hbound
      have hspawn := ChangeIn.spawn (K := K) hchild _ rfl rfl hheap
      exact (hspawn.changes.tail (ChangeIn.tell es)).tail (ChangeIn.tell [e])
  · exact leads_raise s _

/-! ## Instructions -/

/-- The opcodes that work on channels. -/
def isChannelOp : Opcode → Bool
  | .channelSend | .channelRecv | .channelClose | .select => true
  | _ => false

/-- **Instructions other than those on channels do nothing but what is listed.** -/
theorem leads_execute [Heap.Permits K] (ht : ∀ f ∈ s.hosts, f.Respects K) {op : Opcode}
    (hop : isChannelOp op = false) : Leads (ChangesIn K) (execute op) s := by
  cases op
  case channelSend | channelRecv | channelClose | select => nomatch hop
  all_goals
    unfold execute
    dsimp only
  -- The first few write where the steps before have found that there is something to write.
  case setUpvalue =>
    refine leads_bind (leads_readUpvalue s) fun cell s' hs => ?_
    refine leads_bind (leads_peek s') fun v s'' hv => ?_
    obtain ⟨-, rfl⟩ := ofExcept_eq_ok _ hv
    exact leads_bind (leads_writeCell _ (readUpvalue_holds s hs) v) fun _ s _ => leads_pure _ s
  case getUpvalue =>
    refine leads_bind (leads_readUpvalue s) fun cell s' hs => ?_
    refine leads_bind (leads_readCell s' (readUpvalue_holds s hs)) fun v s _ => ?_
    exact leads_bind (leads_push s v) fun _ s _ => leads_pure _ s
  case call =>
    refine leads_bind (leads_readByte s) fun argc s₁ hs => ?_
    have ht₁ := (hosts_of_changes (K := K) ((leads_readByte s).of_ok hs)) ▸ ht
    refine leads_bind (leads_pop s₁) fun callee s₂ hs => ?_
    have ht₂ := (hosts_of_changes (K := K) ((leads_pop s₁).of_ok hs)) ▸ ht₁
    exact leads_bind (leads_callValue s₂ ht₂ callee argc) fun _ s _ => leads_pure _ s
  case setLocal =>
    refine leads_bind (leads_readWord s) fun slot s _ => ?_
    refine leads_bind (leads_localIndex s slot) fun index s' hs => ?_
    obtain ⟨rfl, f, fs, hf, rfl⟩ := localIndex_eq_ok s hs
    refine leads_bind (leads_peek _) fun v s' hv => ?_
    obtain ⟨-, rfl⟩ := ofExcept_eq_ok _ hv
    exact leads_bind (leads_setSlot _ hf slot v) fun _ s _ => leads_pure _ s
  case storeFast =>
    refine leads_bind (leads_readByte s) fun slot s _ => leads_bind (leads_pop s) fun v s _ => ?_
    refine leads_bind (leads_localIndex s slot) fun index s' hs => ?_
    obtain ⟨rfl, f, fs, hf, rfl⟩ := localIndex_eq_ok s hs
    exact leads_bind (leads_setSlot _ hf slot v) fun _ s _ => leads_pure _ s
  case catchInto =>
    refine leads_bind (leads_readWord s) fun slot s _ => ?_
    refine leads_bind (leads_dropHandler s) fun _ s _ => leads_bind (leads_pop s) fun v s _ => ?_
    refine leads_bind (leads_localIndex s slot) fun index s' hs => ?_
    obtain ⟨rfl, f, fs, hf, rfl⟩ := localIndex_eq_ok s hs
    exact leads_bind (leads_setSlot _ hf slot v) fun _ s _ => leads_pure _ s
  -- The others are put together from steps that may be taken at any time.
  all_goals
    repeat' first
      | with_reducible exact leads_pure _ _
      | with_reducible exact leads_raise _ _
      | with_reducible exact leads_invalid _ _
      | with_reducible exact leads_ofExcept _ _
      | with_reducible exact leads_push _ _
      | with_reducible exact leads_pop _
      | with_reducible exact leads_popMany _ _
      | with_reducible exact leads_peek _
      | with_reducible exact leads_readByte _
      | with_reducible exact leads_readWord _
      | with_reducible exact leads_readOffset _
      | with_reducible exact leads_readName _
      | with_reducible exact leads_constant _ _
      | with_reducible exact leads_jump _ _
      | with_reducible exact leads_pushLocal _ _
      | with_reducible exact leads_globalSlot _ _
      | with_reducible exact leads_setGlobal _ _ _
      | with_reducible exact leads_binary _ _
      | with_reducible exact leads_equality _ _
      | with_reducible exact leads_ordering _ _
      | with_reducible exact leads_makeClosure _
      | with_reducible exact leads_leaveFrame _ _
      | with_reducible exact leads_pushArray _ _
      | with_reducible exact leads_pushMap _ _
      | with_reducible exact leads_pushFirst _ _ _
      | with_reducible exact leads_popKey _
      | with_reducible exact leads_setMap _ _ _
      | with_reducible exact leads_setIndex _ _ _ _
      | with_reducible exact leads_writeLine _ _
      | with_reducible exact leads_nextItem _
      | with_reducible exact leads_endIteration _
      | with_reducible exact leads_tryBegin _
      | with_reducible exact leads_tryEnd _
      | with_reducible exact leads_spawn _ _ _
      | with_reducible refine leads_get_bind ?_
      | with_reducible refine leads_bind ?_ fun _ _ _ => ?_
      | split
  · exact (ChangeIn.iterate _).changes
  · exact leads_create _ fun h => Heap.Collects.newChannel h _

theorem leads_countInstruction (op : Opcode) : Leads (ChangesIn K) (countInstruction op) s := by
  unfold countInstruction
  refine leads_bind (leads_modify ?_) fun _ s _ => leads_get_bind ?_
  · exact (ChangeIn.vm (.count _ _ _)).changes
  · dsimp only
    split
    · split
      · exact leads_raise s _
      · exact leads_pure _ s
    · exact leads_pure _ s

theorem leads_fetch : Leads (ChangesIn K) fetch s := by
  unfold fetch
  refine leads_bind (leads_frame s) fun f s' hf => leads_get_bind ?_
  obtain ⟨rfl, fs, hfs⟩ := frame_eq_ok s hf
  split
  · exact leads_raise _ _
  · rename_i b hb
    split
    · exact leads_raise _ _
    · have hip := (Array.getElem?_eq_some_iff.mp hb).1
      exact leads_bind (leads_setFrame _ hfs hip) fun _ s _ => leads_pure _ s

end Exec

end TaskVm
