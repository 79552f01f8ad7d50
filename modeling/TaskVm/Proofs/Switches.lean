import TaskVm.Proofs.Computation
import Mathlib.Logic.Basic

/-!
# Nothing depends on the count of turns

A profiler counts the turns that tasks have had. Pausing a run and taking it up again adds to
that count, and for that reason it matters that no instruction looks at it: a turn whose count
has been changed goes on exactly as it would have done, except for the count.
-/

namespace TaskVm

open Exec

/-- Another count of turns. -/
def Vm.recount (k : Nat) (vm : Vm) : Vm :=
  { vm with profiler := { vm.profiler with taskSwitches := k } }

def Turn.recount (k : Nat) (s : Turn) : Turn := { s with vm := s.vm.recount k }

def Machine.recount (k : Nat) (m : Machine) : Machine := { m with vm := m.vm.recount k }

namespace Exec

variable {α β : Type}

/-- What a computation gives, with another count of turns. -/
def recounted (k : Nat) : EStateM.Result Fault Turn α → EStateM.Result Fault Turn α
  | .ok a s => .ok a (s.recount k)
  | .error e s => .error e (s.recount k)

/-- A computation does not look at the count of turns. -/
def Oblivious (x : Exec α) : Prop := ∀ k s, x (s.recount k) = recounted k (x s)

/-! ## Parts of computations -/

theorem oblivious_pure (a : α) : Oblivious (pure a) := fun _ _ => rfl

theorem oblivious_throw (e : Fault) : Oblivious (throw e : Exec α) := fun _ _ => rfl

theorem oblivious_bind {x : Exec α} {f : α → Exec β} (hx : Oblivious x)
    (hf : ∀ a, Oblivious (f a)) : Oblivious (x >>= f) := by
  intro k s
  have hk := hx k s
  cases h : x s with
  | ok a s' =>
    rw [h] at hk
    rw [bind_ok h, bind_ok hk]
    exact hf a k s'
  | error e s' =>
    rw [h] at hk
    rw [bind_error h, bind_error hk]
    rfl

/-- Looking at the state, at anything else in it. -/
theorem oblivious_get_bind {f : Turn → Exec α} (he : ∀ k s, f (s.recount k) = f s)
    (hf : ∀ s, Oblivious (f s)) : Oblivious (get >>= f) := by
  intro k s
  rw [get_bind_apply, get_bind_apply, he]
  exact hf s k s

theorem oblivious_modify {f : Turn → Turn} (h : ∀ k s, f (s.recount k) = (f s).recount k) :
    Oblivious (modify f : Exec PUnit) := by
  intro k s
  rw [modify_apply, modify_apply, h]
  rfl

theorem oblivious_raise (e : RuntimeError) : Oblivious (raise e : Exec α) := fun _ _ => rfl

theorem oblivious_ofExcept (x : Except RuntimeError α) : Oblivious (Exec.ofExcept x) := by
  cases x with
  | ok a => exact oblivious_pure a
  | error e => exact oblivious_raise e

theorem oblivious_onHeap (x : HeapM α) : Oblivious (onHeap x) := by
  intro k s
  unfold onHeap
  rw [show (s.recount k).heap = s.heap from rfl]
  cases x s.heap with
  | ok a heap => rfl
  | error e heap => rfl

theorem oblivious_onTask (f : Task → Except RuntimeError (α × Task)) : Oblivious (onTask f) := by
  intro k s
  unfold onTask
  rw [show (s.recount k).task = s.task from rfl]
  cases f s.task with
  | ok a => rfl
  | error e => rfl

theorem oblivious_modifyTask (f : Task → Task) : Oblivious (modifyTask f) := fun _ _ => rfl

theorem oblivious_create (f : Heap → α × Heap) : Oblivious (create f) := fun _ _ => rfl

theorem oblivious_emit (e : Event) : Oblivious (emit e) := fun _ _ => rfl

theorem oblivious_note (a : Act) : Oblivious (note a) := fun _ _ => rfl

theorem oblivious_touch (x : Touch) : Oblivious (touch x) := fun _ _ => rfl

theorem oblivious_push (v : Value) : Oblivious (push v) := fun _ _ => rfl

theorem oblivious_take (height : Nat) : Oblivious (take height) := fun _ _ => rfl

theorem oblivious_pop : Oblivious pop := by
  refine oblivious_bind (oblivious_onTask _) fun v => ?_
  refine oblivious_get_bind (fun _ _ => rfl) fun s => ?_
  exact oblivious_bind (oblivious_take _) fun _ => oblivious_pure v

theorem oblivious_peek : Oblivious peek :=
  oblivious_get_bind (fun _ _ => rfl) fun _ => oblivious_ofExcept _

theorem oblivious_popMany (n : Nat) : Oblivious (popMany n) := by
  refine oblivious_bind (oblivious_onTask _) fun vs => ?_
  refine oblivious_get_bind (fun _ _ => rfl) fun s => ?_
  exact oblivious_bind (oblivious_take _) fun _ => oblivious_pure vs

/-! ## Operands -/

theorem oblivious_frame : Oblivious frame :=
  oblivious_get_bind (fun _ _ => rfl) fun _ => oblivious_ofExcept _

theorem oblivious_invalid (reason : String) : Oblivious (invalid reason : Exec α) :=
  oblivious_get_bind (fun _ _ => rfl) fun _ => oblivious_raise _

theorem oblivious_readByte : Oblivious readByte := by
  refine oblivious_bind oblivious_frame fun f => oblivious_get_bind (fun _ _ => rfl) fun s => ?_
  refine oblivious_bind (oblivious_ofExcept _) fun r => ?_
  exact oblivious_bind (oblivious_modifyTask _) fun _ => oblivious_pure _

theorem oblivious_readWord : Oblivious readWord :=
  oblivious_bind oblivious_readByte fun _ => oblivious_bind oblivious_readByte fun _ =>
    oblivious_pure _

theorem oblivious_readOffset : Oblivious readOffset :=
  oblivious_bind oblivious_readWord fun _ => oblivious_pure _

theorem oblivious_jump (offset : Int) : Oblivious (jump offset) := by
  refine oblivious_bind oblivious_frame fun f => oblivious_get_bind (fun _ _ => rfl) fun s => ?_
  exact oblivious_bind (oblivious_ofExcept _) fun _ => oblivious_modifyTask _

theorem oblivious_constant (index : Nat) : Oblivious (constant index) :=
  oblivious_bind oblivious_frame fun _ => oblivious_get_bind (fun _ _ => rfl) fun _ =>
    oblivious_ofExcept _

theorem oblivious_readName : Oblivious readName := by
  refine oblivious_bind oblivious_readWord fun w => ?_
  refine oblivious_bind (oblivious_constant w) fun v => ?_
  split
  · exact oblivious_pure _
  · exact oblivious_invalid _

theorem oblivious_readBytes : ∀ n, Oblivious (readBytes n)
  | 0 => oblivious_pure _
  | n + 1 => oblivious_bind oblivious_readByte fun _ =>
      oblivious_bind (oblivious_readBytes n) fun _ => oblivious_pure _

theorem oblivious_localIndex (slot : Nat) : Oblivious (localIndex slot) := by
  refine oblivious_bind oblivious_frame fun f => oblivious_get_bind (fun _ _ => rfl) fun s => ?_
  split
  · exact oblivious_pure _
  · exact oblivious_invalid _

theorem oblivious_setSlot (index : Nat) (v : Value) : Oblivious (setSlot index v) :=
  oblivious_bind (oblivious_modifyTask _) fun _ => oblivious_get_bind (fun _ _ => rfl) fun _ =>
    oblivious_note _

theorem oblivious_pushLocal (slot : Nat) : Oblivious (pushLocal slot) := by
  refine oblivious_bind (oblivious_localIndex slot) fun index => ?_
  refine oblivious_get_bind (fun _ _ => rfl) fun s => ?_
  exact oblivious_bind (oblivious_note _) fun _ => oblivious_push _

/-! ## Variables -/

theorem oblivious_readUpvalue : Oblivious readUpvalue := by
  refine oblivious_bind oblivious_readByte fun index => oblivious_bind oblivious_frame fun f => ?_
  refine oblivious_get_bind (fun _ _ => rfl) fun s => ?_
  split
  · exact oblivious_pure _
  · exact oblivious_invalid _

theorem oblivious_readCell (cell : CellId) : Oblivious (readCell cell) :=
  oblivious_get_bind (fun _ _ => rfl) fun _ =>
    oblivious_bind (oblivious_note _) fun _ => oblivious_pure _

theorem setSlotOf_recount (task : TaskId) (slot : Nat) (v : Value) (k : Nat) (s : Turn) :
    setSlotOf task slot v (s.recount k) = (setSlotOf task slot v s).recount k := by
  unfold setSlotOf
  rw [show (s.recount k).task = s.task from rfl,
    show (s.recount k).vm.scheduler = s.vm.scheduler from rfl]
  dsimp only
  split
  · rfl
  · split <;> rfl

theorem oblivious_writeCell (cell : CellId) (v : Value) : Oblivious (writeCell cell v) := by
  refine oblivious_bind (oblivious_note _) fun _ => oblivious_get_bind (fun _ _ => rfl) fun s => ?_
  split
  · exact oblivious_modify fun _ _ => rfl
  · exact oblivious_bind (oblivious_touch _) fun _ => oblivious_modify (setSlotOf_recount _ _ v)

theorem oblivious_globalSlot (index : Nat) : Oblivious (globalSlot index) := by
  refine oblivious_get_bind (fun _ _ => rfl) fun s => oblivious_bind oblivious_frame fun f => ?_
  dsimp only
  split
  · exact oblivious_pure _
  · split
    · split
      · exact oblivious_bind (oblivious_modify fun _ _ => rfl) fun _ => oblivious_pure _
      · exact oblivious_raise _
    · exact oblivious_invalid _

theorem setGlobal_recount (vm : Vm) (name : String) (v : Value) (k : Nat) :
    (vm.recount k).setGlobal name v = (vm.setGlobal name v).recount k := by
  unfold Vm.setGlobal
  dsimp only
  rw [apply_ite (Vm.recount k)]
  rfl

theorem oblivious_setGlobal (name : String) (v : Value) : Oblivious (setGlobal name v) := by
  refine oblivious_modify fun k s => ?_
  exact congrArg (fun vm => { s with vm }) (setGlobal_recount s.vm name v k)

/-! ## Operations on the stack -/

theorem oblivious_binary (op : Heap → Value → Value → Except RuntimeError Value) :
    Oblivious (binary op) := by
  refine oblivious_bind oblivious_pop fun b => oblivious_bind oblivious_pop fun a => ?_
  refine oblivious_get_bind (fun _ _ => rfl) fun s => ?_
  exact oblivious_bind (oblivious_ofExcept _) fun _ => oblivious_push _

theorem oblivious_equality (wanted : Bool) : Oblivious (equality wanted) := by
  refine oblivious_bind oblivious_pop fun b => oblivious_bind oblivious_pop fun a => ?_
  refine oblivious_get_bind (fun _ _ => rfl) fun s => ?_
  split
  · exact oblivious_push _
  · exact oblivious_throw _

theorem oblivious_ordering (test : Ordering → Bool) : Oblivious (ordering test) := by
  refine oblivious_bind oblivious_pop fun b => oblivious_bind oblivious_pop fun a => ?_
  exact oblivious_bind (oblivious_ofExcept _) fun _ => oblivious_push _

theorem oblivious_popChannel : Oblivious popChannel :=
  oblivious_bind oblivious_pop fun _ => oblivious_get_bind (fun _ _ => rfl) fun _ =>
    oblivious_ofExcept _

theorem oblivious_popKey : Oblivious popKey :=
  oblivious_bind oblivious_pop fun _ => oblivious_get_bind (fun _ _ => rfl) fun _ =>
    oblivious_pure _

theorem oblivious_setMap (id : MapId) (m : OrderedMap Value) : Oblivious (setMap id m) :=
  oblivious_modify fun _ _ => rfl

theorem oblivious_pushArray (items : List Value) : Oblivious (pushArray items) :=
  oblivious_bind (oblivious_create _) fun _ => oblivious_push _

theorem oblivious_pushMap (pairs : Nat) : Oblivious (pushMap pairs) := by
  refine oblivious_bind (oblivious_popMany _) fun flat => ?_
  refine oblivious_get_bind (fun _ _ => rfl) fun s => ?_
  exact oblivious_bind (oblivious_create _) fun _ => oblivious_push _

theorem oblivious_pushFirst : ∀ (n : Nat) (vs : List Value), Oblivious (pushFirst n vs)
  | 0, _ => oblivious_pure _
  | n + 1, vs => oblivious_bind (oblivious_push _) fun _ => oblivious_pushFirst n vs.tail

theorem oblivious_writeLine (line : String) : Oblivious (writeLine line) :=
  oblivious_modify fun _ _ => rfl

theorem oblivious_touchIteration (left : Nat) : Oblivious (touchIteration left) :=
  oblivious_get_bind (fun _ _ => rfl) fun _ => oblivious_touch _

theorem oblivious_nextItem : Oblivious nextItem := by
  refine oblivious_get_bind (fun _ _ => rfl) fun s => ?_
  split
  · refine oblivious_bind (oblivious_touchIteration _) fun _ => ?_
    exact oblivious_bind (oblivious_modifyTask _) fun _ => oblivious_pure _
  · exact oblivious_invalid _

theorem oblivious_endIteration : Oblivious endIteration := by
  refine oblivious_get_bind (fun _ _ => rfl) fun s => ?_
  split
  · exact oblivious_bind (oblivious_touchIteration _) fun _ => oblivious_modifyTask _
  · exact oblivious_invalid _

theorem oblivious_dropHandler : Oblivious dropHandler := by
  refine oblivious_get_bind (fun _ _ => rfl) fun s => ?_
  dsimp only
  split
  · exact oblivious_bind (oblivious_touch _) fun _ => oblivious_modifyTask _
  · exact oblivious_pure _

theorem oblivious_tryBegin : Oblivious tryBegin := by
  refine oblivious_bind oblivious_readOffset fun offset => ?_
  refine oblivious_get_bind (fun _ _ => rfl) fun s => oblivious_bind oblivious_frame fun f => ?_
  split
  · exact oblivious_invalid _
  · exact oblivious_modifyTask _

theorem oblivious_tryEnd : Oblivious tryEnd := oblivious_modifyTask _

theorem oblivious_dropFrame (f : Frame) (callers : List Frame) :
    Oblivious (dropFrame f callers) := oblivious_modify fun _ _ => rfl

theorem oblivious_leaveFrame (result : Value) : Oblivious (leaveFrame result) := by
  refine oblivious_get_bind (fun _ _ => rfl) fun s => ?_
  split
  · exact oblivious_pure _
  · refine oblivious_get_bind (fun _ _ => rfl) fun s => ?_
    refine oblivious_bind (oblivious_emit _) fun _ => ?_
    refine oblivious_bind (oblivious_dropFrame _ _) fun _ => ?_
    split
    · exact oblivious_pure _
    · exact oblivious_bind (oblivious_push _) fun _ => oblivious_pure _

/-! ## Calls -/

theorem oblivious_bindArguments (t : Template) (argc : Nat) :
    Oblivious (bindArguments t argc) := by
  unfold bindArguments
  dsimp only
  split
  · split
    · exact oblivious_raise _
    · refine oblivious_bind (oblivious_popMany _) fun extras => ?_
      refine oblivious_bind (oblivious_create _) fun id => ?_
      exact oblivious_bind (oblivious_push _) fun _ => oblivious_pure _
  · split
    · exact oblivious_pure _
    · exact oblivious_raise _

theorem oblivious_enterFrame (f : Frame) (locals : Array Value) :
    Oblivious (enterFrame f locals) :=
  oblivious_bind (oblivious_take _) fun _ => oblivious_modifyTask _

theorem oblivious_callClosure (closure : ClosureId) (argc : Nat) :
    Oblivious (callClosure closure argc) := by
  refine oblivious_get_bind (fun _ _ => rfl) fun s => ?_
  refine oblivious_bind (oblivious_bindArguments _ argc) fun params => ?_
  refine oblivious_get_bind (fun _ _ => rfl) fun s => ?_
  dsimp only
  split
  · exact oblivious_raise _
  · split
    · exact oblivious_raise _
    · split
      · exact oblivious_raise _
      · exact oblivious_bind (oblivious_emit _) fun _ => oblivious_enterFrame _ _

theorem recordNativeCall_recount (p : Profiler) (k : Nat) :
    ({ p with taskSwitches := k } : Profiler).recordNativeCall =
      { p.recordNativeCall with taskSwitches := k } := by
  unfold Profiler.recordNativeCall
  dsimp only
  split <;> rfl

theorem oblivious_callNative (id : NativeId) (args : List Value) :
    Oblivious (callNative id args) := by
  refine oblivious_bind (oblivious_modify fun k s => ?_) fun _ => ?_
  · exact congrArg (fun profiler => { s with vm := { s.vm with profiler } })
      (recordNativeCall_recount s.vm.profiler k)
  · exact oblivious_get_bind (fun _ _ => rfl) fun s => oblivious_onHeap _

theorem oblivious_resolveMethod (receiver : Value) (method : String) :
    Oblivious (resolveMethod receiver method) := by
  unfold resolveMethod
  dsimp only
  split
  · exact oblivious_raise _
  · refine oblivious_get_bind (fun _ _ => rfl) fun s => ?_
    refine oblivious_bind (oblivious_modify fun _ _ => rfl) fun _ => ?_
    split
    · exact oblivious_pure _
    · exact oblivious_raise _

theorem oblivious_callValue (callee : Value) (argc : Nat) : Oblivious (callValue callee argc) := by
  unfold callValue
  split
  · exact oblivious_callClosure _ argc
  · refine oblivious_bind (oblivious_popMany argc) fun args => ?_
    exact oblivious_bind (oblivious_callNative _ args) fun _ => oblivious_push _
  · refine oblivious_bind (oblivious_resolveMethod _ _) fun n => ?_
    refine oblivious_bind (oblivious_popMany argc) fun args => ?_
    exact oblivious_bind (oblivious_callNative n _) fun _ => oblivious_push _
  · exact oblivious_raise _

theorem oblivious_readCaptures : ∀ n, Oblivious (readCaptures n)
  | 0 => oblivious_pure _
  | n + 1 => oblivious_bind oblivious_readByte fun _ => oblivious_bind oblivious_readByte fun _ =>
      oblivious_bind (oblivious_readCaptures n) fun _ => oblivious_pure _

theorem oblivious_captureSlot (slot : Nat) : Oblivious (captureSlot slot) := fun _ _ => rfl

theorem oblivious_captureCells (f : Frame) : ∀ captures, Oblivious (captureCells f captures)
  | [] => oblivious_pure _
  | c :: cs => by
    refine oblivious_bind ?_ fun cell =>
      oblivious_bind (oblivious_captureCells f cs) fun _ => oblivious_pure _
    unfold captureCell
    split
    · exact oblivious_captureSlot _
    · refine oblivious_get_bind (fun _ _ => rfl) fun s => ?_
      split
      · exact oblivious_pure _
      · exact oblivious_raise _

theorem oblivious_makeClosure : Oblivious makeClosure := by
  refine oblivious_bind oblivious_readWord fun w => ?_
  refine oblivious_bind (oblivious_constant w) fun v => ?_
  split
  · refine oblivious_bind oblivious_readByte fun n => ?_
    refine oblivious_bind (oblivious_readCaptures n) fun captures => ?_
    refine oblivious_bind oblivious_frame fun f => ?_
    refine oblivious_bind (oblivious_captureCells f captures) fun cells => ?_
    exact oblivious_bind (oblivious_create _) fun _ => oblivious_push _
  · exact oblivious_raise _

theorem oblivious_withTask (task : Task) {x : Exec Unit} (hx : Oblivious x) :
    Oblivious (withTask task x) := by
  intro k s
  have hk := hx k { s with task }
  unfold withTask
  rw [show { s.recount k with task } = Turn.recount k { s with task } from rfl, hk]
  cases x { s with task } with
  | ok a s' => rfl
  | error e s' => rfl

/-- Replacing the state by another one that has the same count. -/
theorem oblivious_get_set {α : Type} {f : Turn → Turn} {g : Turn → Exec α}
    (hf : ∀ k s, f (s.recount k) = (f s).recount k) (he : ∀ k s, g (s.recount k) = g s)
    (hg : ∀ s, Oblivious (g s)) :
    Oblivious (do let s ← get; set (f s); g s : Exec α) := by
  intro k s
  rw [get_bind_apply, get_bind_apply, set_bind_apply, set_bind_apply, hf, he]
  exact hg s k (f s)

theorem oblivious_spawn (callee : Value) (args : List Value) : Oblivious (spawn callee args) := by
  unfold spawn
  split
  · rename_i c
    refine oblivious_get_set (fun _ _ => rfl) (fun _ _ => rfl) fun s => ?_
    refine oblivious_bind (oblivious_withTask _ (oblivious_callClosure c _)) fun child => ?_
    exact oblivious_bind (oblivious_modify fun _ _ => rfl) fun _ => oblivious_pure _
  · exact oblivious_raise _

/-! ## Channels -/

theorem oblivious_begin (op : Operation) : Oblivious (begin op) :=
  oblivious_get_bind (fun _ _ => rfl) fun _ => oblivious_note _

theorem oblivious_wake (w : Waiter) (r : Resume) : Oblivious (wake w r) :=
  oblivious_modify fun _ _ => rfl

theorem oblivious_setChannel (id : ChannelId) (c : Channel) : Oblivious (setChannel id c) :=
  oblivious_modify fun _ _ => rfl

theorem oblivious_trySend (id : ChannelId) (v : Value) : Oblivious (trySend id v) := by
  refine oblivious_get_bind (fun _ _ => rfl) fun s => ?_
  dsimp only
  refine oblivious_bind (oblivious_setChannel id _) fun _ => ?_
  split
  · refine oblivious_bind (oblivious_note _) fun _ => ?_
    exact oblivious_bind (oblivious_wake _ _) fun _ => oblivious_pure _
  · exact oblivious_bind (oblivious_note _) fun _ => oblivious_pure _
  · exact oblivious_bind (oblivious_note _) fun _ => oblivious_pure _
  · exact oblivious_bind (oblivious_pure _) fun _ => oblivious_pure _

theorem oblivious_tryReceive (id : ChannelId) : Oblivious (tryReceive id) := by
  refine oblivious_get_bind (fun _ _ => rfl) fun s => ?_
  dsimp only
  refine oblivious_bind (oblivious_setChannel id _) fun _ => ?_
  split
  · refine oblivious_bind (oblivious_note _) fun _ => ?_
    exact oblivious_bind (oblivious_wake _ _) fun _ => oblivious_pure _
  · exact oblivious_bind (oblivious_note _) fun _ => oblivious_pure _
  · exact oblivious_bind (oblivious_note _) fun _ => oblivious_pure _
  · exact oblivious_bind (oblivious_pure _) fun _ => oblivious_pure _

theorem oblivious_park (live : Waiter → Bool) (id : ChannelId) (w : Waiter)
    (offer : Option Value) : Oblivious (park live id w offer) :=
  oblivious_get_bind (fun _ _ => rfl) fun _ =>
    oblivious_bind (oblivious_setChannel id _) fun _ => oblivious_note _

theorem oblivious_channelSend (id : ChannelId) (v : Value) : Oblivious (channelSend id v) := by
  refine oblivious_bind (oblivious_begin _) fun _ => ?_
  refine oblivious_bind (oblivious_trySend id v) fun outcome => ?_
  split
  · exact oblivious_bind (oblivious_push _) fun _ => oblivious_pure _
  · exact oblivious_raise _
  · refine oblivious_get_bind (fun _ _ => rfl) fun s => ?_
    exact oblivious_bind (oblivious_park _ id _ _) fun _ => oblivious_pure _

theorem oblivious_channelReceive (id : ChannelId) : Oblivious (channelReceive id) := by
  refine oblivious_bind (oblivious_begin _) fun _ => ?_
  refine oblivious_bind (oblivious_tryReceive id) fun outcome => ?_
  split
  · exact oblivious_bind (oblivious_push _) fun _ => oblivious_pure _
  · exact oblivious_bind (oblivious_push _) fun _ => oblivious_pure _
  · refine oblivious_get_bind (fun _ _ => rfl) fun s => ?_
    exact oblivious_bind (oblivious_park _ id _ _) fun _ => oblivious_pure _

theorem oblivious_wakeAll (f : Waiter → Resume) : ∀ ws : List Waiter,
    Oblivious (ws.forM fun w => wake w (f w))
  | [] => oblivious_pure _
  | w :: ws => oblivious_bind (oblivious_wake w (f w)) fun _ => oblivious_wakeAll f ws

theorem oblivious_channelClose (id : ChannelId) : Oblivious (channelClose id) := by
  refine oblivious_get_bind (fun _ _ => rfl) fun s => ?_
  split
  · exact oblivious_raise _
  · refine oblivious_bind (oblivious_setChannel id _) fun _ => ?_
    refine oblivious_bind (oblivious_wakeAll _ _) fun _ => ?_
    exact oblivious_bind (oblivious_wakeAll _ _) fun _ => oblivious_note _

theorem oblivious_tryCase (case : SelectCase) : Oblivious (tryCase case) := by
  unfold tryCase
  split
  · refine oblivious_bind (oblivious_tryReceive _) fun outcome => ?_
    split <;> exact oblivious_pure _
  · refine oblivious_bind (oblivious_trySend _ _) fun outcome => ?_
    split
    · exact oblivious_pure _
    · exact oblivious_raise _
    · exact oblivious_pure _

theorem oblivious_drawCase (ready : List Nat) : Oblivious (drawCase ready) := fun _ _ => rfl

theorem oblivious_parkCases : ∀ cases, Oblivious (parkCases cases)
  | [] => oblivious_pure _
  | (case, index) :: rest => by
    refine oblivious_get_bind (fun _ _ => rfl) fun s => ?_
    dsimp only
    split
    · exact oblivious_bind (oblivious_park _ _ _ _) fun _ => oblivious_parkCases rest
    · exact oblivious_bind (oblivious_park _ _ _ _) fun _ => oblivious_parkCases rest

theorem oblivious_pushSelected (v : Value) (index : Int) : Oblivious (pushSelected v index) :=
  oblivious_bind (oblivious_push _) fun _ => oblivious_push _

theorem oblivious_selectReady (cases : List SelectCase) : Oblivious (selectReady cases) := by
  refine oblivious_get_bind (fun _ _ => rfl) fun s => ?_
  dsimp only
  split
  · exact oblivious_pure _
  · refine oblivious_bind (oblivious_drawCase _) fun index => ?_
    split
    · exact oblivious_pure _
    · refine oblivious_bind (oblivious_tryCase _) fun outcome => ?_
      split <;> exact oblivious_pure _

theorem oblivious_select (cases : List SelectCase) (hasDefault : Bool) :
    Oblivious (select cases hasDefault) := by
  refine oblivious_bind (oblivious_begin _) fun _ => ?_
  refine oblivious_bind (oblivious_selectReady cases) fun chosen => ?_
  split
  · exact oblivious_bind (oblivious_pushSelected _ _) fun _ => oblivious_pure _
  · split
    · exact oblivious_bind (oblivious_pushSelected _ _) fun _ => oblivious_pure _
    · exact oblivious_bind (oblivious_parkCases _) fun _ => oblivious_pure _

theorem oblivious_popCases : ∀ kinds, Oblivious (popCases kinds)
  | [] => oblivious_pure _
  | kind :: kinds => by
    unfold popCases
    dsimp only
    split
    · refine oblivious_bind oblivious_pop fun v => oblivious_bind oblivious_popChannel fun c => ?_
      refine oblivious_bind (oblivious_pure _) fun case => ?_
      exact oblivious_bind (oblivious_popCases kinds) fun _ => oblivious_pure _
    · refine oblivious_bind oblivious_popChannel fun c => ?_
      refine oblivious_bind (oblivious_pure _) fun case => ?_
      exact oblivious_bind (oblivious_popCases kinds) fun _ => oblivious_pure _

theorem oblivious_selectOperands : Oblivious selectOperands := by
  refine oblivious_bind oblivious_readByte fun count => ?_
  refine oblivious_bind oblivious_readByte fun flags => ?_
  refine oblivious_bind (oblivious_readBytes count) fun kinds => ?_
  exact oblivious_bind (oblivious_popCases _) fun _ => oblivious_pure _

/-! ## Instructions -/

theorem oblivious_execute (op : Opcode) : Oblivious (execute op) := by
  cases op
  all_goals
    unfold execute
    dsimp only
    -- An instruction is put together from the primitives above and chooses by its operands alone,
    -- so the lemmas are tried in the order of the primitives.
    repeat' first
      | with_reducible exact oblivious_pure _
      | with_reducible exact oblivious_raise _
      | with_reducible exact oblivious_invalid _
      | with_reducible exact oblivious_ofExcept _
      | with_reducible exact oblivious_create _
      | with_reducible exact oblivious_modify fun _ _ => rfl
      | with_reducible exact oblivious_modifyTask _
      | with_reducible exact oblivious_push _
      | with_reducible exact oblivious_pop
      | with_reducible exact oblivious_popMany _
      | with_reducible exact oblivious_peek
      | with_reducible exact oblivious_readByte
      | with_reducible exact oblivious_readWord
      | with_reducible exact oblivious_readOffset
      | with_reducible exact oblivious_readName
      | with_reducible exact oblivious_constant _
      | with_reducible exact oblivious_jump _
      | with_reducible exact oblivious_localIndex _
      | with_reducible exact oblivious_setSlot _ _
      | with_reducible exact oblivious_pushLocal _
      | with_reducible exact oblivious_readUpvalue
      | with_reducible exact oblivious_readCell _
      | with_reducible exact oblivious_writeCell _ _
      | with_reducible exact oblivious_globalSlot _
      | with_reducible exact oblivious_setGlobal _ _
      | with_reducible exact oblivious_binary _
      | with_reducible exact oblivious_equality _
      | with_reducible exact oblivious_ordering _
      | with_reducible exact oblivious_callValue _ _
      | with_reducible exact oblivious_makeClosure
      | with_reducible exact oblivious_leaveFrame _
      | with_reducible exact oblivious_pushArray _
      | with_reducible exact oblivious_pushMap _
      | with_reducible exact oblivious_pushFirst _ _
      | with_reducible exact oblivious_popKey
      | with_reducible exact oblivious_setMap _ _
      | with_reducible exact oblivious_writeLine _
      | with_reducible exact oblivious_nextItem
      | with_reducible exact oblivious_endIteration
      | with_reducible exact oblivious_dropHandler
      | with_reducible exact oblivious_tryBegin
      | with_reducible exact oblivious_tryEnd
      | with_reducible exact oblivious_spawn _ _
      | with_reducible exact oblivious_popChannel
      | with_reducible exact oblivious_channelSend _ _
      | with_reducible exact oblivious_channelReceive _
      | with_reducible exact oblivious_channelClose _
      | with_reducible exact oblivious_selectOperands
      | with_reducible exact oblivious_select _ _
      | with_reducible refine oblivious_get_bind (fun _ _ => rfl) fun _ => ?_
      | with_reducible refine oblivious_bind ?_ fun _ => ?_
      | split

theorem recordInstruction_recount (p : Profiler) (op : Opcode) (k : Nat) :
    ({ p with taskSwitches := k } : Profiler).recordInstruction op =
      { p.recordInstruction op with taskSwitches := k } := by
  unfold Profiler.recordInstruction
  dsimp only
  split <;> rfl

theorem oblivious_countInstruction (op : Opcode) : Oblivious (countInstruction op) := by
  refine oblivious_bind (oblivious_modify fun k s => ?_) fun _ => ?_
  · exact congrArg (fun profiler => { s with vm := { s.vm with
      profiler, instructions := s.vm.instructions + 1 } })
      (recordInstruction_recount s.vm.profiler op k)
  · refine oblivious_get_bind (fun _ _ => rfl) fun s => ?_
    dsimp only
    split
    · split
      · exact oblivious_raise _
      · exact oblivious_pure _
    · exact oblivious_pure _

theorem oblivious_fetch : Oblivious fetch := by
  refine oblivious_bind oblivious_frame fun f => oblivious_get_bind (fun _ _ => rfl) fun s => ?_
  split
  · exact oblivious_raise _
  · split
    · exact oblivious_raise _
    · exact oblivious_bind (oblivious_modifyTask _) fun _ => oblivious_pure _

theorem oblivious_step : Oblivious step := by
  refine oblivious_bind ?_ fun flow => oblivious_get_bind (fun _ _ => rfl) fun s => ?_
  · refine oblivious_bind oblivious_fetch fun op => ?_
    exact oblivious_bind (oblivious_countInstruction op) fun _ => oblivious_execute op
  · split
    · exact oblivious_raise _
    · exact oblivious_pure _

end Exec

/-! ## Turns -/

namespace Turn

variable (k : Nat) (s : Turn)

theorem oblivious_resumeWith (r : Resume) : Oblivious (resumeWith r) := by
  cases r with
  | value v => exact oblivious_bind (oblivious_push v) fun _ => oblivious_pure _
  | selected index v =>
    exact oblivious_bind (oblivious_pushSelected v index) fun _ => oblivious_pure _
  | error e => exact oblivious_pure _

theorem unwind_recount (v : Value) :
    (s.recount k).unwind v = ((s.unwind v).1, (s.unwind v).2.recount k) := by
  unfold unwind
  rw [show (s.recount k).task = s.task from rfl]
  split
  · rfl
  · dsimp only
    rw [show (s.recount k).heap = s.heap from rfl]
    split <;> rfl

theorem follow_recount (flow : Flow) :
    (s.recount k).follow flow = ((s.follow flow).1, (s.follow flow).2.recount k) := by
  cases flow with
  | thrown v => exact unwind_recount k s v
  | _ => rfl

theorem recover_recount (fault : Fault) :
    (s.recount k).recover fault = ((s.recover fault).1, (s.recover fault).2.recount k) := by
  cases fault with
  | endless => rfl
  | raised e =>
    by_cases he : e.isFatal
    · have hr : ∀ s : Turn, s.recover (.raised e) = (some (.failed ⟨e, s.task.trace s.heap⟩),
          { s with events := s.events ++ [.raised s.task.id e] }) := fun s => if_pos he
      rw [hr, hr]
      rfl
    · have hr : ∀ s : Turn, s.recover (.raised e) =
          ({ s with events := s.events ++ [.raised s.task.id e] } : Turn).unwind (.error e) :=
        fun s => if_neg he
      rw [hr, hr]
      exact unwind_recount k { s with events := s.events ++ [.raised s.task.id e] } (.error e)

theorem perform_recount {x : Exec Flow} (hx : Oblivious x) :
    (s.recount k).perform x = ((s.perform x).1, (s.perform x).2.recount k) := by
  unfold perform
  rw [hx k s]
  cases x s with
  | ok flow s' => exact follow_recount k s' flow
  | error e s' => exact recover_recount k s' e

/-- **A turn goes on in the same way whatever has been counted.** -/
theorem advance_recount :
    (s.recount k).advance = (s.advance.1, s.advance.2.recount k) := by
  unfold advance
  rw [show (s.recount k).task = s.task from rfl, show (s.recount k).heap = s.heap from rfl]
  split
  · rename_i r hr
    exact perform_recount k { s with
      acts := s.acts ++ [.resumed s.task.id r]
      task := { s.task with resume := none } } (oblivious_resumeWith r)
  · split
    · rfl
    · split
      · exact perform_recount k s (oblivious_leaveFrame _)
      · exact perform_recount k s oblivious_step

end Turn

/-! ## Ticks -/

/-- The machines differ in the count of turns at most. -/
def Machine.Twin (m m' : Machine) : Prop := ∃ k, m' = m.recount k

/-- The ticks differ in the machines' count of turns at most. -/
structure Tick.Twin (t t' : Tick) : Prop where
  machine : t.machine.Twin t'.machine
  events : t'.events = t.events
  acts : t'.acts = t.acts
  scene : t'.scene = t.scene
  outcome : t'.outcome = t.outcome

namespace Machine

variable {m m' m'' : Machine}

theorem twin_recount (m : Machine) (k : Nat) : m.Twin (m.recount k) := ⟨k, rfl⟩

theorem Twin.refl (m : Machine) : m.Twin m := ⟨m.vm.profiler.taskSwitches, rfl⟩

theorem Twin.symm (h : m.Twin m') : m'.Twin m := by
  obtain ⟨k, rfl⟩ := h
  exact ⟨m.vm.profiler.taskSwitches, rfl⟩

theorem Twin.trans (h : m.Twin m') (h' : m'.Twin m'') : m.Twin m'' := by
  obtain ⟨k, rfl⟩ := h
  obtain ⟨k', rfl⟩ := h'
  exact ⟨k', rfl⟩

theorem Twin.offer (h : m.Twin m') : m'.offer? = m.offer? := by
  obtain ⟨k, rfl⟩ := h
  rfl

theorem endTurn_recount (m : Machine) (task : Task) (o : TurnEnd) (k : Nat) :
    endTurn (m.recount k) task o = ((endTurn m task o).1.recount k, (endTurn m task o).2) := by
  cases o with
  | completed result =>
    by_cases hmain : m.vm.main = some task.id
    · rw [endTurn, endTurn, if_pos hmain]
      exact if_pos hmain
    · rw [endTurn, endTurn, if_neg hmain]
      exact if_neg hmain
  | failed failure =>
    by_cases hend : (m.vm.main = some task.id || failure.error.isFatal) = true
    · rw [endTurn, endTurn, if_pos hend]
      exact if_pos hend
    · rw [endTurn, endTurn, if_neg hend]
      exact if_neg hend
  | _ => rfl

theorem recordTaskSwitch_recount (p : Profiler) (k : Nat) :
    ∃ k', ({ p with taskSwitches := k } : Profiler).recordTaskSwitch =
      { p.recordTaskSwitch with taskSwitches := k' } := by
  unfold Profiler.recordTaskSwitch
  dsimp only
  split
  · exact ⟨k + 1, rfl⟩
  · exact ⟨k, rfl⟩

/-- The next task has its turn, and the turn is counted. -/
theorem Twin.dispatch (h : m.Twin m') : m.dispatch.Twin m'.dispatch := by
  obtain ⟨k, rfl⟩ := h
  unfold Machine.dispatch
  rw [show (m.recount k).vm.scheduler = m.vm.scheduler from rfl,
    show (m.recount k).heap = m.heap from rfl]
  split
  · exact ⟨⟨k, rfl⟩, rfl, rfl, rfl, rfl⟩
  · rename_i task scheduler heap _
    obtain ⟨k', hk'⟩ := recordTaskSwitch_recount m.vm.profiler k
    refine ⟨⟨k', ?_⟩, rfl, rfl, rfl, rfl⟩
    exact congrArg (fun profiler => { m with
      heap, vm := { m.vm with scheduler, profiler }, running := some task }) hk'

/-- **What a machine does next does not depend on what has been counted.** -/
theorem Twin.tick (h : m.Twin m') : m.tick.Twin m'.tick := by
  cases hr : m.running with
  | none =>
    have hr' : m'.running = none := by
      obtain ⟨k, rfl⟩ := h
      exact hr
    rw [Machine.tick, Machine.tick, hr, hr']
    exact h.dispatch
  | some task =>
    obtain ⟨k, rfl⟩ := h
    have hadvance : ((m.recount k).turn task).advance =
        ((m.turn task).advance.1, (m.turn task).advance.2.recount k) :=
      Turn.advance_recount k (m.turn task)
    rw [Machine.tick, Machine.tick, show (m.recount k).running = some task from hr, hr]
    dsimp only
    rw [hadvance]
    cases ha : (m.turn task).advance with
    | mk o s =>
      cases o with
      | none => exact ⟨⟨k, rfl⟩, rfl, rfl, rfl, rfl⟩
      | some o =>
        have hend := endTurn_recount { ofTurn s with running := none } s.task o k
        have hmachine := congrArg Prod.fst hend
        have houtcome := congrArg Prod.snd hend
        exact ⟨⟨k, hmachine⟩, rfl, rfl, rfl, houtcome⟩

end Machine

end TaskVm
