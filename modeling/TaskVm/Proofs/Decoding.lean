import TaskVm.Proofs.Executing

/-!
# Reading an instruction and doing what it says

Behind its opcode an instruction has operands, and it reads them before it does anything else. So
most instructions come in two parts: at first the innermost frame goes on over the operands, and
then nothing touches frames any more. How many bytes are read is what the layout of code says.

What is done after the reading leaves alone what calls are made of, which is said here of each
part that instructions are made of.
-/

namespace TaskVm

open Exec Relation

/-- Nothing has been called and nothing has been left, no task has begun, and no code has been
read. -/
structure Turn.Stays (s s' : Turn) : Prop where
  events : s'.events = s.events
  id : s'.task.id = s.task.id
  frames : s'.task.frames = s.task.frames
  handlers : s'.task.handlers.Sublist s.task.handlers
  config : s'.vm.config = s.vm.config
  nextId : s'.vm.scheduler.nextId = s.vm.scheduler.nextId

namespace Turn.Stays

variable {s s' : Turn}

instance : IsPreorder Turn Turn.Stays where
  refl _ := ⟨rfl, rfl, rfl, List.Sublist.refl _, rfl, rfl⟩
  trans _ _ _ h h' := ⟨h'.events.trans h.events, h'.id.trans h.id,
    h'.frames.trans h.frames, h'.handlers.trans h.handlers, h'.config.trans h.config,
    h'.nextId.trans h.nextId⟩

theorem refl (s : Turn) : s.Stays s := refl_of Turn.Stays s

theorem trans {s'' : Turn} (h : s.Stays s') (h' : s'.Stays s'') : s.Stays s'' :=
  trans_of Turn.Stays h h'

/-- Only what is of no concern to calls has changed. -/
theorem of_eq (he : s'.events = s.events) (hv : s'.vm = s.vm) (hid : s'.task.id = s.task.id)
    (hf : s'.task.frames = s.task.frames) (hh : s'.task.handlers = s.task.handlers) :
    s.Stays s' := by
  refine ⟨he, hid, hf, hh ▸ List.Sublist.refl _, congrArg Vm.config hv, ?_⟩
  rw [hv]

end Turn.Stays

namespace Exec

variable {α : Type} (s : Turn)

/-! ## Parts of instructions -/

theorem stays_raise (e : RuntimeError) : Leads Turn.Stays (raise e : Exec α) s := leads_throw _ s

theorem stays_ofExcept (x : Except RuntimeError α) : Leads Turn.Stays (Exec.ofExcept x) s := by
  cases x with
  | ok a => exact leads_pure a s
  | error e => exact stays_raise s e

theorem stays_onHeap (x : HeapM α) : Leads Turn.Stays (onHeap x) s := by
  unfold Leads endState onHeap
  cases x s.heap with
  | ok a heap => exact .of_eq rfl rfl rfl rfl rfl
  | error e heap => exact .of_eq rfl rfl rfl rfl rfl

theorem stays_create (f : Heap → α × Heap) : Leads Turn.Stays (create f) s :=
  .of_eq rfl rfl rfl rfl rfl

theorem stays_note (a : Act) : Leads Turn.Stays (note a) s := .of_eq rfl rfl rfl rfl rfl

theorem stays_touch (x : Touch) : Leads Turn.Stays (touch x) s := .of_eq rfl rfl rfl rfl rfl

theorem stays_push (v : Value) : Leads Turn.Stays (push v) s := .of_eq rfl rfl rfl rfl rfl

theorem stays_modifyHeap (f : Turn → Heap) :
    Leads Turn.Stays (modify fun s => { s with heap := f s } : Exec PUnit) s :=
  .of_eq rfl rfl rfl rfl rfl

theorem stays_popMany (n : Nat) : Leads Turn.Stays (popMany n) s := by
  by_cases h : n ≤ s.task.stack.size
  · exact leads_of_ok (popMany_ok s h) (.of_eq rfl rfl rfl rfl rfl)
  · exact leads_of_error (bind_error (onTask_error s (by rw [Task.popMany, if_neg h])))

theorem stays_pop : Leads Turn.Stays pop s := by
  cases h : s.task.stack.back? with
  | none => exact leads_of_error (bind_error (onTask_error s (by rw [Task.pop, h])))
  | some v => exact leads_of_ok (pop_ok s h) (.of_eq rfl rfl rfl rfl rfl)

theorem stays_peek : Leads Turn.Stays peek s := stays_ofExcept s _

theorem stays_invalid (reason : String) : Leads Turn.Stays (invalid reason : Exec α) s :=
  leads_get_bind (stays_raise s _)

theorem stays_frame : Leads Turn.Stays frame s := stays_ofExcept s _

theorem stays_constant (index : Nat) : Leads Turn.Stays (constant index) s :=
  leads_bind (stays_frame s) fun _ s _ => leads_get_bind (stays_ofExcept s _)

theorem stays_localIndex (slot : Nat) : Leads Turn.Stays (localIndex slot) s := by
  unfold localIndex
  refine leads_bind (stays_frame s) fun f s _ => leads_get_bind ?_
  split
  · exact leads_pure _ s
  · exact stays_invalid s _

theorem stays_setSlot (index : Nat) (v : Value) : Leads Turn.Stays (setSlot index v) s :=
  .of_eq rfl rfl rfl rfl rfl

theorem stays_pushLocal (slot : Nat) : Leads Turn.Stays (pushLocal slot) s :=
  leads_bind (stays_localIndex s slot) fun _ s _ => leads_get_bind <|
    leads_bind (stays_note s _) fun _ s _ => stays_push s _

theorem stays_readCell (cell : CellId) : Leads Turn.Stays (readCell cell) s :=
  .of_eq rfl rfl rfl rfl rfl

/-- A variable may be on the stack of another task, which is all that changes there. -/
theorem stays_writeCell (cell : CellId) (v : Value) : Leads Turn.Stays (writeCell cell v) s := by
  unfold Leads
  obtain ⟨cells, tasks, stack, touched, hs⟩ := writeCell_frame s cell v
  rw [hs]
  exact ⟨rfl, rfl, rfl, List.Sublist.refl _, rfl, rfl⟩

theorem stays_globalSlot (index : Nat) : Leads Turn.Stays (globalSlot index) s := by
  unfold globalSlot
  refine leads_get_bind (leads_bind (stays_frame s) fun f s _ => ?_)
  dsimp only
  split
  · exact leads_pure _ s
  · split
    · split
      · exact leads_bind (stays_modifyHeap s _) fun _ s _ => leads_pure _ s
      · exact stays_raise s _
    · exact stays_invalid s _

theorem stays_setGlobal (name : String) (v : Value) : Leads Turn.Stays (setGlobal name v) s := by
  have halike := s.vm.setGlobal_alike name v
  exact ⟨rfl, rfl, rfl, List.Sublist.refl _, halike.config,
    congrArg Scheduler.nextId halike.scheduler⟩

theorem stays_binary (op : Heap → Value → Value → Except RuntimeError Value) :
    Leads Turn.Stays (binary op) s :=
  leads_bind (stays_pop s) fun _ s _ => leads_bind (stays_pop s) fun _ s _ => leads_get_bind <|
    leads_bind (stays_ofExcept s _) fun _ s _ => stays_push s _

theorem stays_equality (wanted : Bool) : Leads Turn.Stays (equality wanted) s := by
  unfold equality
  refine leads_bind (stays_pop s) fun _ s _ => leads_bind (stays_pop s) fun _ s _ => ?_
  refine leads_get_bind ?_
  split
  · exact stays_push s _
  · exact leads_throw _ s

theorem stays_ordering (test : Ordering → Bool) : Leads Turn.Stays (ordering test) s :=
  leads_bind (stays_pop s) fun _ s _ => leads_bind (stays_pop s) fun _ s _ =>
    leads_bind (stays_ofExcept s _) fun _ s _ => stays_push s _

theorem stays_popKey : Leads Turn.Stays popKey s :=
  leads_bind (stays_pop s) fun _ s _ => leads_get_bind (leads_pure _ s)

theorem stays_pushArray (items : List Value) : Leads Turn.Stays (pushArray items) s :=
  leads_bind (stays_create s _) fun _ s _ => stays_push s _

theorem stays_pushMap (pairs : Nat) : Leads Turn.Stays (pushMap pairs) s :=
  leads_bind (stays_popMany s _) fun _ s _ => leads_get_bind <|
    leads_bind (stays_create s _) fun _ s _ => stays_push s _

theorem stays_pushFirst : ∀ (n : Nat) (vs : List Value) (s : Turn),
    Leads Turn.Stays (pushFirst n vs) s
  | 0, _, s => leads_pure _ s
  | n + 1, vs, s => leads_bind (stays_push s _) fun _ s _ => stays_pushFirst n vs.tail s

theorem stays_setMap (id : MapId) (m : OrderedMap Value) : Leads Turn.Stays (setMap id m) s :=
  stays_modifyHeap s _

theorem stays_writeLine (line : String) : Leads Turn.Stays (writeLine line) s :=
  stays_modifyHeap s _

theorem stays_nextItem : Leads Turn.Stays nextItem s := by
  unfold nextItem
  refine leads_get_bind ?_
  split
  · exact leads_bind (.of_eq rfl rfl rfl rfl rfl) fun _ s _ =>
      leads_bind (.of_eq rfl rfl rfl rfl rfl) fun _ s _ => leads_pure _ s
  · exact stays_invalid s _

theorem stays_endIteration : Leads Turn.Stays endIteration s := by
  unfold endIteration
  refine leads_get_bind ?_
  split
  · exact leads_bind (.of_eq rfl rfl rfl rfl rfl) fun _ s _ => .of_eq rfl rfl rfl rfl rfl
  · exact stays_invalid s _

/-- A handler may be dropped at any time. -/
theorem stays_dropHandler : Leads Turn.Stays dropHandler s := by
  unfold dropHandler
  refine leads_get_bind ?_
  dsimp only
  split
  · rename_i hd rest hh
    exact leads_bind (stays_touch s _) fun _ s' hs => by
      cases hs
      exact ⟨rfl, rfl, rfl, hh ▸ List.sublist_cons_self hd rest, rfl, rfl⟩
  · exact leads_pure _ s

theorem stays_tryEnd : Leads Turn.Stays tryEnd s := by
  unfold Leads tryEnd modifyTask endState
  dsimp only
  split
  · rename_i hd rest hh
    split
    · exact ⟨rfl, rfl, rfl, hh ▸ List.sublist_cons_self hd rest, rfl, rfl⟩
    · exact .refl s
  · exact .refl s

/-! ### Natives and closures -/

theorem stays_callNative (n : NativeId) (args : List Value) :
    Leads Turn.Stays (callNative n args) s :=
  leads_bind (leads_modify ⟨rfl, rfl, rfl, List.Sublist.refl _, rfl, rfl⟩) fun _ s _ =>
    leads_get_bind (stays_onHeap s _)

theorem stays_resolveMethod (receiver : Value) (method : String) :
    Leads Turn.Stays (resolveMethod receiver method) s := by
  unfold resolveMethod
  dsimp only
  split
  · exact stays_raise s _
  · refine leads_get_bind (leads_bind (leads_modify ?_) fun _ s _ => ?_)
    · exact ⟨rfl, rfl, rfl, List.Sublist.refl _, rfl, rfl⟩
    · split
      · exact leads_pure _ s
      · exact stays_raise s _

/-- Calling anything but a closure. -/
theorem stays_callValue {callee : Value} (hc : ∀ c, callee ≠ .closure c) (argc : Nat) :
    Leads Turn.Stays (callValue callee argc) s := by
  unfold callValue
  split
  · exact absurd rfl (hc _)
  · exact leads_bind (stays_popMany s _) fun _ s _ =>
      leads_bind (stays_callNative s _ _) fun _ s _ => stays_push s _
  · exact leads_bind (stays_resolveMethod s _ _) fun _ s _ =>
      leads_bind (stays_popMany s _) fun _ s _ =>
        leads_bind (stays_callNative s _ _) fun _ s _ => stays_push s _
  · exact stays_raise s _

theorem stays_bindArguments (t : Template) (argc : Nat) :
    Leads Turn.Stays (bindArguments t argc) s := by
  unfold bindArguments
  dsimp only
  split
  · split
    · exact stays_raise s _
    · exact leads_bind (stays_popMany s _) fun _ s _ => leads_bind (stays_create s _) fun _ s _ =>
        leads_bind (stays_push s _) fun _ s _ => leads_pure _ s
  · split
    · exact leads_pure _ s
    · exact stays_raise s _

theorem stays_captureCell (f : Frame) (capture : Bool × Nat) :
    Leads Turn.Stays (captureCell f capture) s := by
  unfold captureCell
  split
  · exact .of_eq rfl rfl rfl rfl rfl
  · refine leads_get_bind ?_
    split
    · exact leads_pure _ s
    · exact stays_raise s _

theorem stays_captureCells (f : Frame) : ∀ (captures : List (Bool × Nat)) (s : Turn),
    Leads Turn.Stays (captureCells f captures) s
  | [], s => leads_pure _ s
  | c :: cs, s => leads_bind (stays_captureCell s f c) fun _ s _ =>
      leads_bind (stays_captureCells f cs s) fun _ s _ => leads_pure _ s

/-! ### Channels -/

theorem stays_wake (w : Waiter) (r : Resume) : Leads Turn.Stays (wake w r) s := by
  rw [Leads, endState_ok (wake_apply s w r)]
  refine ⟨rfl, rfl, rfl, List.Sublist.refl _, rfl, ?_⟩
  unfold Scheduler.wake
  split <;> rfl

theorem stays_setChannel (id : ChannelId) (c : Channel) : Leads Turn.Stays (setChannel id c) s :=
  stays_modifyHeap s _

theorem stays_begin (op : Operation) : Leads Turn.Stays (begin op) s :=
  leads_get_bind (stays_note s _)

theorem stays_trySend (id : ChannelId) (v : Value) : Leads Turn.Stays (trySend id v) s := by
  unfold trySend
  refine leads_get_bind ?_
  dsimp only
  refine leads_bind (stays_setChannel s _ _) fun _ s _ => ?_
  split
  · exact leads_bind (stays_note s _) fun _ s _ => leads_bind (stays_wake s _ _) fun _ s _ =>
      leads_pure _ s
  · exact leads_bind (stays_note s _) fun _ s _ => leads_pure _ s
  · exact leads_bind (stays_note s _) fun _ s _ => leads_pure _ s
  · exact leads_bind (leads_pure _ s) fun _ s _ => leads_pure _ s

theorem stays_tryReceive (id : ChannelId) : Leads Turn.Stays (tryReceive id) s := by
  unfold tryReceive
  refine leads_get_bind ?_
  dsimp only
  refine leads_bind (stays_setChannel s _ _) fun _ s _ => ?_
  split
  · exact leads_bind (stays_note s _) fun _ s _ => leads_bind (stays_wake s _ _) fun _ s _ =>
      leads_pure _ s
  · exact leads_bind (stays_note s _) fun _ s _ => leads_pure _ s
  · exact leads_bind (stays_note s _) fun _ s _ => leads_pure _ s
  · exact leads_bind (leads_pure _ s) fun _ s _ => leads_pure _ s

theorem stays_park (live : Waiter → Bool) (id : ChannelId) (w : Waiter) (offer : Option Value) :
    Leads Turn.Stays (park live id w offer) s :=
  leads_get_bind (leads_bind (stays_setChannel s _ _) fun _ s _ => stays_note s _)

theorem stays_channelSend (id : ChannelId) (v : Value) : Leads Turn.Stays (channelSend id v) s := by
  unfold channelSend
  refine leads_bind (stays_begin s _) fun _ s _ => leads_bind (stays_trySend s id v) fun _ s _ => ?_
  split
  · exact leads_bind (stays_push s _) fun _ s _ => leads_pure _ s
  · exact stays_raise s _
  · exact leads_get_bind (leads_bind (stays_park s _ _ _ _) fun _ s _ => leads_pure _ s)

theorem stays_channelReceive (id : ChannelId) : Leads Turn.Stays (channelReceive id) s := by
  unfold channelReceive
  refine leads_bind (stays_begin s _) fun _ s _ => ?_
  refine leads_bind (stays_tryReceive s id) fun _ s _ => ?_
  split
  · exact leads_bind (stays_push s _) fun _ s _ => leads_pure _ s
  · exact leads_bind (stays_push s _) fun _ s _ => leads_pure _ s
  · exact leads_get_bind (leads_bind (stays_park s _ _ _ _) fun _ s _ => leads_pure _ s)

theorem stays_wakeAll {f : Waiter → Resume} : ∀ (ws : List Waiter) (s : Turn),
    Leads Turn.Stays (ws.forM fun w => wake w (f w)) s
  | [], s => leads_pure _ s
  | w :: ws, s => by
    show Leads Turn.Stays (do wake w (f w); ws.forM fun w => wake w (f w)) s
    exact leads_bind (stays_wake s _ _) fun _ s _ => stays_wakeAll ws s

theorem stays_channelClose (id : ChannelId) : Leads Turn.Stays (channelClose id) s := by
  unfold channelClose
  refine leads_get_bind ?_
  split
  · exact stays_raise s _
  · exact leads_bind (stays_setChannel s _ _) fun _ s _ =>
      leads_bind (stays_wakeAll _ s) fun _ s _ =>
      leads_bind (stays_wakeAll _ s) fun _ s _ => stays_note s _

theorem stays_tryCase (case : SelectCase) : Leads Turn.Stays (tryCase case) s := by
  unfold tryCase
  split
  · refine leads_bind (stays_tryReceive s _) fun _ s _ => ?_
    split <;> exact leads_pure _ s
  · refine leads_bind (stays_trySend s _ _) fun _ s _ => ?_
    split
    · exact leads_pure _ s
    · exact stays_raise s _
    · exact leads_pure _ s

theorem stays_selectReady (cases : List SelectCase) : Leads Turn.Stays (selectReady cases) s := by
  unfold selectReady
  refine leads_get_bind ?_
  dsimp only
  split
  · exact leads_pure _ s
  · refine leads_bind ?_ fun _ s _ => ?_
    · exact ⟨rfl, rfl, rfl, List.Sublist.refl _, rfl, rfl⟩
    · split
      · exact leads_pure _ s
      · refine leads_bind (stays_tryCase s _) fun _ s _ => ?_
        split <;> exact leads_pure _ s

theorem stays_parkCases : ∀ (cases : List (SelectCase × Nat)) (s : Turn),
    Leads Turn.Stays (parkCases cases) s
  | [], s => leads_pure _ s
  | (case, index) :: rest, s => by
    unfold parkCases
    refine leads_get_bind ?_
    dsimp only
    cases case with
    | receive id => exact leads_bind (stays_park s _ _ _ _) fun _ s _ => stays_parkCases rest s
    | send id v => exact leads_bind (stays_park s _ _ _ _) fun _ s _ => stays_parkCases rest s

theorem stays_pushSelected (v : Value) (index : Int) : Leads Turn.Stays (pushSelected v index) s :=
  leads_bind (stays_push s v) fun _ s _ => stays_push s _

theorem stays_select (cases : List SelectCase) (hasDefault : Bool) :
    Leads Turn.Stays (select cases hasDefault) s := by
  unfold select
  refine leads_bind (stays_begin s _) fun _ s _ => ?_
  refine leads_bind (stays_selectReady s cases) fun _ s _ => ?_
  split
  · exact leads_bind (stays_pushSelected s _ _) fun _ s _ => leads_pure _ s
  · split
    · exact leads_bind (stays_pushSelected s _ _) fun _ s _ => leads_pure _ s
    · exact leads_bind (stays_parkCases _ s) fun _ s _ => leads_pure _ s

theorem stays_popChannel : Leads Turn.Stays popChannel s :=
  leads_bind (stays_pop s) fun _ s _ => leads_get_bind (stays_ofExcept s _)

theorem stays_popCases : ∀ (kinds : List Nat) (s : Turn), Leads Turn.Stays (popCases kinds) s
  | [], s => leads_pure _ s
  | kind :: kinds, s => by
    unfold popCases
    dsimp only
    split
    · exact leads_bind (stays_pop s) fun _ s _ => leads_bind (stays_popChannel s) fun _ s _ =>
        leads_bind (leads_pure _ s) fun _ s _ => leads_bind (stays_popCases kinds s) fun _ s _ =>
          leads_pure _ s
    · exact leads_bind (stays_popChannel s) fun _ s _ =>
        leads_bind (leads_pure _ s) fun _ s _ => leads_bind (stays_popCases kinds s) fun _ s _ =>
          leads_pure _ s

end Exec

/-! ## Reading -/

/-- The innermost frame has gone on over some bytes of its code, which were there. -/
inductive Turn.Passes (s : Turn) : Nat → Turn → Prop where
  | none : Passes s 0 s
  | some {f : Frame} {fs : List Frame} (hf : s.task.frames = f :: fs) {n : Nat}
      (hn : f.ip + n ≤ (f.code s.heap).size) : Passes s n { s with
        task := { s.task with frames := { f with ip := f.ip + n } :: fs } }

namespace Turn.Passes

variable {s s' s'' : Turn} {m n : Nat}

theorem trans (h : s.Passes m s') (h' : s'.Passes n s'') : s.Passes (m + n) s'' := by
  cases h with
  | none =>
    rw [Nat.zero_add]
    exact h'
  | some hf hm =>
    cases h' with
    | none => exact .some hf hm
    | some hf' hn =>
      -- What has been gone over first does not change the code, only the place in it.
      obtain ⟨rfl, rfl⟩ := List.cons.inj hf'
      have hwithin : _ ≤ _ := hn
      rw [Nat.add_assoc] at hwithin ⊢
      exact .some hf hwithin

theorem frames {f : Frame} {fs : List Frame} (h : s.Passes n s') (hf : s.task.frames = f :: fs) :
    s'.task.frames = { f with ip := f.ip + n } :: fs := by
  cases h with
  | none => exact hf
  | some hf₀ hn =>
    obtain ⟨rfl, rfl⟩ := List.cons.inj (hf₀.symm.trans hf)
    rfl

theorem within {f : Frame} {fs : List Frame} (h : s.Passes n s') (hf : s.task.frames = f :: fs)
    (hip : f.ip ≤ (f.code s.heap).size) : f.ip + n ≤ (f.code s.heap).size := by
  cases h with
  | none => exact hip
  | some hf₀ hn =>
    obtain ⟨rfl, rfl⟩ := List.cons.inj (hf₀.symm.trans hf)
    exact hn

theorem heap (h : s.Passes n s') : s'.heap = s.heap := by cases h <;> rfl

theorem stack (h : s.Passes n s') : s'.task.stack = s.task.stack := by cases h <;> rfl

theorem acts (h : s.Passes n s') : s'.acts = s.acts := by cases h <;> rfl

end Turn.Passes

namespace Exec

variable {α β : Type} {s : Turn} {m n : Nat}

/-- A computation reads some bytes of code and does nothing else. One that fails may have read
fewer. -/
def Takes (n : Nat) (x : Exec α) (s : Turn) : Prop :=
  match x s with
  | .ok _ s' => s.Passes n s'
  | .error _ s' => ∃ k ≤ n, s.Passes k s'

theorem Takes.of_ok {x : Exec α} {s' : Turn} {a : α} (hx : Takes n x s) (h : x s = .ok a s') :
    s.Passes n s' := by
  rwa [Takes, h] at hx

theorem takes_pure (a : α) (s : Turn) : Takes 0 (pure a : Exec α) s := .none

theorem takes_ofExcept (x : Except RuntimeError α) (s : Turn) : Takes 0 (Exec.ofExcept x) s := by
  cases x with
  | ok a => exact .none
  | error e => exact ⟨0, Nat.le_refl 0, .none⟩

theorem takes_bind {x : Exec α} {f : α → Exec β} (hx : Takes m x s)
    (hf : ∀ a s', x s = .ok a s' → Takes n (f a) s') : Takes (m + n) (x >>= f) s := by
  unfold Takes at hx ⊢
  cases h : x s with
  | error e s' =>
    rw [h] at hx
    rw [bind_error h]
    obtain ⟨k, hk, hx⟩ := hx
    exact ⟨k, Nat.le_trans hk (Nat.le_add_right m n), hx⟩
  | ok a s' =>
    rw [h] at hx
    rw [bind_ok h]
    have hrest := hf a s' h
    unfold Takes at hrest
    split at hrest
    · exact hx.trans hrest
    · obtain ⟨k, hk, hrest⟩ := hrest
      exact ⟨m + k, Nat.add_le_add_left hk m, hx.trans hrest⟩

/-- What comes before has not read anything. -/
theorem takes_behind {x : Exec α} {f : α → Exec β} (hx : Takes 0 x s)
    (hf : ∀ a s', x s = .ok a s' → Takes n (f a) s') : Takes n (x >>= f) s := by
  rw [← Nat.zero_add n]
  exact takes_bind hx hf

theorem takes_get_bind {f : Turn → Exec α} (hf : Takes n (f s) s) : Takes n (get >>= f) s := hf

theorem takes_frame (s : Turn) : Takes 0 frame s := takes_ofExcept _ s

theorem takes_invalid (reason : String) (s : Turn) : Takes 0 (invalid reason : Exec α) s :=
  ⟨0, Nat.le_refl 0, .none⟩

theorem takes_readByte (s : Turn) : Takes 1 readByte s := by
  unfold readByte
  refine takes_behind (takes_frame s) fun f s' hf => ?_
  obtain ⟨rfl, fs, hfs⟩ := frame_eq_ok s hf
  refine takes_get_bind (takes_behind (takes_ofExcept _ _) fun r s' hr => ?_)
  obtain ⟨hr, rfl⟩ := ofExcept_eq_ok _ hr
  unfold Frame.readByte at hr
  split at hr
  · rename_i b hb
    obtain rfl := Except.ok.inj hr
    obtain ⟨hlt, -⟩ := Array.getElem?_eq_some_iff.mp hb
    have hpasses := Turn.Passes.some hfs (show f.ip + 1 ≤ _ from hlt)
    rw [show fs = s'.task.frames.drop 1 by rw [hfs, List.drop_one, List.tail_cons]] at hpasses
    exact hpasses
  · cases hr

theorem takes_readWord (s : Turn) : Takes 2 readWord s :=
  takes_bind (takes_readByte s) fun _ s _ =>
    takes_bind (takes_readByte s) fun _ s _ => takes_pure _ s

theorem takes_readOffset (s : Turn) : Takes 2 readOffset s :=
  takes_bind (takes_readWord s) fun _ s _ => takes_pure _ s

theorem takes_constant (index : Nat) (s : Turn) : Takes 0 (constant index) s :=
  takes_behind (takes_frame s) fun _ s _ => takes_ofExcept _ s

theorem takes_readName (s : Turn) : Takes 2 readName s := by
  unfold readName
  show Takes (2 + 0) _ s
  refine takes_bind (takes_readWord s) fun w s _ => ?_
  refine takes_behind (takes_constant w s) fun v s _ => ?_
  split
  · exact takes_pure _ s
  · exact takes_invalid _ s

theorem takes_readUpvalue (s : Turn) : Takes 1 readUpvalue s := by
  unfold readUpvalue
  show Takes (1 + 0) _ s
  refine takes_bind (takes_readByte s) fun index s _ => ?_
  refine takes_behind (takes_frame s) fun f s _ => ?_
  refine takes_get_bind ?_
  split
  · exact takes_pure _ s
  · exact takes_invalid _ s

theorem takes_readBytes : ∀ (n : Nat) (s : Turn), Takes n (readBytes n) s
  | 0, s => takes_pure _ s
  | n + 1, s => by
    have h : Takes (1 + n) (readBytes (n + 1)) s :=
      takes_bind (takes_readByte s) fun _ s _ => takes_bind (takes_readBytes n s) fun _ s _ =>
        takes_pure _ s
    rwa [Nat.add_comm] at h

theorem takes_readCaptures : ∀ (n : Nat) (s : Turn), Takes (2 * n) (readCaptures n) s
  | 0, s => takes_pure _ s
  | n + 1, s => by
    have h : Takes (1 + (1 + 2 * n)) (readCaptures (n + 1)) s :=
      takes_bind (takes_readByte s) fun _ s _ => takes_bind (takes_readByte s) fun _ s _ =>
        takes_bind (takes_readCaptures n s) fun _ s _ => takes_pure _ s
    rwa [show 1 + (1 + 2 * n) = 2 * (n + 1) by omega] at h

/-! ## Instructions -/

/-- A computation reads some bytes of code and then works on something else. How many they may be
is said of a computation that succeeds, and of one that fails. -/
def Decodes (count most : Nat → Prop) (x : Exec α) (s : Turn) : Prop :=
  match x s with
  | .ok _ s' => ∃ n s₁, count n ∧ s.Passes n s₁ ∧ s₁.Stays s'
  | .error _ s' => ∃ n s₁, most n ∧ s.Passes n s₁ ∧ s₁.Stays s'

variable {count most : Nat → Prop}

theorem Decodes.of_ok {x : Exec α} {s' : Turn} {a : α} (hx : Decodes count most x s)
    (h : x s = .ok a s') : ∃ n s₁, count n ∧ s.Passes n s₁ ∧ s₁.Stays s' := by
  rwa [Decodes, h] at hx

theorem Decodes.of_error {x : Exec α} {s' : Turn} {e : Fault} (hx : Decodes count most x s)
    (h : x s = .error e s') : ∃ n s₁, most n ∧ s.Passes n s₁ ∧ s₁.Stays s' := by
  rwa [Decodes, h] at hx

theorem decodes_of_stays {x : Exec α} (hcount : count 0) (hmost : most 0)
    (hx : Leads Turn.Stays x s) : Decodes count most x s := by
  unfold Decodes
  cases h : x s with
  | ok a s' => exact ⟨0, s, hcount, .none, hx.of_ok h⟩
  | error e s' =>
    rw [Leads, endState_error h] at hx
    exact ⟨0, s, hmost, .none, hx⟩

theorem decodes_bind {x : Exec α} {f : α → Exec β} (hx : Takes m x s) (hm : ∀ k ≤ m, most k)
    (hf : ∀ a s', x s = .ok a s' →
      Decodes (fun n => count (m + n)) (fun n => most (m + n)) (f a) s') :
    Decodes count most (x >>= f) s := by
  unfold Takes at hx
  unfold Decodes
  cases h : x s with
  | error e s' =>
    rw [h] at hx
    obtain ⟨k, hk, hx⟩ := hx
    rw [bind_error h]
    exact ⟨k, s', hm k hk, hx, .refl s'⟩
  | ok a s' =>
    rw [h] at hx
    rw [bind_ok h]
    have hrest := hf a s' h
    unfold Decodes at hrest
    split at hrest <;>
      · obtain ⟨n, s₁, hn, hpasses, hstays⟩ := hrest
        exact ⟨m + n, s₁, hn, hx.trans hpasses, hstays⟩

/-- What comes after fails when no more has been read than has been said. -/
theorem decodes_then {x : Exec α} {f : α → Exec β} (hx : Decodes count most x s)
    (hcount : ∀ n, count n → most n) (hf : ∀ a s', Leads Turn.Stays (f a) s') :
    Decodes count most (x >>= f) s := by
  unfold Decodes at hx ⊢
  cases h : x s with
  | error e s' =>
    rw [h] at hx
    rw [bind_error h]
    exact hx
  | ok a s' =>
    rw [h] at hx
    rw [bind_ok h]
    obtain ⟨n, s₁, hn, hpasses, hstays⟩ := hx
    have hrest := hf a s'
    cases h' : f a s' with
    | ok b s'' => exact ⟨n, s₁, hn, hpasses, hstays.trans (hrest.of_ok h')⟩
    | error e s'' =>
      rw [Leads, endState_error h'] at hrest
      exact ⟨n, s₁, hcount n hn, hpasses, hstays.trans hrest⟩

theorem decodes_raise (hmost : most 0) (e : RuntimeError) (s : Turn) :
    Decodes count most (raise e : Exec α) s := ⟨0, s, hmost, .none, .refl s⟩

/-- As many operand bytes as the layout says follow the opcode that has just been read. -/
def Expected (s : Turn) (op : Opcode) (n : Nat) : Prop :=
  ∀ f fs offset, s.task.frames = f :: fs → f.ip = offset + 1 →
    ∃ tail, (f.code s.heap).tailLength? offset op = some tail ∧ n = op.operandSize + tail

/-- No more operand bytes than the layout says, as far as the length of a tail is there. -/
def Allowed (s : Turn) (op : Opcode) (n : Nat) : Prop :=
  ∀ f fs offset, s.task.frames = f :: fs → f.ip = offset + 1 →
    n ≤ op.operandSize + ((f.code s.heap).tailLength? offset op).getD 0

theorem allowed_of_le {op : Opcode} {n : Nat} (hn : n ≤ op.operandSize) : Allowed s op n :=
  fun _ _ _ _ _ => Nat.le_add_right_of_le hn

theorem allowed_of_expected {op : Opcode} (n : Nat) (h : Expected s op n) : Allowed s op n := by
  intro f fs offset hf hip
  obtain ⟨tail, htail, rfl⟩ := h f fs offset hf hip
  exact Nat.le_of_eq (by rw [htail, Option.getD_some])

theorem decodes_makeClosure (s : Turn) :
    Decodes (Expected s .makeClosure) (Allowed s .makeClosure) makeClosure s := by
  unfold makeClosure
  refine decodes_bind (takes_readWord s) (fun k hk => allowed_of_le (Nat.le_succ_of_le hk))
    fun w s₁ h₁ => ?_
  refine decodes_bind (takes_constant w s₁) (fun k hk => allowed_of_le ?_) fun v s₂ h₂ => ?_
  · exact Nat.le_succ_of_le (Nat.add_le_add_left hk 2)
  have hpasses := ((takes_readWord s).of_ok h₁).trans ((takes_constant w s₁).of_ok h₂)
  split
  · refine decodes_bind (takes_readByte s₂) (fun k hk => allowed_of_le ?_) fun n s₃ h₃ => ?_
    · exact Nat.add_le_add_left (Nat.add_le_add_left hk 0) 2
    -- The byte that counts the captures is the one that the layout looks at.
    have htail : Expected s .makeClosure (2 + (0 + (1 + (2 * n + 0)))) := by
      intro f fs offset hf hip
      obtain ⟨g, gs, byte, hg, hbyte, rfl, -⟩ := readByte_eq_ok h₃
      obtain ⟨rfl, -⟩ := List.cons.inj (hg.symm.trans (hpasses.frames hf))
      refine ⟨2 * byte.toNat, ?_, ?_⟩
      · have hbyte' : (f.code s.heap)[offset + 3]? = some byte := by
          rw [← hbyte, hpasses.heap, hip]
          rfl
        simp only [Code.tailLength?, hbyte', Option.map_some]
      · simp only [Opcode.operandSize]
        omega
    refine decodes_bind (takes_readCaptures n s₃) ?_ fun captures s₄ _ => ?_
    · intro k hk f fs offset hf hip
      exact Nat.le_trans (by omega) (allowed_of_expected _ htail f fs offset hf hip)
    · refine decodes_of_stays htail (allowed_of_expected _ htail) ?_
      exact leads_bind (stays_frame s₄) fun _ s _ =>
        leads_bind (stays_captureCells _ _ s) fun _ s _ =>
        leads_bind (stays_create s _) fun _ s _ => stays_push s _
  · refine decodes_raise ?_ _ s₂
    exact allowed_of_le (Nat.le_succ 2)

theorem decodes_selectOperands (s : Turn) :
    Decodes (Expected s .select) (Allowed s .select) selectOperands s := by
  unfold selectOperands
  refine decodes_bind (takes_readByte s) (fun k hk => allowed_of_le (Nat.le_succ_of_le hk))
    fun n s₁ h₁ => ?_
  refine decodes_bind (takes_readByte s₁) (fun k hk => allowed_of_le (Nat.add_le_add_left hk 1))
    fun flags s₂ _ => ?_
  have htail : Expected s .select (1 + (1 + (n + 0))) := by
    intro f fs offset hf hip
    obtain ⟨g, gs, byte, hg, hbyte, rfl, -⟩ := readByte_eq_ok h₁
    obtain ⟨rfl, -⟩ := List.cons.inj (hg.symm.trans hf)
    rw [hip] at hbyte
    refine ⟨byte.toNat, ?_, ?_⟩
    · simp only [Code.tailLength?, hbyte, Option.map_some]
    · simp only [Opcode.operandSize]
      omega
  refine decodes_bind (takes_readBytes n s₂) ?_ fun kinds s₃ _ => ?_
  · intro k hk f fs offset hf hip
    exact Nat.le_trans (by omega) (allowed_of_expected _ htail f fs offset hf hip)
  · refine decodes_of_stays htail (allowed_of_expected _ htail) ?_
    exact leads_bind (stays_popCases _ s₃) fun _ s _ => leads_pure _ s

theorem expected_of_eq {op : Opcode} {n : Nat} (htail : ∀ code offset,
    Code.tailLength? code offset op = some 0) (hn : n = op.operandSize) : Expected s op n :=
  fun _ _ _ _ _ => ⟨0, htail _ _, hn⟩

/-- The operands of an instruction without a tail are read first. -/
theorem decodes_operands {op : Opcode} {x : Exec α} {f : α → Exec β}
    (htail : ∀ code offset, Code.tailLength? code offset op = some 0)
    (hx : Takes op.operandSize x s) (hf : ∀ a s', Leads Turn.Stays (f a) s') :
    Decodes (Expected s op) (Allowed s op) (x >>= f) s := by
  refine decodes_bind hx (fun _ => allowed_of_le) fun a s' _ => ?_
  refine decodes_of_stays ?_ ?_ (hf a s')
  · exact expected_of_eq htail (Nat.add_zero _)
  · exact allowed_of_le (Nat.le_of_eq (Nat.add_zero _))

/-- The opcodes that transfer control, and the ones that protect calls and start tasks. -/
def isControlOp : Opcode → Bool
  | .jump | .loop | .jumpIfFalse | .call | .ret | .tryBegin | .spawn => true
  | _ => false

/-- **An instruction reads its operands, as many as the layout says, and then stays where it is**,
unless it has to do with control. -/
theorem decodes_execute {op : Opcode} (hop : isControlOp op = false) (s : Turn) :
    Decodes (Expected s op) (Allowed s op) (execute op) s := by
  cases op
  case jump | loop | jumpIfFalse | call | ret | tryBegin | spawn => nomatch hop
  case makeClosure =>
    exact decodes_then (decodes_makeClosure s) allowed_of_expected fun _ s => leads_pure _ s
  case select =>
    exact decodes_then (decodes_selectOperands s) allowed_of_expected fun operands s =>
      stays_select s operands.1 operands.2
  -- All others begin with one of four ways to read operands, or read none.
  all_goals
    unfold execute
    dsimp only
    first
      | refine decodes_operands (fun _ _ => rfl) (takes_readWord s) fun _ _ => ?_
      | refine decodes_operands (fun _ _ => rfl) (takes_readByte s) fun _ _ => ?_
      | refine decodes_operands (fun _ _ => rfl) (takes_readName s) fun _ _ => ?_
      | refine decodes_operands (fun _ _ => rfl) (takes_readUpvalue s) fun _ _ => ?_
      | refine decodes_of_stays (expected_of_eq (fun _ _ => rfl) rfl)
          (allowed_of_le (Nat.zero_le _)) ?_
    repeat' first
      | with_reducible exact leads_pure _ _
      | with_reducible exact stays_raise _ _
      | with_reducible exact stays_invalid _ _
      | with_reducible exact stays_ofExcept _ _
      | with_reducible exact stays_push _ _
      | with_reducible exact stays_pop _
      | with_reducible exact stays_popMany _ _
      | with_reducible exact stays_peek _
      | with_reducible exact stays_localIndex _ _
      | with_reducible exact stays_setSlot _ _ _
      | with_reducible exact stays_pushLocal _ _
      | with_reducible exact stays_readCell _ _
      | with_reducible exact stays_writeCell _ _ _
      | with_reducible exact stays_globalSlot _ _
      | with_reducible exact stays_setGlobal _ _ _
      | with_reducible exact stays_constant _ _
      | with_reducible exact stays_binary _ _
      | with_reducible exact stays_equality _ _
      | with_reducible exact stays_ordering _ _
      | with_reducible exact stays_pushArray _ _
      | with_reducible exact stays_pushMap _ _
      | with_reducible exact stays_pushFirst _ _ _
      | with_reducible exact stays_popKey _
      | with_reducible exact stays_setMap _ _ _
      | with_reducible exact stays_writeLine _ _
      | with_reducible exact stays_nextItem _
      | with_reducible exact stays_endIteration _
      | with_reducible exact stays_dropHandler _
      | with_reducible exact stays_tryEnd _
      | with_reducible exact stays_create _ _
      | with_reducible exact stays_popChannel _
      | with_reducible exact stays_channelSend _ _ _
      | with_reducible exact stays_channelReceive _ _
      | with_reducible exact stays_channelClose _ _
      | with_reducible refine leads_get_bind ?_
      | with_reducible refine leads_bind ?_ fun _ _ _ => ?_
      | split
  · exact stays_modifyHeap _ fun _ => _
  · exact .of_eq rfl rfl rfl rfl rfl

end Exec

end TaskVm
