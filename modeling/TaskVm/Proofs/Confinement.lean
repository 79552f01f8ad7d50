import TaskVm.Proofs.Enclosure

/-!
# A task is confined to its region

Calls, channel operations and all other instructions, as computations that stay within a region;
and from them what a turn does, and what a machine does in a tick. What a task throws is held by
the region like any other value, so no handler ever gets a fatal error.
-/

namespace TaskVm

namespace Exec

variable {R : Region} {limit : Option Nat} {count : Nat} {α : Type} {Q : α → Prop}

/-! ## Calls -/

theorem safe_bindArguments (t : Template) (argc : Nat) :
    Safe (R.Encloses limit count) (fun _ => True) (bindArguments t argc) := by
  unfold bindArguments
  dsimp only
  split
  · split
    · exact safe_raise _
    · refine safe_bind (safe_popMany _) fun extras hextras => ?_
      refine safe_bind (safe_newArray hextras) fun id hid => ?_
      exact safe_bind (safe_push hid) fun _ _ => safe_pure trivial
  · split
    · exact safe_pure trivial
    · exact safe_raise _

theorem safe_enterFrame {f : Frame} (hf : R.closures f.closure) {locals : Array Value}
    (hl : ∀ v ∈ locals, R.Holds v) :
    Safe (R.Encloses limit count) (fun _ => True) (enterFrame f locals) :=
  safe_bind (safe_take _) fun _ _ => safe_modifyTask fun _ ht => ht.enter hf hl

theorem safe_callClosure {closure : ClosureId} (hc : R.closures closure) (argc : Nat) :
    Safe (R.Encloses limit count) (fun _ => True) (callClosure closure argc) := by
  refine safe_get_bind fun s _ => safe_bind (safe_bindArguments _ argc) fun params _ => ?_
  refine safe_get_bind fun s _ => ?_
  dsimp only
  split
  · exact safe_raise _
  · split
    · exact safe_raise _
    · split
      · exact safe_raise _
      · refine safe_bind (safe_emit _) fun _ _ => safe_enterFrame hc fun v hv => ?_
        rw [(Array.mem_replicate.mp hv).2]
        exact trivial

theorem safe_callNative (id : NativeId) {args : List Value} (hargs : ∀ v ∈ args, R.Holds v) :
    Safe (R.Encloses limit count) R.Holds (callNative id args) := by
  refine safe_bind (safe_modify fun s hs => ?_) fun _ _ => ?_
  · exact ⟨hs.hosts, hs.heap, hs.globals, hs.task, hs.tasks, hs.limit, hs.count⟩
  · exact safe_get_bind fun s hs => safe_onHeap (Native.safe_call hs.hosts _ hargs)

theorem safe_resolveMethod (receiver : Value) (method : String) :
    Safe (R.Encloses limit count) (fun _ => True) (resolveMethod receiver method) := by
  unfold resolveMethod
  dsimp only
  split
  · exact safe_raise _
  · refine safe_get_bind fun s _ => safe_bind (safe_modify fun s hs => ?_) fun _ _ => ?_
    · exact ⟨hs.hosts, hs.heap, hs.globals, hs.task, hs.tasks, hs.limit, hs.count⟩
    · split
      · exact safe_pure trivial
      · exact safe_raise _

theorem safe_callValue {callee : Value} (hc : R.Holds callee) (argc : Nat) :
    Safe (R.Encloses limit count) (fun _ => True) (callValue callee argc) := by
  unfold callValue
  split
  · exact safe_callClosure hc argc
  · refine safe_bind (safe_popMany argc) fun args hargs => ?_
    exact safe_bind (safe_callNative _ hargs) fun _ hv => safe_push hv
  · refine safe_bind (safe_resolveMethod _ _) fun n _ => ?_
    refine safe_bind (safe_popMany argc) fun args hargs => ?_
    refine safe_bind (safe_callNative n fun v hv => ?_) fun _ hv => safe_push hv
    rcases List.mem_cons.mp hv with rfl | hv
    · exact hc
    · exact hargs v hv
  · exact safe_raise _

theorem safe_readCaptures : ∀ n, Safe (R.Encloses limit count) (fun _ => True) (readCaptures n)
  | 0 => safe_pure trivial
  | n + 1 => safe_bind safe_readByte fun _ _ => safe_bind safe_readByte fun _ _ =>
      safe_bind (safe_readCaptures n) fun _ _ => safe_pure trivial

theorem safe_captureSlot (slot : Nat) :
    Safe (R.Encloses limit count) R.cells (captureSlot slot) := by
  intro s hs
  rw [captureSlot]
  have hcapture : R.cells (s.task.openUpvalues.capture s.heap s.task.id slot).1 ∧
      (∀ c ∈ (s.task.openUpvalues.capture s.heap s.task.id slot).2.1.cells, R.cells c.2) ∧
      R.Clean (s.task.openUpvalues.capture s.heap s.task.id slot).2.2 := by
    unfold OpenUpvalues.capture
    split
    · rename_i id hid
      exact ⟨hs.task.opened _ (OpenUpvalues.mem_of_cell? hid), hs.task.opened, hs.heap⟩
    · have hnew := hs.heap.newCells _ (Nat.le_refl _)
      refine ⟨hnew, fun c hc => ?_, hs.heap.newCell _ _⟩
      rcases OpenUpvalues.mem_insertSorted.mp hc with rfl | hc
      · exact hnew
      · exact hs.task.opened c hc
  obtain ⟨hcell, hopened, hheap⟩ := hcapture
  exact ⟨hcell, hs.hosts, hheap, hs.globals, ⟨hs.task.stack, hs.task.iterations, hs.task.resume,
    hs.task.frames, hopened⟩, hs.tasks, hs.limit, hs.count⟩

theorem safe_captureCell {f : Frame} (hf : R.closures f.closure) (capture : Bool × Nat) :
    Safe (R.Encloses limit count) R.cells (captureCell f capture) := by
  unfold captureCell
  split
  · exact safe_captureSlot _
  · refine safe_get_bind fun s hs => ?_
    split
    · rename_i cell hcell
      exact safe_pure (hs.heap.closures _ hf cell (Array.mem_of_getElem? hcell))
    · exact safe_raise _

theorem safe_captureCells {f : Frame} (hf : R.closures f.closure) : ∀ captures,
    Safe (R.Encloses limit count) (fun cells => ∀ c ∈ cells, R.cells c) (captureCells f captures)
  | [] => safe_pure nofun
  | c :: cs => by
    refine safe_bind (safe_captureCell hf c) fun cell hcell => ?_
    refine safe_bind (safe_captureCells hf cs) fun cells hcells => safe_pure fun u hu => ?_
    rcases List.mem_cons.mp hu with rfl | hu
    · exact hcell
    · exact hcells u hu

theorem safe_makeClosure : Safe (R.Encloses limit count) (fun _ => True) makeClosure := by
  refine safe_bind safe_readWord fun w _ => safe_bind (safe_constant w) fun v _ => ?_
  split
  · refine safe_bind safe_readByte fun n _ => safe_bind (safe_readCaptures n) fun captures _ => ?_
    refine safe_bind safe_frame fun f hf => safe_bind (safe_captureCells hf captures) fun cells hcells => ?_
    refine safe_bind (Q := R.closures) (safe_create fun h hh => ?_) fun _ hid => safe_push hid
    exact ⟨hh.newClosures _ (Nat.le_refl _), hh.newClosure fun u hu => hcells u (by simpa using hu)⟩
  · exact safe_raise _

/-- A computation of another task, in the place of the running one. -/
theorem safe_withTask {task : Task} (ht : R.HoldsTask task) {x : Exec Unit}
    (hx : Safe (R.Encloses limit count) (fun _ => True) x) :
    Safe (R.Encloses limit count) R.HoldsTask (withTask task x) := by
  intro s hs
  unfold withTask
  cases h : x { s with task } with
  | ok a s' =>
    obtain ⟨-, hs'⟩ := hx.of_ok (hs.withTask ht) h
    exact ⟨hs'.task, hs'.hosts, hs'.heap, hs'.globals, hs.task, hs'.tasks, hs'.limit, hs'.count⟩
  | error e s' =>
    obtain ⟨he, hs'⟩ := hx.of_error (hs.withTask ht) h
    exact ⟨he, hs'.hosts, hs'.heap, hs'.globals, hs.task, hs'.tasks, hs'.limit, hs'.count⟩

theorem safe_start {child : Task} (hc : R.HoldsTask child) :
    Safe (R.Encloses limit count) (fun _ => True) (start child) :=
  safe_modify fun _ hs => ⟨hs.hosts, hs.heap.setStatus _ _, hs.globals, hs.task, hs.put hc,
    hs.limit, hs.count⟩

theorem safe_spawn {callee : Value} (hc : R.Holds callee) {args : List Value}
    (hargs : ∀ v ∈ args, R.Holds v) :
    Safe (R.Encloses limit count) R.Holds (spawn callee args) := by
  unfold spawn
  split
  · refine safe_get_bind fun s hs => safe_bind (safe_set ?_) fun _ _ => ?_
    · exact ⟨hs.hosts, hs.heap.newHandle _, hs.globals, hs.task, hs.tasks, hs.limit, hs.count⟩
    · refine safe_bind (safe_withTask ((Region.holdsTask_empty _ _).withStack fun v hv => ?_)
        (safe_callClosure hc _)) fun child hchild =>
          safe_bind (safe_start hchild) fun _ _ => safe_pure trivial
      exact hargs v (by simpa using hv)
  · exact safe_raise _

/-! ## Channels -/

theorem safe_begin (op : Operation) : Safe (R.Encloses limit count) (fun _ => True) (begin op) :=
  safe_get_bind fun _ _ => safe_note _

theorem safe_wake (w : Waiter) {resume : Resume} (hr : R.HoldsResume resume) :
    Safe (R.Encloses limit count) (fun _ => True) (wake w resume) := by
  refine safe_modify fun s hs => ?_
  have hwake : R.Clean (s.vm.scheduler.wake s.heap w resume).2.2 ∧ ∀ id t,
      (s.vm.scheduler.wake s.heap w resume).2.1.get? id = some t → R.HoldsTask t := by
    unfold Scheduler.wake
    split
    · rename_i t _ ht
      have htask := hs.tasks _ t ht
      refine ⟨hs.heap.setStatus _ _, hs.put ⟨htask.stack, htask.iterations, fun r heq => ?_,
        htask.frames, htask.opened⟩⟩
      cases heq
      exact hr
    · exact ⟨hs.heap, hs.tasks⟩
  exact ⟨hs.hosts, hwake.1, hs.globals, hs.task, hwake.2, hs.limit, hs.count⟩

theorem safe_deliver (w : Waiter) {v : Value} (hv : R.Holds v) :
    Safe (R.Encloses limit count) (fun _ => True) (deliver w v) := by
  refine safe_wake w ?_
  unfold Scheduler.resumeOf
  split
  · exact hv
  · exact hv

theorem safe_setChannel (id : ChannelId) {c : Channel} (hc : R.channels id → R.HoldsChannel c) :
    Safe (R.Encloses limit count) (fun _ => True) (setChannel id c) :=
  safe_modifyHeap fun _ hs => hs.heap.setChannel id hc

/-- What came of a send leads nowhere new. -/
def HoldsSent (R : Region) : SendOutcome → Prop
  | .sent (some (_, v)) | .closed v | .wouldBlock v => R.Holds v
  | .sent none => True

/-- A value that is received is held. -/
def HoldsReceived (R : Region) : ReceiveOutcome → Prop
  | .received v _ => R.Holds v
  | _ => True

theorem trySend_holds {c : Channel} (live : Waiter → Bool) {v : Value} (hv : R.Holds v) :
    HoldsSent R (c.trySend live v).1 ∧
      (R.HoldsChannel c → R.HoldsChannel (c.trySend live v).2) := by
  unfold Channel.trySend
  split
  · exact ⟨hv, id⟩
  · split
    · exact ⟨hv, fun hc => ⟨hc.buffer, hc.senders⟩⟩
    · dsimp only
      split
      · refine ⟨trivial, fun hc => ⟨fun w hw => ?_, hc.senders⟩⟩
        rcases List.mem_append.mp hw with hw | hw
        · exact hc.buffer w hw
        · rw [List.mem_singleton.mp hw]
          exact hv
      · exact ⟨hv, fun hc => ⟨hc.buffer, hc.senders⟩⟩

theorem liveSender_holds (live : Waiter → Bool) {senders : List (Waiter × Value)}
    (hs : ∀ s ∈ senders, R.Holds s.2) :
    (∀ s, (Channel.liveSender? live senders).1 = some s → R.Holds s.2) ∧
      ∀ s ∈ (Channel.liveSender? live senders).2, R.Holds s.2 := by
  unfold Channel.liveSender?
  split
  · exact ⟨nofun, nofun⟩
  · rename_i s rest hdrop
    have hsub : ∀ u ∈ s :: rest, R.Holds u.2 := fun u hu =>
      hs u ((List.dropWhile_sublist _).subset (hdrop ▸ hu))
    refine ⟨fun u hu => ?_, fun u hu => hsub u (List.mem_cons_of_mem _ hu)⟩
    cases hu
    exact hsub s List.mem_cons_self

theorem tryReceive_holds {c : Channel} (live : Waiter → Bool) (hc : R.HoldsChannel c) :
    HoldsReceived R (c.tryReceive live).1 ∧ R.HoldsChannel (c.tryReceive live).2 := by
  obtain ⟨hfirst, hrest⟩ := liveSender_holds live hc.senders
  unfold Channel.tryReceive
  -- A value comes from the buffer, or from the first sender that is live.
  split
  · rename_i value buffer hbuffer
    have hall : ∀ v ∈ value :: buffer, R.Holds v := hbuffer ▸ hc.buffer
    have hvalue := hall value List.mem_cons_self
    have hbuffer' : ∀ v ∈ buffer, R.Holds v := fun v hv => hall v (List.mem_cons_of_mem _ hv)
    split
    · rename_i w pending senders hlive
      rw [hlive] at hfirst hrest
      refine ⟨hvalue, fun v hv => ?_, hrest⟩
      rcases List.mem_append.mp hv with hv | hv
      · exact hbuffer' v hv
      · rw [List.mem_singleton.mp hv]
        exact hfirst _ rfl
    · rename_i senders hlive
      rw [hlive] at hrest
      exact ⟨hvalue, hbuffer', hrest⟩
  · split
    · rename_i w v senders hlive
      rw [hlive] at hfirst hrest
      exact ⟨hfirst _ rfl, hc.buffer, hrest⟩
    · rename_i senders hlive
      rw [hlive] at hrest
      refine ⟨?_, hc.buffer, hrest⟩
      split <;> exact trivial

theorem safe_trySend (id : ChannelId) {v : Value} (hv : R.Holds v) :
    Safe (R.Encloses limit count) (HoldsSent R) (trySend id v) := by
  refine safe_get_bind fun s hs => ?_
  obtain ⟨hout, hchannel⟩ := trySend_holds (c := s.heap.channel id) (liveness s) hv
  cases h : (s.heap.channel id).trySend (liveness s) v with
  | mk outcome c =>
    rw [h] at hout hchannel
    refine safe_bind (safe_setChannel id fun hid => hchannel (hs.heap.channels id hid)) fun _ _ => ?_
    have hfinal : Safe (R.Encloses limit count) (HoldsSent R) (pure outcome) := safe_pure hout
    cases outcome with
    | sent handedTo =>
      cases handedTo with
      | none => exact safe_bind (safe_note _) fun _ _ => hfinal
      | some r =>
        exact safe_bind (safe_note _) fun _ _ => safe_bind (safe_deliver r.1 hout) fun _ _ => hfinal
    | closed v => exact safe_bind (safe_note _) fun _ _ => hfinal
    | wouldBlock v => exact hfinal

theorem safe_tryReceive {id : ChannelId} (hid : R.channels id) :
    Safe (R.Encloses limit count) (HoldsReceived R) (tryReceive id) := by
  refine safe_get_bind fun s hs => ?_
  obtain ⟨hout, hchannel⟩ := tryReceive_holds (liveness s) (hs.heap.channels id hid)
  cases h : (s.heap.channel id).tryReceive (liveness s) with
  | mk outcome c =>
    rw [h] at hout hchannel
    refine safe_bind (safe_setChannel id fun _ => hchannel) fun _ _ => ?_
    have hfinal : Safe (R.Encloses limit count) (HoldsReceived R) (pure outcome) := safe_pure hout
    cases outcome with
    | received v sender =>
      cases sender with
      | none => exact safe_bind (safe_note _) fun _ _ => hfinal
      | some w =>
        have hnil : R.Holds .nil := trivial
        exact safe_bind (safe_note _) fun _ _ => safe_bind (safe_deliver w hnil) fun _ _ => hfinal
    | closed => exact safe_bind (safe_note _) fun _ _ => hfinal
    | wouldBlock => exact hfinal

theorem safe_park (live : Waiter → Bool) (id : ChannelId) (w : Waiter) {offer : Option Value}
    (ho : ∀ v, offer = some v → R.Holds v) :
    Safe (R.Encloses limit count) (fun _ => True) (park live id w offer) := by
  refine safe_get_bind fun s hs => ?_
  refine safe_bind (safe_setChannel id fun hid => ?_) fun _ _ => safe_note _
  have hc := hs.heap.channels id hid
  cases offer with
  | none => exact ⟨hc.buffer, hc.senders⟩
  | some v =>
    refine ⟨hc.buffer, fun x hx => ?_⟩
    rcases List.mem_append.mp hx with hx | hx
    · exact hc.senders x (List.mem_of_mem_filter hx)
    · rw [List.mem_singleton.mp hx]
      exact ho v rfl

theorem safe_channelSend (id : ChannelId) {v : Value} (hv : R.Holds v) :
    Safe (R.Encloses limit count) (HoldsFlow R) (channelSend id v) := by
  refine safe_bind (safe_begin _) fun _ _ => safe_bind (safe_trySend id hv) fun outcome hout => ?_
  split
  · exact safe_bind (safe_push trivial) fun _ _ => safe_pure trivial
  · exact safe_raise _
  · refine safe_get_bind fun s _ => ?_
    refine safe_bind (safe_park _ id _ fun w hw => ?_) fun _ _ => safe_pure trivial
    cases hw
    exact hout

theorem safe_channelReceive {id : ChannelId} (hid : R.channels id) :
    Safe (R.Encloses limit count) (HoldsFlow R) (channelReceive id) := by
  refine safe_bind (safe_begin _) fun _ _ => safe_bind (safe_tryReceive hid) fun outcome hout => ?_
  split
  · exact safe_bind (safe_push hout) fun _ _ => safe_pure trivial
  · exact safe_bind (safe_push trivial) fun _ _ => safe_pure trivial
  · refine safe_get_bind fun s _ => ?_
    exact safe_bind (safe_park _ id _ nofun) fun _ _ => safe_pure trivial

theorem safe_wakeAll {f : Waiter → Resume} (hf : ∀ w, R.HoldsResume (f w)) : ∀ ws : List Waiter,
    Safe (R.Encloses limit count) (fun _ => True) (ws.forM fun w => wake w (f w))
  | [] => safe_pure trivial
  | w :: ws => safe_bind (safe_wake w (hf w)) fun _ _ => safe_wakeAll hf ws

theorem safe_channelClose (id : ChannelId) :
    Safe (R.Encloses limit count) (fun _ => True) (channelClose id) := by
  refine safe_get_bind fun s hs => ?_
  split
  · exact safe_raise _
  · rename_i receivers senders c hclose
    refine safe_bind (safe_setChannel id fun hid => ?_) fun _ _ => ?_
    · have hc := hs.heap.channels id hid
      unfold Channel.close? at hclose
      split at hclose
      · cases hclose
      · cases hclose
        exact ⟨hc.buffer, nofun⟩
    · have hnil : ∀ w, R.HoldsResume (Scheduler.resumeOf w .nil) := by
        intro w
        unfold Scheduler.resumeOf
        split <;> exact trivial
      have herror : ∀ _ : Waiter, R.HoldsResume (.error .channelClosed) := fun _ => rfl
      refine safe_bind (safe_wakeAll hnil _) fun _ _ => ?_
      exact safe_bind (safe_wakeAll herror _) fun _ _ => safe_note _

/-- What a case sends, and the channel that it receives from. -/
def HoldsCase (R : Region) : SelectCase → Prop
  | .receive c => R.channels c
  | .send _ v => R.Holds v

theorem safe_tryCase {case : SelectCase} (hc : HoldsCase R case) :
    Safe (R.Encloses limit count) (fun o => ∀ v, o = some v → R.Holds v) (tryCase case) := by
  have hnil : ∀ v, some Value.nil = some v → R.Holds v := by
    rintro v ⟨⟩
    exact trivial
  unfold tryCase
  split
  · refine safe_bind (safe_tryReceive hc) fun outcome hout => ?_
    split
    · refine safe_pure fun v hv => ?_
      cases hv
      exact hout
    · exact safe_pure hnil
    · exact safe_pure nofun
  · refine safe_bind (safe_trySend _ hc) fun outcome _ => ?_
    split
    · exact safe_pure hnil
    · exact safe_raise _
    · exact safe_pure nofun

theorem safe_drawCase (ready : List Nat) :
    Safe (R.Encloses limit count) (fun _ => True) (drawCase ready) := fun _ hs =>
  ⟨trivial, hs.hosts, hs.heap, hs.globals, hs.task, hs.tasks, hs.limit, hs.count⟩

theorem safe_parkCases : ∀ {cases : List (SelectCase × Nat)}, (∀ c ∈ cases, HoldsCase R c.1) →
    Safe (R.Encloses limit count) (fun _ => True) (parkCases cases)
  | [], _ => safe_pure trivial
  | (case, index) :: rest, hcases => by
    have hrest : Safe (R.Encloses limit count) (fun _ => True) (parkCases rest) :=
      safe_parkCases fun c hc => hcases c (List.mem_cons_of_mem _ hc)
    refine safe_get_bind fun s _ => ?_
    dsimp only
    split
    · exact safe_bind (safe_park _ _ _ nofun) fun _ _ => hrest
    · refine safe_bind (safe_park _ _ _ fun v hv => ?_) fun _ _ => hrest
      cases hv
      exact hcases _ List.mem_cons_self

theorem safe_pushSelected {v : Value} (hv : R.Holds v) (index : Int) :
    Safe (R.Encloses limit count) (fun _ => True) (pushSelected v index) :=
  safe_bind (safe_push hv) fun _ _ => safe_push trivial

theorem safe_selectReady {cases : List SelectCase} (hcases : ∀ c ∈ cases, HoldsCase R c) :
    Safe (R.Encloses limit count) (fun o => ∀ r, o = some r → R.Holds r.1) (selectReady cases) := by
  refine safe_get_bind fun s _ => ?_
  dsimp only
  split
  · exact safe_pure nofun
  · refine safe_bind (safe_drawCase _) fun index _ => ?_
    split
    · exact safe_pure nofun
    · rename_i case hcase
      refine safe_bind (safe_tryCase (hcases case (List.mem_of_getElem? hcase))) fun o ho => ?_
      split
      · refine safe_pure fun r hr => ?_
        cases hr
        exact ho _ rfl
      · exact safe_pure nofun

theorem safe_select {cases : List SelectCase} (hcases : ∀ c ∈ cases, HoldsCase R c)
    (hasDefault : Bool) :
    Safe (R.Encloses limit count) (HoldsFlow R) (select cases hasDefault) := by
  refine safe_bind (safe_begin _) fun _ _ => ?_
  refine safe_bind (safe_selectReady hcases) fun chosen hchosen => ?_
  split
  · exact safe_bind (safe_pushSelected (hchosen _ rfl) _) fun _ _ => safe_pure trivial
  · split
    · have hnil : R.Holds .nil := trivial
      exact safe_bind (safe_pushSelected hnil _) fun _ _ => safe_pure trivial
    · refine safe_bind (safe_parkCases fun c hc => hcases _ ?_) fun _ _ => safe_pure trivial
      exact List.fst_mem_of_mem_zipIdx hc

theorem safe_popCases : ∀ kinds : List Nat,
    Safe (R.Encloses limit count) (fun cs => ∀ c ∈ cs, HoldsCase R c) (popCases kinds)
  | [] => safe_pure nofun
  | kind :: kinds => by
    unfold popCases
    dsimp only
    have hrest : ∀ case, HoldsCase R case → Safe (R.Encloses limit count)
        (fun cs => ∀ c ∈ cs, HoldsCase R c) (do
          let before ← popCases kinds
          pure (before ++ [case])) := by
      intro case hcase
      refine safe_bind (safe_popCases kinds) fun before hbefore => safe_pure fun c hc => ?_
      rcases List.mem_append.mp hc with hc | hc
      · exact hbefore c hc
      · rw [List.mem_singleton.mp hc]
        exact hcase
    split
    · refine safe_bind safe_pop fun v hv => safe_bind safe_popChannel fun c _ => ?_
      exact safe_bind (Q := HoldsCase R) (safe_pure hv) hrest
    · refine safe_bind safe_popChannel fun c hc => ?_
      exact safe_bind (Q := HoldsCase R) (safe_pure hc) hrest

theorem safe_selectOperands :
    Safe (R.Encloses limit count) (fun r => ∀ c ∈ r.1, HoldsCase R c) selectOperands := by
  refine safe_bind safe_readByte fun count _ => safe_bind safe_readByte fun flags _ => ?_
  refine safe_bind (safe_readBytes count) fun kinds _ => ?_
  exact safe_bind (safe_popCases _) fun cases hcases => safe_pure hcases

/-! ## Instructions -/

theorem holds_arithmetic {verb : String} {f : Number → Number → Except RuntimeError Number}
    {a b v : Value} (h : Value.arithmetic verb f a b = .ok v) : R.Holds v := by
  unfold Value.arithmetic at h
  split at h
  · rename_i x y
    cases hf : f x y with
    | ok n =>
      rw [hf] at h
      cases h
      exact trivial
    | error e =>
      rw [hf] at h
      cases h
  · cases h

theorem holds_add {h : Heap} {a b v : Value} (hv : h.add a b = .ok v) : R.Holds v := by
  unfold Heap.add at hv
  split at hv
  all_goals
    cases hv
    try exact trivial

theorem holds_substring {s first last v : Value} (h : Value.substring s first last = .ok v) :
    R.Holds v := by
  unfold Value.substring at h
  split at h
  · rename_i text
    cases hfirst : first.position (text.toList.length + 1) with
    | error e =>
      simp only [hfirst] at h
      cases h
    | ok start =>
      cases hlast : last.position (text.toList.length + 1) with
      | error e =>
        simp only [hfirst, hlast] at h
        cases h
      | ok stop =>
        simp only [hfirst, hlast] at h
        change (if stop < start then _ else _) = _ at h
        split at h
        · cases h
        · cases h
          exact trivial
  · cases h

theorem safe_substring (s first last : Value) :
    Safe (R.Encloses limit count) R.Holds (Exec.ofExcept (Value.substring s first last)) :=
  safe_ofExcept fun _ h => holds_substring h

theorem safe_neg (v : Value) : Safe (R.Encloses limit count) R.Holds (Exec.ofExcept v.neg) := by
  refine safe_ofExcept fun w hw => ?_
  cases v with
  | number x =>
    cases hw
    exact trivial
  | _ => cases hw

theorem safe_newChannel (n : Nat) :
    Safe (R.Encloses limit count) R.channels (create (·.newChannel (.ofCapacity n))) :=
  safe_create fun _ hh => ⟨hh.newChannels _ (Nat.le_refl _), hh.newChannel n⟩

theorem safe_iterationItems {s : Turn} (hs : R.Encloses limit count s) {v : Value}
    (hv : R.Holds v) : Safe (R.Encloses limit count) (fun items => ∀ w ∈ items, R.Holds w)
      (Exec.ofExcept (s.heap.iterationItems v)) :=
  safe_ofExcept fun _ hi => hs.heap.iterationItems hv hi

theorem safe_setIndex {s : Turn} (hs : R.Encloses limit count s) {collection v : Value}
    (key : Value) (hc : R.Holds collection) (hv : R.Holds v) :
    Safe (R.Encloses limit count) R.Clean (Exec.ofExcept (s.heap.setIndex collection key v)) :=
  safe_ofExcept fun _ hh => hs.heap.setIndex hc hv hh

theorem safe_mapGet : Safe (R.Encloses limit count) (HoldsFlow R) (execute .mapGet) := by
  unfold execute
  dsimp only
  refine safe_bind safe_popKey fun key _ => safe_bind safe_pop fun v hv => ?_
  refine safe_bind (safe_mapOf hv) fun m hm => safe_get_bind fun s hs => ?_
  refine safe_bind (safe_keyed (hs.heap.maps m hm) key) fun found hfound => ?_
  exact safe_bind (safe_push hfound) fun _ _ => safe_pure trivial

theorem safe_mapSet : Safe (R.Encloses limit count) (HoldsFlow R) (execute .mapSet) := by
  unfold execute
  dsimp only
  refine safe_bind safe_pop fun v hv => safe_bind safe_popKey fun key _ => ?_
  refine safe_bind safe_pop fun w hw => safe_bind (safe_mapOf hw) fun m hm => ?_
  refine safe_get_bind fun s hs => ?_
  refine safe_bind (safe_setMap m ((hs.heap.maps m hm).insert key hv)) fun _ _ => ?_
  exact safe_bind (safe_push hv) fun _ _ => safe_pure trivial

theorem safe_mapDelete :
    Safe (R.Encloses limit count) (HoldsFlow R) (execute .mapDelete) := by
  unfold execute
  dsimp only
  refine safe_bind safe_popKey fun key _ => safe_bind safe_pop fun v hv => ?_
  refine safe_bind (safe_mapOf hv) fun m hm => safe_get_bind fun s hs => ?_
  have hentries := hs.heap.maps m hm
  refine safe_bind (safe_keyed hentries key) fun removed hremoved => ?_
  refine safe_bind (safe_setMap m (hentries.erase key)) fun _ _ => ?_
  exact safe_bind (safe_push hremoved) fun _ _ => safe_pure trivial

theorem safe_execute (op : Opcode) :
    Safe (R.Encloses limit count) (HoldsFlow R) (execute op) := by
  cases op
  case mapGet => exact safe_mapGet
  case mapSet => exact safe_mapSet
  case mapDelete => exact safe_mapDelete
  case equal | notEqual => exact safe_bind (safe_equality _) fun _ _ => safe_pure trivial
  case greater | less | greaterEqual | lessEqual =>
    exact safe_bind (safe_ordering _) fun _ _ => safe_pure trivial
  case setIndex =>
    unfold execute
    dsimp only
    refine safe_bind safe_pop fun v hv => safe_bind safe_pop fun key _ => ?_
    refine safe_bind safe_pop fun collection hc => safe_get_bind fun s hs => ?_
    refine safe_bind (safe_setIndex hs key hc hv) fun heap hheap => ?_
    refine safe_bind (safe_modifyHeap fun _ _ => hheap) fun _ _ => ?_
    exact safe_bind (safe_push hv) fun _ _ => safe_pure trivial
  case iterStart =>
    unfold execute
    dsimp only
    refine safe_bind safe_pop fun v hv => safe_get_bind fun s hs => ?_
    refine safe_bind (safe_iterationItems hs hv) fun items hitems => ?_
    refine safe_bind (safe_modifyTask fun t ht => ht.withIterations fun i hi => ?_) fun _ _ =>
      safe_pure trivial
    rcases List.mem_cons.mp hi with rfl | hi
    · exact hitems
    · exact ht.iterations i hi
  all_goals
    unfold execute
    dsimp only
    repeat' first
      -- What comes first decides how the rest is looked at, and what is known of the result.
      | with_reducible refine safe_get_bind fun s hs => ?_
      | with_reducible refine safe_bind (safe_push ?_) fun _ _ => ?_
      | with_reducible refine safe_bind (safe_binary ?_) fun _ _ => ?_
      | with_reducible refine safe_bind (safe_pushArray ?_) fun _ _ => ?_
      | with_reducible refine safe_bind (safe_pushFirst _ ?_) fun _ _ => ?_
      | with_reducible refine safe_bind (Q := ?_) ?_ fun v hv => ?_
      | with_reducible assumption
      | exact trivial
      | with_reducible exact safe_readByte
      | with_reducible exact safe_readWord
      | with_reducible exact safe_readOffset
      | with_reducible exact safe_readName
      | with_reducible exact safe_readUpvalue
      | with_reducible exact safe_pop
      | with_reducible exact safe_peek
      | with_reducible exact safe_popMany _
      | with_reducible exact safe_constant _
      | with_reducible exact safe_popChannel
      | with_reducible exact safe_popKey
      | with_reducible exact safe_selectOperands
      | with_reducible exact safe_nextItem
      | with_reducible exact safe_localIndex _
      | with_reducible exact safe_globalSlot _
      | with_reducible exact safe_pushLocal _
      | with_reducible exact safe_jump _
      | with_reducible exact safe_makeClosure
      | with_reducible exact safe_pushMap _
      | with_reducible exact safe_writeLine _
      | with_reducible exact safe_endIteration
      | with_reducible exact safe_tryBegin
      | with_reducible exact safe_tryEnd
      | with_reducible exact safe_dropHandler
      | with_reducible exact safe_channelClose _
      | with_reducible exact safe_newChannel _
      | with_reducible exact safe_raise _
      | with_reducible exact safe_substring _ _ _
      | with_reducible exact safe_neg _
      | with_reducible exact safe_check (Heap.length _ _)
      | with_reducible exact safe_check (capacityOf _ _)
      | with_reducible exact safe_leaveFrame ‹_›
      | with_reducible exact safe_channelSend _ ‹_›
      | with_reducible exact safe_channelReceive ‹_›
      | with_reducible exact safe_select ‹_› _
      | with_reducible exact safe_readCell ‹_›
      | with_reducible exact safe_spawn ‹_› ‹_›
      | with_reducible exact safe_mapOf ‹_›
      | with_reducible exact safe_setSlot _ ‹_›
      | with_reducible exact safe_setGlobal _ ‹_›
      | with_reducible exact safe_writeCell _ ‹_›
      | with_reducible exact safe_callValue ‹_› _
      | with_reducible refine safe_pure ?_
      | split
  case getGlobal => exact Region.holds_getD fun v hv => hs.globals.at? hv
  case add => exact fun _ _ _ _ _ _ _ hv => holds_add hv
  case sub => exact fun _ _ _ _ _ _ _ hv => holds_arithmetic hv
  case mul => exact fun _ _ _ _ _ _ _ hv => holds_arithmetic hv
  case div => exact fun _ _ _ _ _ _ _ hv => holds_arithmetic hv
  case mod => exact fun _ _ _ _ _ _ _ hv => holds_arithmetic hv
  case getIndex => exact fun _ _ _ _ hR ha _ hv => hR.index ha hv
  case concat =>
    intro _ _ _ _ _ _ _ hv
    cases hv
    exact trivial
  case mapKeys => exact Region.holds_strings _ _
  case mapValues => exact (hs.heap.maps _ hv).values
  case throwValue => exact hv
  case channelNew => exact hv
  case halt => exact Region.holds_getD fun v hv => hs.task.stack v (Array.mem_of_back? hv)
  -- What is left are the elements of an array that is unpacked, and the next one of an iteration.
  · exact hs.heap.elements hv
  · exact hv _ rfl

/-! ## A turn -/

theorem safe_fetch : Safe (R.Encloses limit count) (fun _ => True) fetch := by
  refine safe_bind safe_frame fun f hf => safe_get_bind fun s _ => ?_
  split
  · exact safe_raise _
  · split
    · exact safe_raise _
    · exact safe_bind (safe_modifyTask fun t ht => ht.setFrame hf) fun _ _ => safe_pure trivial

theorem safe_resumeWith {r : Resume} (hr : R.HoldsResume r) :
    Safe (R.Encloses limit count) (HoldsFlow R) (Turn.resumeWith r) := by
  cases r with
  | value v => exact safe_bind (safe_push hr) fun _ _ => safe_pure trivial
  | selected index v => exact safe_bind (safe_pushSelected hr index) fun _ _ => safe_pure trivial
  | error e => exact safe_pure hr

end Exec

namespace Turn

variable {R : Region} {limit : Option Nat} {count : Nat} {s s' : Turn} {x : Exec Flow} {v : Value}

/-- Going on at a handler takes the thrown value along. -/
theorem unwind_encloses (hs : R.Encloses limit count s) (hv : R.Holds v) :
    (s.unwind v).1 ≠ some .endless ∧ R.Encloses limit count (s.unwind v).2 := by
  unfold unwind
  split
  · exact ⟨nofun, hs⟩
  · rename_i handler _ _
    obtain ⟨hheap, hopened⟩ := hs.heap.closeFrom hs.task handler.stackDepth
    have htask := ((hs.task.truncate handler.iterDepth).takeStack handler.stackDepth).push hv
    have hframes : ∀ f ∈ s.task.frames.drop (s.task.frames.length - handler.frameDepth),
        R.closures f.closure := fun f hf => hs.task.frames f (List.mem_of_mem_drop hf)
    dsimp only
    split
    · rename_i f callers hf
      have hf : s.task.frames.drop (s.task.frames.length - handler.frameDepth) = f :: callers := hf
      rw [hf] at hframes
      refine ⟨nofun, hs.hosts, hheap, hs.globals, ⟨htask.stack, htask.iterations, htask.resume,
        fun g hg => ?_, hopened⟩, hs.tasks, hs.limit, hs.count⟩
      rcases List.mem_cons.mp hg with rfl | hg
      · exact hframes f List.mem_cons_self
      · exact hframes g (List.mem_cons_of_mem _ hg)
    · exact ⟨nofun, hs.hosts, hheap, hs.globals, ⟨htask.stack, htask.iterations, htask.resume,
        hframes, hopened⟩, hs.tasks, hs.limit, hs.count⟩

theorem perform_encloses (hx : Safe (R.Encloses limit count) (Exec.HoldsFlow R) x)
    (hs : R.Encloses limit count s) :
    (s.perform x).1 ≠ some .endless ∧ R.Encloses limit count (s.perform x).2 := by
  unfold perform
  cases h : x s with
  | ok flow s' =>
    obtain ⟨hflow, hs'⟩ := hx.of_ok hs h
    cases flow with
    | thrown v => exact unwind_encloses hs' hflow
    | _ => exact ⟨nofun, hs'⟩
  | error e s' =>
    obtain ⟨he, hs'⟩ := hx.of_error hs h
    cases e with
    | endless => exact absurd rfl he
    | raised e =>
      have htold : R.Encloses limit count
          { s' with events := s'.events ++ [.raised s'.task.id e] } :=
        ⟨hs'.hosts, hs'.heap, hs'.globals, hs'.task, hs'.tasks, hs'.limit, hs'.count⟩
      dsimp only [recover]
      split
      · exact ⟨nofun, htold⟩
      · rename_i hfatal
        exact unwind_encloses htold (by simpa [Region.Holds] using hfatal)

/-- **What is thrown is held**, so it is no fatal error. -/
theorem throws_holds (hx : Safe (R.Encloses limit count) (Exec.HoldsFlow R) x)
    (hs : R.Encloses limit count s) (h : s.throws? x = some (v, s')) : R.Holds v := by
  unfold throws? at h
  split at h
  · rename_i w s₁ hok
    obtain ⟨rfl, -⟩ := Prod.mk.inj (Option.some.inj h)
    exact (hx.of_ok hs hok).1
  · split at h
    · cases h
    · rename_i hfatal
      obtain ⟨rfl, -⟩ := Prod.mk.inj (Option.some.inj h)
      simpa [Region.Holds] using hfatal
  · cases h

end Turn

end TaskVm
