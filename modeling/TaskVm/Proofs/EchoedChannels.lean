import TaskVm.Proofs.Echoes

/-!
# Channels in other guises

Waiters name tasks, and a waiter of a task with another number is live when it was live before.
So sends, receives and selects find the same partners, and hand them the same values.
-/

namespace TaskVm

open Exec

namespace Exec

variable {ρ : TaskId → TaskId}

theorem liveness_guise (hρ : Renumbers ρ) (s : Turn) (g : Guise) (w : Waiter) :
    liveness (s.guise ρ g) (w.renumber ρ) = liveness s w := Scheduler.isLive_guise hρ w

theorem echo_begin (op : Operation) : Echo ρ (begin op) :=
  echoes_get_bind fun _ _ _ => echoes_note _ _

/-- A waiter is woken under the new number of its task. -/
theorem echoes_wake (hρ : Renumbers ρ) (w : Waiter) (r : Resume) :
    Echoes ρ (· = ·) (wake w r) (wake (w.renumber ρ) r) := by
  intro s g hg
  have hwake : (s.vm.scheduler.renumber ρ).wake (s.heap.guise ρ g.memory.chunks) (w.renumber ρ) r =
      _ := Scheduler.wake_guise hρ w r
  obtain ⟨hheap, hnext⟩ : (s.vm.scheduler.wake s.heap w r).2.2.chunks = s.heap.chunks ∧
      (s.vm.scheduler.wake s.heap w r).2.1.nextId = s.vm.scheduler.nextId := by
    unfold Scheduler.wake
    split <;> exact ⟨rfl, rfl⟩
  unfold wake
  rw [modify_apply, modify_apply, show (s.guise ρ g).vm.scheduler.wake (s.guise ρ g).heap
    (w.renumber ρ) r = _ from hwake]
  generalize s.vm.scheduler.wake s.heap w r = result at hheap hnext
  obtain ⟨live, scheduler, heap⟩ := result
  dsimp only at hheap hnext ⊢
  let acts := if live then g.acts ++ [.woken (w.renumber ρ) r] else g.acts
  refine .ok_of_eq (g := { g with acts }) rfl ?_ rfl
  unfold Guise.Fits Turn.memory
  dsimp only
  rw [hheap, hnext]
  exact hg

theorem echoes_deliver (hρ : Renumbers ρ) (w : Waiter) (v : Value) :
    Echoes ρ (· = ·) (deliver w v) (deliver (w.renumber ρ) v) := echoes_wake hρ w _

theorem echoes_setChannel (id : ChannelId) (c : Channel) :
    Echoes ρ (· = ·) (setChannel id c) (setChannel id (c.renumber ρ)) :=
  echoes_modify fun s g hg => ⟨g, hg,
    congrArg (fun heap => { s.guise ρ g with heap }) (Heap.setChannel_guise id c)⟩

theorem echoes_trySend (hρ : Renumbers ρ) (id : ChannelId) (v : Value) :
    Echoes ρ (fun o o' => o' = o.renumber ρ) (trySend id v) (trySend id v) := by
  refine echoes_get_bind fun s g hg => ?_
  have hsend := Channel.trySend_renumber (liveness_guise hρ s g) (s.heap.channel id) v
  rw [show (s.guise ρ g).heap.channel id = _ from Heap.channel_guise id, hsend]
  generalize (s.heap.channel id).trySend (liveness s) v = result
  obtain ⟨outcome, c⟩ := result
  refine echoes_bind (echoes_setChannel id c) fun _ _ _ => ?_
  cases outcome with
  | sent handedTo =>
    cases handedTo with
    | none => exact echoes_bind (echoes_note _ _) fun _ _ _ => echoes_pure rfl
    | some handed =>
      refine echoes_bind (echoes_note _ _) fun _ _ _ => ?_
      exact echoes_bind (echoes_deliver hρ handed.1 handed.2) fun _ _ _ => echoes_pure rfl
  | closed v => exact echoes_bind (echoes_note _ _) fun _ _ _ => echoes_pure rfl
  | wouldBlock v => exact echoes_pure rfl

theorem echoes_tryReceive (hρ : Renumbers ρ) (id : ChannelId) :
    Echoes ρ (fun o o' => o' = o.renumber ρ) (tryReceive id) (tryReceive id) := by
  refine echoes_get_bind fun s g hg => ?_
  have hreceive := Channel.tryReceive_renumber (liveness_guise hρ s g) (s.heap.channel id)
  rw [show (s.guise ρ g).heap.channel id = _ from Heap.channel_guise id, hreceive]
  generalize (s.heap.channel id).tryReceive (liveness s) = result
  obtain ⟨outcome, c⟩ := result
  refine echoes_bind (echoes_setChannel id c) fun _ _ _ => ?_
  cases outcome with
  | received v released =>
    cases released with
    | none => exact echoes_bind (echoes_note _ _) fun _ _ _ => echoes_pure rfl
    | some w =>
      refine echoes_bind (echoes_note _ _) fun _ _ _ => ?_
      exact echoes_bind (echoes_deliver hρ w .nil) fun _ _ _ => echoes_pure rfl
  | closed => exact echoes_bind (echoes_note _ _) fun _ _ _ => echoes_pure rfl
  | wouldBlock => exact echoes_pure rfl

theorem echoes_park {live live' : Waiter → Bool} (hlive : ∀ w, live' (w.renumber ρ) = live w)
    (id : ChannelId) (w : Waiter) (offer : Option Value) :
    Echoes ρ (· = ·) (park live id w offer) (park live' id (w.renumber ρ) offer) := by
  refine echoes_get_bind fun s g hg => ?_
  rw [show (s.guise ρ g).heap.channel id = _ from Heap.channel_guise id]
  cases offer with
  | none =>
    dsimp only
    rw [Channel.parkReceiver_renumber hlive]
    exact echoes_bind (echoes_setChannel id _) fun _ _ _ => echoes_note _ _
  | some v =>
    dsimp only
    rw [Channel.parkSender_renumber hlive]
    exact echoes_bind (echoes_setChannel id _) fun _ _ _ => echoes_note _ _

theorem echo_channelSend (hρ : Renumbers ρ) (id : ChannelId) (v : Value) :
    Echo ρ (channelSend id v) := by
  refine echo_bind (echo_begin _) fun _ => echoes_bind (echoes_trySend hρ id v) fun o o' ho => ?_
  subst ho
  cases o with
  | sent handedTo => exact echo_bind (echo_push _) fun _ => echo_pure _
  | closed v => exact echoes_raise _
  | wouldBlock v =>
    refine echoes_get_bind fun s g hg => ?_
    refine echoes_bind (echoes_park (liveness_guise hρ s g) id (s.task.waiter none) (some v))
      fun _ _ _ => echo_pure _

theorem echo_channelReceive (hρ : Renumbers ρ) (id : ChannelId) : Echo ρ (channelReceive id) := by
  refine echo_bind (echo_begin _) fun _ => echoes_bind (echoes_tryReceive hρ id) fun o o' ho => ?_
  subst ho
  cases o with
  | received v released => exact echo_bind (echo_push _) fun _ => echo_pure _
  | closed => exact echo_bind (echo_push _) fun _ => echo_pure _
  | wouldBlock =>
    refine echoes_get_bind fun s g hg => ?_
    exact echoes_bind (echoes_park (liveness_guise hρ s g) id (s.task.waiter none) none)
      fun _ _ _ => echo_pure _

/-- Waiters in a row. -/
theorem echoes_forM {f : Waiter → Exec PUnit}
    (hf : ∀ w, Echoes ρ (· = ·) (f w) (f (w.renumber ρ))) (ws : List Waiter) :
    Echoes ρ (· = ·) (ws.forM f) ((ws.map (·.renumber ρ)).forM f) := by
  induction ws with
  | nil => exact echo_pure _
  | cons w ws ih => exact echoes_bind (hf w) fun _ _ _ => ih

theorem echo_channelClose (hρ : Renumbers ρ) (id : ChannelId) : Echo ρ (channelClose id) := by
  refine echoes_get_bind fun s g hg => ?_
  rw [show (s.guise ρ g).heap.channel id = _ from Heap.channel_guise id, Channel.close?_renumber]
  cases (s.heap.channel id).close? with
  | none => exact echoes_raise _
  | some closed =>
    obtain ⟨receivers, senders, c⟩ := closed
    refine echoes_bind (echoes_setChannel id c) fun _ _ _ => ?_
    refine echoes_bind (echoes_forM (fun w => echoes_deliver hρ w .nil) receivers) fun _ _ _ => ?_
    refine echoes_bind (echoes_forM (fun w => echoes_wake hρ w _) senders) fun _ _ _ => ?_
    exact echoes_note _ _

/-! ### Select -/

theorem echo_tryCase (hρ : Renumbers ρ) (case : SelectCase) : Echo ρ (tryCase case) := by
  cases case with
  | receive id =>
    refine echoes_bind (echoes_tryReceive hρ id) fun o o' ho => ?_
    subst ho
    cases o <;> exact echo_pure _
  | send id v =>
    refine echoes_bind (echoes_trySend hρ id v) fun o o' ho => ?_
    subst ho
    cases o with
    | sent handedTo => exact echo_pure _
    | closed v => exact echoes_raise _
    | wouldBlock v => exact echo_pure _

theorem echo_drawCase (ready : List Nat) : Echo ρ (drawCase ready) :=
  fun _ _ hg => .ok_of_eq rfl hg rfl

/-- The same cases are ready. -/
theorem readyIndices_guise {h : Heap} {chunks : Array Chunk} {live live' : Waiter → Bool}
    (hlive : ∀ w, live' (w.renumber ρ) = live w) (cases : List SelectCase) :
    SelectCase.readyIndices (h.guise ρ chunks) live' cases =
      SelectCase.readyIndices h live cases := by
  have hready : ∀ case : SelectCase,
      case.isReady (h.guise ρ chunks) live' = case.isReady h live := by
    intro case
    cases case with
    | receive id =>
      exact (congrArg _ (Heap.channel_guise id)).trans (Channel.receiveReady_renumber hlive _)
    | send id v =>
      exact (congrArg _ (Heap.channel_guise id)).trans (Channel.sendReady_renumber hlive _)
  unfold SelectCase.readyIndices
  simp only [hready]

theorem echo_selectReady (hρ : Renumbers ρ) (cases : List SelectCase) :
    Echo ρ (selectReady cases) := by
  refine echoes_get_bind fun s g hg => ?_
  dsimp only
  rw [show (s.guise ρ g).heap = s.heap.guise ρ g.memory.chunks from rfl,
    readyIndices_guise (liveness_guise hρ s g)]
  split
  · exact echo_pure _
  · refine echo_bind (echo_drawCase _) fun index => ?_
    split
    · exact echo_pure _
    · refine echo_bind (echo_tryCase hρ _) fun found => ?_
      split <;> exact echo_pure _

theorem echo_parkCases (hρ : Renumbers ρ) :
    ∀ cases : List (SelectCase × Nat), Echo ρ (parkCases cases)
  | [] => echo_pure _
  | (case, index) :: rest => by
    refine echoes_get_bind fun s g hg => ?_
    dsimp only
    have hlive : ∀ w : Waiter,
        ((w.renumber ρ).task == (s.guise ρ g).task.id &&
          (w.renumber ρ).epoch == (s.guise ρ g).task.waitEpoch ||
          liveness (s.guise ρ g) (w.renumber ρ)) =
        (w.task == s.task.id && w.epoch == s.task.waitEpoch || liveness s w) := by
      intro w
      rw [liveness_guise hρ]
      refine congrArg (fun same => same && w.epoch == s.task.waitEpoch || liveness s w) ?_
      rw [Bool.eq_iff_iff, beq_iff_eq, beq_iff_eq]
      exact hρ.eq_iff
    cases case with
    | receive id =>
      exact echoes_bind (echoes_park hlive id (s.task.waiter (some index)) none) fun _ _ _ =>
        echo_parkCases hρ rest
    | send id v =>
      exact echoes_bind (echoes_park hlive id (s.task.waiter (some index)) (some v)) fun _ _ _ =>
        echo_parkCases hρ rest

theorem echo_pushSelected (v : Value) (index : Int) : Echo ρ (pushSelected v index) :=
  echo_bind (echo_push v) fun _ => echo_push _

theorem echo_select (hρ : Renumbers ρ) (cases : List SelectCase) (hasDefault : Bool) :
    Echo ρ (select cases hasDefault) := by
  refine echo_bind (echo_begin _) fun _ => echo_bind (echo_selectReady hρ cases) fun found => ?_
  split
  · exact echo_bind (echo_pushSelected _ _) fun _ => echo_pure _
  · split
    · exact echo_bind (echo_pushSelected _ _) fun _ => echo_pure _
    · exact echo_bind (echo_parkCases hρ _) fun _ => echo_pure _

theorem echo_popCases : ∀ kinds : List Nat, Echo ρ (popCases kinds)
  | [] => echo_pure _
  | kind :: kinds => by
    unfold popCases
    dsimp only
    split
    · refine echo_bind echo_pop fun v => echo_bind echo_popChannel fun c => ?_
      refine echo_bind (echo_pure _) fun case => ?_
      exact echo_bind (echo_popCases kinds) fun _ => echo_pure _
    · refine echo_bind echo_popChannel fun c => ?_
      refine echo_bind (echo_pure _) fun case => ?_
      exact echo_bind (echo_popCases kinds) fun _ => echo_pure _

theorem echo_selectOperands : Echo ρ selectOperands := by
  refine echo_bind echo_readByte fun count => echo_bind echo_readByte fun flags => ?_
  refine echo_bind (echo_readBytes count) fun kinds => ?_
  exact echo_bind (echo_popCases _) fun _ => echo_pure _

theorem echo_newChannel (capacity : Nat) : Echo ρ (create (·.newChannel (.ofCapacity capacity))) :=
  echo_create (fun _ => rfl) fun _ _ => Heap.newChannel_guise capacity

end Exec

end TaskVm
