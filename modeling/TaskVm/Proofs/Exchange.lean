import TaskVm.Proofs.Following

/-!
# What goes through channels

Sends, receives and closes, followed on the net. Each of them looks at the lines through
what is live, so what it finds there is what the net has.
-/

namespace TaskVm

open Exec Relation

/-! ## Lines -/

/-- Skipping the dead until the first who is live finds the first live one. -/
theorem filter_of_dropWhile {α : Type} {live : α → Bool} {l : List α} :
    (l.dropWhile (fun a => !live a) = [] → l.filter live = []) ∧
    ∀ a rest, l.dropWhile (fun a => !live a) = a :: rest →
      live a = true ∧ l.filter live = a :: rest.filter live ∧ ∀ b ∈ a :: rest, b ∈ l := by
  induction l with
  | nil => exact ⟨fun _ => rfl, fun _ _ h => nomatch h⟩
  | cons b l ih =>
    cases hb : live b with
    | false =>
      rw [List.dropWhile_cons_of_pos (by rw [hb]; rfl), List.filter_cons_of_neg (by simp [hb])]
      refine ⟨ih.1, fun a rest h => ?_⟩
      obtain ⟨ha, hf, hmem⟩ := ih.2 a rest h
      exact ⟨ha, hf, fun c hc => List.mem_cons_of_mem b (hmem c hc)⟩
    | true =>
      rw [List.dropWhile_cons_of_neg (by simp [hb]), List.filter_cons_of_pos hb]
      refine ⟨fun h => absurd h (List.cons_ne_nil b l), fun a rest h => ?_⟩
      injection h with ha hr
      subst ha hr
      exact ⟨hb, rfl, fun c hc => hc⟩

namespace Channel

variable (live : Waiter → Bool) (c : Channel)

/-- What a send comes to. -/
theorem trySend_cases (v : Value) :
    (c.closed = true ∧ c.trySend live v = (.closed v, c)) ∨
    (c.closed = false ∧ ∃ w rest, live w = true ∧ c.receivers.filter live = w :: rest.filter live ∧
      (∀ w' ∈ rest, w' ∈ c.receivers) ∧
      c.trySend live v = (.sent (some (w, v)), { c with receivers := rest })) ∨
    (c.closed = false ∧ c.receivers.filter live = [] ∧ c.buffer.length < c.capacity ∧
      c.trySend live v = (.sent none, { c with receivers := [], buffer := c.buffer ++ [v] })) ∨
    (c.closed = false ∧ c.receivers.filter live = [] ∧ c.capacity ≤ c.buffer.length ∧
      c.trySend live v = (.wouldBlock v, { c with receivers := [] })) := by
  unfold trySend
  cases hc : c.closed with
  | true => exact .inl ⟨rfl, rfl⟩
  | false =>
    cases hd : c.receivers.dropWhile fun w => !live w with
    | cons w rest =>
      obtain ⟨hw, hf, hmem⟩ := filter_of_dropWhile.2 w rest hd
      exact .inr (.inl ⟨rfl, w, rest, hw, hf, fun w' h => hmem w' (List.mem_cons_of_mem w h), rfl⟩)
    | nil =>
      have hf := filter_of_dropWhile.1 hd
      by_cases hroom : c.buffer.length < c.capacity
      · exact .inr (.inr (.inl ⟨rfl, hf, hroom, by simp [hroom]⟩))
      · exact .inr (.inr (.inr ⟨rfl, hf, Nat.le_of_not_lt hroom, by simp [hroom]⟩))

/-- Who is let in by a receive. -/
theorem liveSender?_cases (senders : List (Waiter × Value)) :
    (senders.filter (fun s => live s.1) = [] ∧ liveSender? live senders = (none, [])) ∨
    ∃ s rest, live s.1 = true ∧
      senders.filter (fun s => live s.1) = s :: rest.filter (fun s => live s.1) ∧
      (∀ s' ∈ rest, s' ∈ senders) ∧ liveSender? live senders = (some s, rest) := by
  unfold liveSender?
  cases hd : senders.dropWhile fun s => !live s.1 with
  | nil => exact .inl ⟨filter_of_dropWhile.1 hd, rfl⟩
  | cons s rest =>
    obtain ⟨hs, hf, hmem⟩ := filter_of_dropWhile.2 s rest hd
    exact .inr ⟨s, rest, hs, hf, fun s' h => hmem s' (List.mem_cons_of_mem s h), rfl⟩

/-- What a receive comes to. -/
theorem tryReceive_cases :
    (∃ v buffer, c.buffer = v :: buffer ∧ c.senders.filter (fun s => live s.1) = [] ∧
      c.tryReceive live = (.received v none, { c with buffer, senders := [] })) ∨
    (∃ v buffer w u rest, c.buffer = v :: buffer ∧ live w = true ∧
      c.senders.filter (fun s => live s.1) = (w, u) :: rest.filter (fun s => live s.1) ∧
      (∀ s ∈ rest, s ∈ c.senders) ∧ c.tryReceive live =
        (.received v (some w), { c with buffer := buffer ++ [u], senders := rest })) ∨
    (∃ w v rest, c.buffer = [] ∧ live w = true ∧
      c.senders.filter (fun s => live s.1) = (w, v) :: rest.filter (fun s => live s.1) ∧
      (∀ s ∈ rest, s ∈ c.senders) ∧
      c.tryReceive live = (.received v (some w), { c with senders := rest })) ∨
    (c.buffer = [] ∧ c.senders.filter (fun s => live s.1) = [] ∧ c.closed = true ∧
      c.tryReceive live = (.closed, { c with senders := [] })) ∨
    (c.buffer = [] ∧ c.senders.filter (fun s => live s.1) = [] ∧ c.closed = false ∧
      c.tryReceive live = (.wouldBlock, { c with senders := [] })) := by
  unfold tryReceive
  rcases liveSender?_cases live c.senders with ⟨hf, hs⟩ | ⟨⟨w, u⟩, rest, hw, hf, hsub, hs⟩
  · rw [hs]
    cases hb : c.buffer with
    | cons v buffer => exact .inl ⟨v, buffer, rfl, hf, rfl⟩
    | nil =>
      cases hc : c.closed with
      | true => exact .inr (.inr (.inr (.inl ⟨rfl, hf, rfl, rfl⟩)))
      | false => exact .inr (.inr (.inr (.inr ⟨rfl, hf, rfl, rfl⟩)))
  · rw [hs]
    cases hb : c.buffer with
    | cons v buffer => exact .inr (.inl ⟨v, buffer, w, u, rest, rfl, hw, hf, hsub, rfl⟩)
    | nil => exact .inr (.inr (.inl ⟨w, u, rest, rfl, hw, hf, hsub, rfl⟩))

variable {live c}

/-- Nothing is to be had from a channel. -/
theorem receiveReady_eq_false : c.receiveReady live = false ↔
    c.closed = false ∧ c.buffer = [] ∧ c.senders.filter (fun s => live s.1) = [] := by
  simp [receiveReady, and_assoc]

/-- Nothing can be got rid of at a channel. -/
theorem sendReady_eq_false : c.sendReady live = false ↔
    c.closed = false ∧ c.capacity ≤ c.buffer.length ∧ c.receivers.filter live = [] := by
  simp [sendReady, and_assoc]

theorem trySend_idle (h : c.sendReady live = false) (v : Value) :
    c.trySend live v = (.wouldBlock v, { c with receivers := [] }) := by
  obtain ⟨ho, hfull, hf⟩ := sendReady_eq_false.mp h
  rcases c.trySend_cases live v with
    ⟨hclosed, -⟩ | ⟨-, w, rest, -, hline, -⟩ | ⟨-, -, hroom, -⟩ | ⟨-, -, -, h⟩
  · rw [ho] at hclosed
    cases hclosed
  · rw [hf] at hline
    cases hline
  · exact absurd hroom (Nat.not_lt_of_le hfull)
  · exact h

theorem tryReceive_idle (h : c.receiveReady live = false) :
    c.tryReceive live = (.wouldBlock, { c with senders := [] }) := by
  obtain ⟨ho, hb, hf⟩ := receiveReady_eq_false.mp h
  rcases c.tryReceive_cases live with
    ⟨v, buffer, hbuffer, -⟩ | ⟨v, buffer, w, u, rest, hbuffer, -⟩ |
    ⟨w, v, rest, -, -, hline, -⟩ | ⟨-, -, hclosed, -⟩ | ⟨-, -, -, h⟩
  · rw [hb] at hbuffer
    cases hbuffer
  · rw [hb] at hbuffer
    cases hbuffer
  · rw [hf] at hline
    cases hline
  · rw [ho] at hclosed
    cases hclosed
  · exact h

/-- Dropping a line nobody counts in. -/
theorem prune_no_receivers (hf : c.receivers.filter live = []) :
    ({ c with receivers := [] } : Channel).prune live = c.prune live := by
  rw [prune, prune, hf]
  rfl

theorem prune_no_senders (hf : c.senders.filter (fun s => live s.1) = []) :
    ({ c with senders := [] } : Channel).prune live = c.prune live := by
  rw [prune, prune, hf]
  rfl

/-- With nobody live in line, both lines are empty. -/
theorem prune_of_dead (h : ∀ w ∈ c.waiters, live w = false) :
    (c.prune live).receivers = [] ∧ (c.prune live).senders = [] := by
  refine ⟨List.filter_eq_nil_iff.mpr fun w hw => ?_, List.filter_eq_nil_iff.mpr fun x hx => ?_⟩
  · rw [h w (List.mem_append_left _ hw)]
    exact Bool.false_ne_true
  · rw [h x.1 (List.mem_append_right _ (List.mem_map_of_mem hx))]
    exact Bool.false_ne_true

/-- Who is in line for a channel is still in line for it if only some have gone. -/
theorem waiters_of_senders {c' : Channel} (hr : c'.receivers = c.receivers)
    (hs : ∀ x ∈ c'.senders, x ∈ c.senders) : ∀ w ∈ c'.waiters, w ∈ c.waiters := by
  intro w hw
  rw [Channel.waiters, hr] at hw
  rcases List.mem_append.mp hw with hw | hw
  · exact List.mem_append_left _ hw
  · obtain ⟨x, hx, rfl⟩ := List.mem_map.mp hw
    exact List.mem_append_right _ (List.mem_map_of_mem (hs x hx))

theorem waiters_no_receivers :
    ∀ w ∈ ({ c with receivers := [] } : Channel).waiters, w ∈ c.waiters :=
  fun _ hw => List.mem_append_right _ hw

theorem waiters_no_senders :
    ∀ w ∈ ({ c with senders := [] } : Channel).waiters, w ∈ c.waiters :=
  fun _ hw => List.mem_append_left _ ((List.mem_append.mp hw).resolve_right List.not_mem_nil)

end Channel

theorem Crew.net_channel {cs : Crew} {channels : Array Channel} {id : ChannelId} {c : Channel}
    (hc : channels[id]? = some c) : (cs.net channels).channels[id]? = some (c.prune cs.live) := by
  show (channels.map _)[id]? = _
  rw [Array.getElem?_map, hc]
  rfl

namespace Turn

variable {s : Turn}

theorem liveness_eq (s : Turn) : liveness s = s.crew.live :=
  funext fun w => Machine.isLive_eq (Machine.ofTurn s) w

theorem channel_getElem? {id : ChannelId} (hid : id < s.heap.channels.size) :
    s.heap.channels[id]? = some (s.heap.channel id) := by
  rw [Heap.channel, Array.getD_eq_getD_getElem?, Array.getElem?_eq_getElem hid]
  rfl

/-- A channel that is there, as the net sees it. -/
theorem net_channel {id : ChannelId} (hid : id < s.heap.channels.size) :
    s.net.channels[id]? = some ((s.heap.channel id).prune s.crew.live) :=
  Crew.net_channel (channel_getElem? hid)

theorem channel_mem {id : ChannelId} (hid : id < s.heap.channels.size) :
    s.heap.channel id ∈ s.heap.channels := by
  rw [Heap.channel, Array.getD_eq_getD_getElem?, Array.getElem?_eq_getElem hid]
  exact Array.getElem_mem hid

/-- A channel gets a new state, without anyone new in line. -/
theorem setChannel_good (hs : s.Good) {id : ChannelId} (hid : id < s.heap.channels.size)
    {c : Channel} (hc : ∀ w ∈ c.waiters, w ∈ (s.heap.channel id).waiters) (acts : List Act) :
    Turn.Good { s with heap := s.heap.setChannel id c, acts } ∧
      Turn.net { s with heap := s.heap.setChannel id c, acts } =
        s.net.put id (c.prune s.crew.live) := by
  have hcrew : Turn.crew { s with heap := s.heap.setChannel id c, acts } = s.crew :=
    crew_eq rfl rfl rfl rfl rfl
  refine ⟨⟨hs.tame, ?_, ?_⟩, ?_⟩
  · rw [hcrew]
    exact hs.tended
  · rw [hcrew]
    intro ch hch w hw
    rcases Array.mem_or_eq_of_mem_setIfInBounds hch with hch | rfl
    · exact hs.dated ch hch w hw
    · exact hs.dated _ (channel_mem hid) w (hc w hw)
  · rw [Turn.net, hcrew]
    unfold Crew.net Net.put Turn.net Crew.net
    dsimp only [Heap.setChannel]
    rw [Array.map_setIfInBounds]

/-- A channel gets a new state and one who was in line is woken: on the net that is one step. -/
theorem follows_handed (hs : s.Good) {id : ChannelId} (hid : id < s.heap.channels.size)
    {c : Channel} (hc : ∀ w ∈ c.waiters, w ∈ (s.heap.channel id).waiters) {w : Waiter}
    (hw : s.crew.live w = true) {a : Act} {r : Resume}
    (hstep : Net.Step s.net [a, .woken w r]
      ((s.net.put id (c.prune s.crew.live)).wake w r)) :
    Follows s (endState (wake w r) { s with
      heap := s.heap.setChannel id c, acts := s.acts ++ [a] }) := by
  intro _
  obtain ⟨hgood, hnet⟩ := setChannel_good hs hid hc (s.acts ++ [a])
  -- Being live does not depend on what channels hold.
  obtain ⟨hgood', hacts, hnet'⟩ := wake_live hgood (w := w) hw r
  refine ⟨hgood', [a, .woken w r], ?_, ?_⟩
  · rw [hacts, List.append_assoc]
    rfl
  · rw [hnet', hnet]
    exact hstep.run

end Turn

/-! ## Sending -/

namespace Exec

variable {s : Turn} {id : ChannelId} {v : Value} {w : Waiter} {c : Channel}

theorem trySend_handed
    (h : (s.heap.channel id).trySend (liveness s) v = (.sent (some (w, v)), c)) :
    trySend id v s = .ok (.sent (some (w, v))) (endState (wake w (Scheduler.resumeOf w v)) { s with
      heap := s.heap.setChannel id c, acts := s.acts ++ [.sent id v (some w)] }) := by
  rw [trySend, get_bind_apply]
  dsimp only
  rw [h]
  rfl

theorem trySend_stored (h : (s.heap.channel id).trySend (liveness s) v = (.sent none, c)) :
    trySend id v s = .ok (.sent none) { s with
      heap := s.heap.setChannel id c, acts := s.acts ++ [.sent id v none] } := by
  rw [trySend, get_bind_apply]
  dsimp only
  rw [h]
  rfl

theorem trySend_closed (h : (s.heap.channel id).trySend (liveness s) v = (.closed v, c)) :
    trySend id v s = .ok (.closed v) { s with
      heap := s.heap.setChannel id c, acts := s.acts ++ [.refused id v] } := by
  rw [trySend, get_bind_apply]
  dsimp only
  rw [h]
  rfl

theorem trySend_blocked (h : (s.heap.channel id).trySend (liveness s) v = (.wouldBlock v, c)) :
    trySend id v s = .ok (.wouldBlock v) { s with heap := s.heap.setChannel id c } := by
  rw [trySend, get_bind_apply]
  dsimp only
  rw [h]
  rfl

theorem leads_trySend (hid : id < s.heap.channels.size) (v : Value) :
    Leads Follows (trySend id v) s := by
  intro hs
  have hlive := Turn.liveness_eq s
  have hc := Turn.net_channel hid
  rcases Channel.trySend_cases (liveness s) (s.heap.channel id) v with
    ⟨-, h⟩ | ⟨ho, w, rest, hw, hf, hsub, h⟩ | ⟨ho, hf, hroom, h⟩ | ⟨-, hf, -, h⟩
  · rw [endState_ok (trySend_closed h)]
    obtain ⟨hgood, hnet⟩ := Turn.setChannel_good hs hid (c := s.heap.channel id)
      (fun w hw => hw) (s.acts ++ [.refused id v])
    refine ⟨hgood, _, rfl, ?_⟩
    rw [hnet, Net.put_self hc]
    exact (Net.Step.quiet rfl).run
  · rw [endState_ok (trySend_handed h)]
    rw [hlive] at hf hw
    refine Turn.follows_handed hs hid (fun w' hw' => ?_) hw (Net.Step.hand hc ho hf v) hs
    rcases List.mem_append.mp hw' with hw' | hw'
    · exact List.mem_append_left _ (hsub w' hw')
    · exact List.mem_append_right _ hw'
  · rw [endState_ok (trySend_stored h)]
    obtain ⟨hgood, hnet⟩ := Turn.setChannel_good hs hid
      (c := { s.heap.channel id with receivers := [], buffer := (s.heap.channel id).buffer ++ [v] })
      (fun w hw => List.mem_append_right _ hw) (s.acts ++ [.sent id v none])
    refine ⟨hgood, _, rfl, ?_⟩
    rw [hlive] at hf
    -- Stale receivers are dropped on the way, which the net does not see.
    have hstep := (Net.Step.store hc ho hf hroom v).run
    rw [hnet]
    simpa [Channel.prune, hf] using hstep
  · rw [endState_ok (trySend_blocked h)]
    obtain ⟨hgood, hnet⟩ := Turn.setChannel_good hs hid
      (c := { s.heap.channel id with receivers := [] })
      Channel.waiters_no_receivers s.acts
    refine ⟨hgood, [], (List.append_nil _).symm, ?_⟩
    rw [hlive] at hf
    rw [hnet, Channel.prune_no_receivers hf, Net.put_self hc]
    exact .refl

/-! ## Receiving -/

theorem tryReceive_handed
    (h : (s.heap.channel id).tryReceive (liveness s) = (.received v (some w), c)) :
    tryReceive id s = .ok (.received v (some w)) (endState (wake w (Scheduler.resumeOf w .nil))
      { s with heap := s.heap.setChannel id c, acts := s.acts ++ [.received id v (some w)] }) := by
  rw [tryReceive, get_bind_apply]
  dsimp only
  rw [h]
  rfl

theorem tryReceive_taken
    (h : (s.heap.channel id).tryReceive (liveness s) = (.received v none, c)) :
    tryReceive id s = .ok (.received v none) { s with
      heap := s.heap.setChannel id c, acts := s.acts ++ [.received id v none] } := by
  rw [tryReceive, get_bind_apply]
  dsimp only
  rw [h]
  rfl

theorem tryReceive_closed (h : (s.heap.channel id).tryReceive (liveness s) = (.closed, c)) :
    tryReceive id s = .ok .closed { s with
      heap := s.heap.setChannel id c, acts := s.acts ++ [.drained id] } := by
  rw [tryReceive, get_bind_apply]
  dsimp only
  rw [h]
  rfl

theorem tryReceive_blocked (h : (s.heap.channel id).tryReceive (liveness s) = (.wouldBlock, c)) :
    tryReceive id s = .ok .wouldBlock { s with heap := s.heap.setChannel id c } := by
  rw [tryReceive, get_bind_apply]
  dsimp only
  rw [h]
  rfl

theorem leads_tryReceive (hid : id < s.heap.channels.size) : Leads Follows (tryReceive id) s := by
  intro hs
  have hlive := Turn.liveness_eq s
  have hc := Turn.net_channel hid
  -- Each outcome is the step of the network with the same guard, once the line has been pruned.
  rcases Channel.tryReceive_cases (liveness s) (s.heap.channel id) with
    ⟨v, buffer, hb, hf, h⟩ | ⟨v, buffer, w, u, rest, hb, hw, hf, hsub, h⟩ |
    ⟨w, v, rest, hb, hw, hf, hsub, h⟩ | ⟨-, hf, -, h⟩ | ⟨-, hf, -, h⟩
  · rw [endState_ok (tryReceive_taken h)]
    obtain ⟨hgood, hnet⟩ := Turn.setChannel_good hs hid
      (c := { s.heap.channel id with buffer, senders := [] })
      Channel.waiters_no_senders (s.acts ++ [.received id v none])
    refine ⟨hgood, _, rfl, ?_⟩
    rw [hlive] at hf
    have hstep := (Net.Step.take hc hb hf).run
    rw [hnet]
    simpa [Channel.prune, hf] using hstep
  · rw [endState_ok (tryReceive_handed h)]
    rw [hlive] at hf hw
    exact Turn.follows_handed hs hid
      (c := { s.heap.channel id with buffer := buffer ++ [u], senders := rest })
      (Channel.waiters_of_senders rfl hsub) hw (Net.Step.refill hc hb hf) hs
  · rw [endState_ok (tryReceive_handed h)]
    rw [hlive] at hf hw
    exact Turn.follows_handed hs hid (c := { s.heap.channel id with senders := rest })
      (Channel.waiters_of_senders rfl hsub) hw (Net.Step.fetch hc hb hf) hs
  · rw [endState_ok (tryReceive_closed h)]
    obtain ⟨hgood, hnet⟩ := Turn.setChannel_good hs hid
      (c := { s.heap.channel id with senders := [] })
      Channel.waiters_no_senders (s.acts ++ [.drained id])
    refine ⟨hgood, _, rfl, ?_⟩
    rw [hlive] at hf
    rw [hnet, Channel.prune_no_senders hf, Net.put_self hc]
    exact (Net.Step.quiet rfl).run
  · rw [endState_ok (tryReceive_blocked h)]
    obtain ⟨hgood, hnet⟩ := Turn.setChannel_good hs hid
      (c := { s.heap.channel id with senders := [] }) Channel.waiters_no_senders s.acts
    refine ⟨hgood, [], (List.append_nil _).symm, ?_⟩
    rw [hlive] at hf
    rw [hnet, Channel.prune_no_senders hf, Net.put_self hc]
    exact .refl

/-! ## Closing -/

/-- Some waiters have been told what to go on with. The net is that of the channels as they
were before. -/
structure Roused (channels : Array Channel) (l : List (Waiter × Resume)) (s s' : Turn) : Prop where
  good : TaskVm.Good s'.hosts s'.crew channels
  channels_eq : s'.heap.channels = s.heap.channels
  told : ∃ acts, s'.acts = s.acts ++ acts ∧
    Net.Tells (s.crew.net channels) l acts (s'.crew.net channels)

variable {channels : Array Channel}

theorem wake_roused {s : Turn} (hs : TaskVm.Good s.hosts s.crew channels) (w : Waiter)
    (r : Resume) : Roused channels [(w, r)] s (endState (wake w r) s) := by
  have hcrew := Turn.wake_crew s w r
  have hacts := Turn.wake_acts s w r
  have hlive : Wait.live (s.crew.net channels).waits w = s.crew.live w :=
    (congrFun (Crew.live_eq hs.tended) w).symm
  -- A stale waiter is told nothing.
  cases hw : s.crew.live w with
  | false =>
    rw [Crew.wake_dead hw] at hcrew
    rw [hw] at hacts
    refine ⟨?_, Turn.wake_channels s w r, [], ?_, ?_⟩
    · rw [hcrew]
      exact hs
    · rw [List.append_nil]
      exact hacts
    · rw [hcrew]
      exact .passed (hlive.trans hw) (.nil _)
  | true =>
    obtain ⟨hgood, hnet⟩ := TaskVm.Good.wake hs hw r
    rw [hw] at hacts
    refine ⟨?_, Turn.wake_channels s w r, [.woken w r], hacts, ?_⟩
    · rw [hcrew]
      exact hgood
    · rw [hcrew, hnet]
      exact .single (hlive.trans hw) r

theorem Roused.append {l l' : List (Waiter × Resume)} {s s' s'' : Turn}
    (h : Roused channels l s s') (h' : Roused channels l' s' s'') :
    Roused channels (l ++ l') s s'' where
  good := h'.good
  channels_eq := h'.channels_eq.trans h.channels_eq
  told := by
    obtain ⟨acts, ha, ht⟩ := h.told
    obtain ⟨acts', ha', ht'⟩ := h'.told
    exact ⟨acts ++ acts', by rw [ha', ha, List.append_assoc], ht.append ht'⟩

/-- All in line are told the same. -/
theorem wakeAll_roused (f : Waiter → Resume) :
    ∀ (l : List Waiter) (s : Turn), TaskVm.Good s.hosts s.crew channels →
    ∃ s', l.forM (fun w => wake w (f w)) s = .ok ⟨⟩ s' ∧
      Roused channels (l.map fun w => (w, f w)) s s'
  | [], s, hs => ⟨s, rfl, hs, rfl, [], (List.append_nil _).symm, .nil _⟩
  | w :: l, s, hs => by
    have h₁ := wake_roused hs w (f w)
    obtain ⟨s', h', hroused⟩ := wakeAll_roused f l (endState (wake w (f w)) s) h₁.good
    exact ⟨s', (bind_ok (wake_apply s w (f w))).trans h', h₁.append hroused⟩

/-- Once all in line have been told, the channel closes. -/
theorem Roused.close {s s' : Turn} {c' : Channel} (h : Roused channels c.dismissals s s')
    (hgood : TaskVm.Good s.hosts s.crew channels) (hc : channels[id]? = some c)
    (ho : c.closed = false) (hc' : c' = { c with closed := true, receivers := [], senders := [] })
    (hs : s.heap.channels = channels.setIfInBounds id c') :
    s'.Good ∧ ∃ acts, s'.acts = s.acts ++ acts ∧
      Net.Step (s.crew.net channels) (acts ++ [.closed id]) s'.net := by
  obtain ⟨hgood', hchannels, acts, hacts, htold⟩ := h
  have hdead : ∀ w ∈ c.waiters, s'.crew.live w = false := by
    intro w hw
    rw [Crew.live_eq hgood'.tended]
    obtain ⟨r, hmem⟩ := Channel.exists_dismissal hw
    exact htold.all_dead hmem
  obtain ⟨hr, hsenders⟩ := Channel.prune_of_dead hdead
  have hprune : c'.prune s'.crew.live = { c.prune s'.crew.live with closed := true } := by
    rw [hc', Channel.prune, Channel.prune]
    exact congrArg₂ (fun r l => { c with closed := true, receivers := r, senders := l })
      hr.symm hsenders.symm
  have hnet : s'.net =
      (s'.crew.net channels).put id { c.prune s'.crew.live with closed := true } := by
    rw [← hprune, Turn.net, hchannels, hs, Crew.net, Array.map_setIfInBounds]
    rfl
  -- The net never had the stale waiters that the machine passes over.
  have hlines : Net.Tells (s.crew.net channels) (c.prune s.crew.live).dismissals acts
      (s'.crew.net channels) := by
    rw [Channel.dismissals_prune]
    refine htold.filter fun x _ hx => ?_
    exact (congrFun (Crew.live_eq hgood.tended) x.1).symm.trans hx
  refine ⟨⟨hgood'.tame, hgood'.tended, ?_⟩, acts, hacts, ?_⟩
  · rw [hchannels, hs]
    intro ch hch w hw
    rcases Array.mem_or_eq_of_mem_setIfInBounds hch with hch | rfl
    · exact hgood'.dated ch hch w hw
    · rw [hc'] at hw
      cases hw
  · rw [hnet]
    exact .close (Crew.net_channel hc) ho hlines (Crew.net_channel hc) hr hsenders

theorem leads_channelClose (hid : id < s.heap.channels.size) :
    Leads Follows (channelClose id) s := by
  intro hs
  cases hclosed : (s.heap.channel id).closed with
  | true =>
    have he : channelClose id s = .error (.raised .channelClosed) s := by
      rw [channelClose, get_bind_apply, Channel.close?_eq_none.mpr hclosed]
      rfl
    rw [endState_error he]
    exact ⟨hs, [], (List.append_nil _).symm, .refl⟩
  | false =>
    let c := s.heap.channel id
    let c' : Channel := { c with closed := true, receivers := [], senders := [] }
    -- The channel closes first and those in line are told after. The net has it the other way
    -- round, so what is roused is followed on the channels as they were.
    let s₁ : Turn := { s with heap := s.heap.setChannel id c' }
    have hc : s.heap.channels[id]? = some c := Turn.channel_getElem? hid
    have hcrew₁ : s₁.crew = s.crew := Turn.crew_eq rfl rfl rfl rfl rfl
    have hs₁ : TaskVm.Good s₁.hosts s₁.crew s.heap.channels := hcrew₁ ▸ hs
    obtain ⟨s₂, h₂, hr₂⟩ :=
      wakeAll_roused (fun w => Scheduler.resumeOf w .nil) c.receivers s₁ hs₁
    obtain ⟨s₃, h₃, hr₃⟩ :=
      wakeAll_roused (fun _ => .error .channelClosed) (c.senders.map (·.1)) s₂ hr₂.good
    have hall : Roused s.heap.channels c.dismissals s₁ s₃ := by
      have happ := hr₂.append hr₃
      rwa [List.map_map] at happ
    have hend : channelClose id s = .ok ⟨⟩ { s₃ with acts := s₃.acts ++ [.closed id] } := by
      have hclose : c.close? = some (c.receivers, c.senders.map (·.1), c') := by
        rw [Channel.close?, if_neg (by rw [hclosed]; exact Bool.false_ne_true)]
      rw [channelClose, get_bind_apply, hclose]
      exact (bind_ok h₂).trans ((bind_ok h₃).trans rfl)
    obtain ⟨hgood, acts, hacts, hstep⟩ := hall.close hs₁ hc hclosed rfl rfl
    rw [endState_ok hend]
    refine ⟨hgood, acts ++ [.closed id], ?_, ?_⟩
    · rw [← List.append_assoc, ← hacts]
    · rw [hcrew₁] at hstep
      exact hstep.run

end Exec

end TaskVm
