import TaskVm.Proofs.Exchange

/-!
# Parking

An operation that cannot take place lines up with all its claims, and then its task is
parked. Only with the second do the claims count, so the two are one step of the net.

The lines are looked through while the claims are added, and the task's own new waiters are
not live yet. A select that dropped them from the line it has just joined would wait for
less than it says.
-/

namespace TaskVm

open Exec Relation

/-- Claims have been added to the lines, as far as some waiters count. -/
structure Lined (live : Waiter → Bool) (t : TaskId) (epoch : Nat) (claims : List Claim)
    (channels channels' : Array Channel) : Prop where
  size : channels'.size = channels.size
  line : ∀ (ch : ChannelId) (c : Channel), channels[ch]? = some c →
    ∃ c', channels'[ch]? = some c' ∧
      c'.prune live = { c.prune live with
        receivers := (c.prune live).receivers ++ Claim.receivers claims t epoch ch
        senders := (c.prune live).senders ++ Claim.senders claims t epoch ch } ∧
      ∀ w ∈ c'.waiters, w ∈ c.waiters ∨ w.isOf t epoch

namespace Lined

variable {live : Waiter → Bool} {t : TaskId} {epoch : Nat} {claims claims' : List Claim}
  {channels channels' channels'' : Array Channel}

theorem refl : Lined live t epoch [] channels channels where
  size := rfl
  line ch c hc := by
    refine ⟨c, hc, ?_, fun w hw => .inl hw⟩
    simp [Claim.receivers, Claim.senders]

theorem trans (h : Lined live t epoch claims channels channels')
    (h' : Lined live t epoch claims' channels' channels'') :
    Lined live t epoch (claims ++ claims') channels channels'' where
  size := h'.size.trans h.size
  line ch c hc := by
    obtain ⟨c', hc', hp', hw'⟩ := h.line ch c hc
    obtain ⟨c'', hc'', hp'', hw''⟩ := h'.line ch c' hc'
    refine ⟨c'', hc'', ?_, fun w hw => ?_⟩
    · rw [hp'', hp']
      simp [Claim.receivers, Claim.senders, List.filterMap_append]
    · rcases hw'' w hw with hw | hw
      · exact hw' w hw
      · exact .inr hw

/-- Whoever does not count may leave a line. -/
theorem cleared {ch : ChannelId} {c c' : Channel} (hc : channels[ch]? = some c)
    (hp : c'.prune live = c.prune live) (hw : ∀ w ∈ c'.waiters, w ∈ c.waiters) :
    Lined live t epoch [] channels (channels.setIfInBounds ch c') where
  size := Array.size_setIfInBounds
  line i d hd := by
    by_cases hch : ch = i
    · subst hch
      have hlt := (Array.getElem?_eq_some_iff.mp hc).1
      have hcd : c = d := Option.some.inj (hc.symm.trans hd)
      subst hcd
      refine ⟨c', Array.getElem?_setIfInBounds_self_of_lt hlt, ?_, fun w h => .inl (hw w h)⟩
      simp [hp, Claim.receivers, Claim.senders]
    · refine ⟨d, ?_, ?_, fun w h => .inl h⟩
      · rw [Array.getElem?_setIfInBounds_ne hch, hd]
      · simp [Claim.receivers, Claim.senders]

/-- One claim is added by replacing its channel. -/
theorem single {k : Claim} {c c' : Channel} (hc : channels[k.channel]? = some c)
    (hp : c'.prune live = { c.prune live with
      receivers := (c.prune live).receivers ++ Claim.receivers [k] t epoch k.channel
      senders := (c.prune live).senders ++ Claim.senders [k] t epoch k.channel })
    (hw : ∀ w ∈ c'.waiters, w ∈ c.waiters ∨ w.isOf t epoch) :
    Lined live t epoch [k] channels (channels.setIfInBounds k.channel c') where
  size := Array.size_setIfInBounds
  line ch d hd := by
    by_cases hch : k.channel = ch
    · subst hch
      have hlt := (Array.getElem?_eq_some_iff.mp hc).1
      have hcd : c = d := Option.some.inj (hc.symm.trans hd)
      refine ⟨c', Array.getElem?_setIfInBounds_self_of_lt hlt, hcd ▸ hp, hcd ▸ hw⟩
    · refine ⟨d, ?_, ?_, fun w hw => .inl hw⟩
      · rw [Array.getElem?_setIfInBounds_ne hch, hd]
      · simp [Claim.receivers, Claim.senders, hch]

end Lined

/-- Lining up at a channel, given which of its waiters count. -/
theorem Channel.line_up {live live' : Waiter → Bool} {c : Channel}
    (hlive : ∀ w ∈ c.waiters, live w = live' w) (t : TaskId) (epoch : Nat) (k : Claim)
    (hw : live' (k.waiter t epoch) = true) :
    let c' := match k.offer with
      | none => c.parkReceiver live (k.waiter t epoch)
      | some v => c.parkSender live (k.waiter t epoch) v
    c'.prune live' = { c.prune live' with
      receivers := (c.prune live').receivers ++ Claim.receivers [k] t epoch k.channel
      senders := (c.prune live').senders ++ Claim.senders [k] t epoch k.channel } ∧
    ∀ w ∈ c'.waiters, w ∈ c.waiters ∨ w.isOf t epoch := by
  -- The two notions of being live agree on those in line, so pruning by either leaves the same
  -- line.
  have hprune := Channel.prune_congr hlive
  have hr : c.receivers.filter live = c.receivers.filter live' := congrArg receivers hprune
  have hs : c.senders.filter (fun x => live x.1) = c.senders.filter (fun x => live' x.1) :=
    congrArg senders hprune
  obtain ⟨ch, case, offer⟩ := k
  have hown : (Claim.waiter ⟨ch, case, offer⟩ t epoch).isOf t epoch = true := by
    simp [Waiter.isOf, Claim.waiter]
  cases offer with
  | none =>
    refine ⟨?_, fun w hmem => ?_⟩
    · simp [parkReceiver, prune, hr, List.filter_filter, Claim.receivers, Claim.senders, hw]
    · simp only [parkReceiver, waiters, List.mem_append, List.mem_filter,
        List.mem_singleton] at hmem
      rcases hmem with (⟨hmem, -⟩ | rfl) | hmem
      · exact .inl (List.mem_append_left _ hmem)
      · exact .inr hown
      · exact .inl (List.mem_append_right _ hmem)
  | some v =>
    refine ⟨?_, fun w hmem => ?_⟩
    · simp [parkSender, prune, hs, List.filter_filter, Claim.receivers, Claim.senders, hw]
    · simp only [parkSender, waiters, List.map_append, List.mem_append, List.map_cons,
        List.map_nil, List.mem_singleton] at hmem
      rcases hmem with hmem | hmem | rfl
      · exact .inl (List.mem_append_left _ hmem)
      · obtain ⟨x, hx, rfl⟩ := List.mem_map.mp hmem
        exact .inl (List.mem_append_right _ (List.mem_map_of_mem (List.mem_filter.mp hx).1))
      · exact .inr hown

/-! ## An operation that waits -/

/-- An operation of the running task has lined up with its claims, none of which could be
met, and nothing else has happened. -/
structure Waits (op : Operation) (s s' : Turn) : Prop where
  frame : s' = { s with
    heap := { s.heap with channels := s'.heap.channels }
    acts := s.acts ++ .began s.task.id op ::
      op.claims.map (Claim.act s.task.id s.task.waitEpoch) }
  idle : ∀ k ∈ op.claims, ∃ c, s.net.channels[k.channel]? = some c ∧ k.Idle c
  lined : Lined (fun w => w.isOf s.task.id s.task.waitEpoch || s.crew.live w) s.task.id
    s.task.waitEpoch op.claims s.heap.channels s'.heap.channels

/-- When a task parks, the waiters of its wait come to life. -/
theorem Crew.live_block {c : Crew} {b : Badge} (h : c.Tended) (hr : c.running = some b)
    (hnone : b.resume = none) :
    (c.block b).live = fun w => w.isOf b.id b.epoch || c.live w := by
  rw [live_eq (h.block hr hnone), live_eq h, wait_block h hr]
  funext w
  unfold Wait.live Waiter.isOf
  by_cases ht : w.task = b.id
  · rw [ht, wait_running hr]
    simp [BEq.comm (a := w.epoch)]
  · simp [ht]

/-- The machine after the running task has been parked. -/
def Turn.park (s : Turn) : Machine :=
  (Machine.endTurn { Machine.ofTurn s with running := none } s.task .blocked).1

theorem Turn.park_crew (s : Turn) : s.park.crew = s.crew.block s.task.badge := by
  have hold := Machine.crew_hold { Machine.ofTurn s with running := none } s.task .blocked
    s.vm.scheduler.queue
  exact hold

/-- Nobody in line is of the wait that the running task has not begun. -/
theorem Turn.not_own {s : Turn} (hs : s.Good) {ch : Channel} (hch : ch ∈ s.heap.channels)
    {w : Waiter} (hw : w ∈ ch.waiters) : w.isOf s.task.id s.task.waitEpoch = false := by
  cases ho : w.isOf s.task.id s.task.waitEpoch with
  | false => rfl
  | true =>
    obtain ⟨ht, he⟩ := Bool.and_eq_true_iff.mp ho
    have hwait : s.crew.wait s.task.id = some ⟨s.task.waitEpoch, false, s.task.resume⟩ :=
      Crew.wait_running (b := s.task.badge) rfl
    rw [← beq_iff_eq.mp ht] at hwait
    rcases (hs.dated ch hch w hw).2 _ hwait with hlt | ⟨-, hp⟩
    · exact absurd (beq_iff_eq.mp he) (Nat.ne_of_lt hlt)
    · cases hp

/-- With the waiters of its next wait, the running task counts the same of those in line. -/
theorem Turn.live_own {s : Turn} (hs : s.Good) {ch : Channel} (hch : ch ∈ s.heap.channels)
    {w : Waiter} (hw : w ∈ ch.waiters) :
    (w.isOf s.task.id s.task.waitEpoch || s.crew.live w) = s.crew.live w := by
  rw [not_own hs hch hw, Bool.false_or]

theorem Turn.wait_task (s : Turn) :
    s.net.waits s.task.id = some ⟨s.task.waitEpoch, false, s.task.resume⟩ :=
  Crew.wait_running (c := s.crew) (b := s.task.badge) rfl

theorem Waits.crew {op : Operation} {s s' : Turn} (h : Waits op s s') : s'.crew = s.crew := by
  rw [h.frame]
  exact Turn.crew_eq rfl rfl rfl rfl rfl

theorem Waits.acts {op : Operation} {s s' : Turn} (h : Waits op s s') :
    s'.acts = s.acts ++ .began s.task.id op ::
      op.claims.map (Claim.act s.task.id s.task.waitEpoch) := by
  rw [h.frame]

/-- Parked is who had the turn, and nobody else is concerned. -/
theorem Waits.crew_park {op : Operation} {s s' : Turn} (h : Waits op s s') :
    s'.park.crew = s.crew.block s.task.badge := by
  rw [Turn.park_crew, h.crew, show s'.task = s.task by rw [h.frame]]

/-- The wait that begins is of a number that nobody's was before. -/
theorem Waits.dated {op : Operation} {s s' : Turn} (h : Waits op s s') (hs : s.Good) :
    Dated s'.park.crew s'.heap.channels := by
  have hrunning : s.crew.running = some s.task.badge := rfl
  rw [h.crew_park]
  intro c' hc' w hw
  obtain ⟨i, hi, rfl⟩ := Array.mem_iff_getElem.mp hc'
  have hi' : i < s.heap.channels.size := h.lined.size ▸ hi
  obtain ⟨d, hd, -, hsub⟩ := h.lined.line i _ (Array.getElem?_eq_getElem hi')
  rw [Array.getElem?_eq_getElem hi] at hd
  rw [Option.some.inj hd] at hw
  rw [Crew.wait_block hs.tended hrunning]
  rcases hsub w hw with hold | hown
  · -- Who was in line before is of an earlier wait, also if it is one of the same task.
    obtain ⟨hlt, hx⟩ := hs.dated _ (Array.getElem_mem hi') w hold
    refine ⟨hlt, fun x => ?_⟩
    dsimp only
    split
    · rename_i ht
      rintro ⟨rfl⟩
      rcases hx _ (ht ▸ Crew.wait_running hrunning) with hlt | ⟨-, hp⟩
      · exact .inl hlt
      · cases hp
    · exact hx x
  · obtain ⟨ht, he⟩ := Bool.and_eq_true_iff.mp hown
    have ht := beq_iff_eq.mp ht
    have he := beq_iff_eq.mp he
    refine ⟨?_, fun x => ?_⟩
    · rw [ht]
      exact (hs.tended.listed _ _ (hs.tended.runs _ hrunning)).1
    · dsimp only
      rw [if_pos (show w.task = s.task.badge.id from ht)]
      rintro ⟨rfl⟩
      exact .inr ⟨he, rfl⟩

/-- With the new waiters counted, lines are as they are in the net. -/
theorem Waits.channels {op : Operation} {s s' : Turn} (h : Waits op s s') (hs : s.Good) :
    s'.heap.channels.map
        (·.prune fun w => w.isOf s.task.id s.task.waitEpoch || s.crew.live w) =
      (s.net.park s.task.id s.task.waitEpoch op.claims).channels := by
  refine Array.ext_getElem? fun i => ?_
  show _ = (Array.mapIdx _ (s.heap.channels.map _))[i]?
  rw [Array.getElem?_map, Array.getElem?_mapIdx, Array.getElem?_map]
  by_cases hi : i < s.heap.channels.size
  · obtain ⟨d, hd, hp, -⟩ := h.lined.line i _ (Array.getElem?_eq_getElem hi)
    rw [hd, Array.getElem?_eq_getElem hi]
    refine congrArg some (hp.trans ?_)
    rw [Channel.prune_congr fun w hw => Turn.live_own hs (Array.getElem_mem hi) hw]
  · rw [Array.getElem?_eq_none (Nat.le_of_not_lt hi),
      Array.getElem?_eq_none (h.lined.size ▸ Nat.le_of_not_lt hi)]
    rfl

/-- An operation that waits has all its claims in line at once. -/
theorem Waits.parked {op : Operation} {s s' : Turn} (h : Waits op s s') (hs : s.Good)
    (hnone : s.task.resume = none) :
    s'.park.Good ∧ s'.park.net = s.net.park s.task.id s.task.waitEpoch op.claims := by
  have hrunning : s.crew.running = some s.task.badge := rfl
  have hchannels : s'.park.heap.channels = s'.heap.channels := rfl
  refine ⟨⟨?_, ?_, ?_⟩, ?_⟩
  · show ∀ f ∈ s'.hosts, f.Tame
    rw [h.frame]
    exact hs.tame
  · rw [h.crew_park]
    exact hs.tended.block hrunning hnone
  · exact h.dated hs
  · have hlive : s'.park.crew.live =
        fun w => w.isOf s.task.id s.task.waitEpoch || s.crew.live w := by
      rw [h.crew_park]
      exact Crew.live_block hs.tended hrunning hnone
    have hw : s'.park.crew.wait = (s.net.park s.task.id s.task.waitEpoch op.claims).waits := by
      rw [h.crew_park, Crew.wait_block hs.tended hrunning]
      unfold Net.park Net.setWait
      rw [show s.task.badge.resume = none from hnone]
      rfl
    rw [Machine.net, Crew.net, hlive, hchannels, h.channels hs, hw, h.crew_park]
    rfl

/-- Parking is one step of the net. -/
theorem Waits.step {op : Operation} {s s' : Turn} (h : Waits op s s') (hs : s.Good)
    (hnone : s.task.resume = none) :
    Net.Step s.net (.began s.task.id op :: op.claims.map (Claim.act s.task.id s.task.waitEpoch))
      s'.park.net := by
  rw [(h.parked hs hnone).2]
  exact Net.Step.park (hnone ▸ s.wait_task) op h.idle

end TaskVm
