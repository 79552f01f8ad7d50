import TaskVm.Proofs.Delivery
import TaskVm.Proofs.Waiting

/-!
# No wake-up is lost

A task is parked only as long as there is nothing for it. Where somebody waits to receive
there is nothing to be had, where somebody waits to send there is no room, and a parked task
is in line for all that it asked for. So when a run ends because nobody wants a turn, that is
because nobody can do anything for anybody.

A run can also end with the same error because a program throws it, which is another matter.
-/

namespace TaskVm

/-! ## Claims -/

theorem filterMap_eq_singleton {α β γ : Type} {l : List α} {key : α → γ} {f : α → Option β}
    {a : α} {b : β} (hn : (l.map key).Nodup) (ha : a ∈ l) (hb : f a = some b)
    (hne : ∀ a' ∈ l, key a' ≠ key a → f a' = none) : l.filterMap f = [b] := by
  induction l with
  | nil => nomatch ha
  | cons c l ih =>
    obtain ⟨hc, hn⟩ := List.nodup_cons.mp hn
    rcases List.mem_cons.mp ha with rfl | ha
    · have hnil : l.filterMap f = [] := List.filterMap_eq_nil_iff.mpr fun a' ha' =>
        hne a' (List.mem_cons_of_mem _ ha') fun hk => hc (hk ▸ List.mem_map_of_mem ha')
      rw [List.filterMap_cons_some hb, hnil]
    · have hk : key c ≠ key a := fun hk => hc (hk ▸ List.mem_map_of_mem ha)
      rw [List.filterMap_cons_none (hne c List.mem_cons_self hk)]
      exact ih hn ha fun a' ha' => hne a' (List.mem_cons_of_mem _ ha')

/-- No two claims of an operation are for the same case. -/
theorem Operation.claims_nodup (op : Operation) : (op.claims.map (·.case)).Nodup := by
  cases op with
  | send c v => simp [claims]
  | receive c => simp [claims]
  | select cases hasDefault =>
    have hcase : (claims (select cases hasDefault)).map (·.case) =
        (cases.zipIdx.map (·.2)).map some := by
      rw [claims, List.map_map, List.map_map]
      refine List.map_congr_left fun x _ => ?_
      obtain ⟨case, index⟩ := x
      cases case <;> rfl
    rw [hcase, List.zipIdx_map_snd]
    have hrange : (List.range' 0 cases.length).Nodup := List.nodup_range'
    exact List.pairwise_map.mpr (hrange.imp fun h he => h (Option.some.inj he))

namespace Claim

variable {claims : List Claim} {k : Claim} (t : TaskId) (epoch : Nat)

/-- A claim to receive is in line once. -/
theorem once_receiver (hn : (claims.map (·.case)).Nodup) (hk : k ∈ claims) (ho : k.offer = none) :
    (receivers claims t epoch k.channel).filter (· == k.waiter t epoch) = [k.waiter t epoch] := by
  rw [receivers, List.filter_filterMap]
  refine filterMap_eq_singleton hn hk ?_ fun k' _ hne => ?_
  · simp [ho]
  · split
    · have hw : ¬ k'.waiter t epoch = k.waiter t epoch := fun h => hne (congrArg Waiter.case h)
      simp [hw]
    · rfl

/-- A claim to send is in line once, with its value. -/
theorem once_sender (hn : (claims.map (·.case)).Nodup) (hk : k ∈ claims) {v : Value}
    (ho : k.offer = some v) :
    (senders claims t epoch k.channel).filter (·.1 == k.waiter t epoch) =
      [(k.waiter t epoch, v)] := by
  rw [senders, List.filter_filterMap]
  refine filterMap_eq_singleton hn hk ?_ fun k' _ hne => ?_
  · simp [ho]
  · split
    · have hw : ¬ k'.waiter t epoch = k.waiter t epoch := fun h => hne (congrArg Waiter.case h)
      cases k'.offer <;> simp [hw]
    · rfl

end Claim

/-! ## In line for good reason -/

/-- Those who wait at a channel could not do what they wait for. -/
structure Channel.Attended (live : Waiter → Bool) (c : Channel) : Prop where
  receivers : ∀ w ∈ c.receivers, live w = true → c.closed = false ∧ c.buffer = [] ∧
    ∀ x ∈ c.senders, live x.1 = true → x.1.task = w.task
  senders : ∀ x ∈ c.senders, live x.1 = true → c.closed = false ∧ c.buffer.length = c.capacity

theorem Channel.Sound.attended {waits : TaskId → Option Wait} {live : Waiter → Bool} {c : Channel}
    (h : (c.prune live).Sound waits) : c.Attended live where
  receivers w hw hl := by
    have hmem : w ∈ (c.prune live).receivers := List.mem_filter.mpr ⟨hw, hl⟩
    obtain ⟨ho, hb⟩ := h.receivers (List.ne_nil_of_mem hmem)
    exact ⟨ho, hb, fun x hx hlx => h.apart w hmem x (List.mem_filter.mpr ⟨hx, hlx⟩)⟩
  senders x hx hl := h.senders (List.ne_nil_of_mem (List.mem_filter.mpr ⟨hx, hl⟩))

/-- Nothing at a channel meets a claim, and of others nobody who waits there does. -/
def Claim.Hopeless (live : Waiter → Bool) (t : TaskId) (c : Channel) (k : Claim) : Prop :=
  c.closed = false ∧ match k.offer with
    | none => c.buffer = [] ∧ ∀ x ∈ c.senders, live x.1 = true → x.1.task = t
    | some _ => c.capacity ≤ c.buffer.length ∧ ∀ w ∈ c.receivers, live w = true → w.task = t

namespace Machine

variable {hosts : Array HostFunction} {h : Heap} {id : VmId} {config : VmConfig} {dice : Dice}
  {hist : List Act} {m : Machine}

/-- A parked task is in line for an operation. -/
structure Registered (m : Machine) (t : Task) (op : Operation) : Prop where
  /-- There is one live waiter for each claim, on its channel and on its side. -/
  once : ∀ k ∈ op.claims, ∃ c, m.heap.channels[k.channel]? = some c ∧ match k.offer with
    | none => c.receivers.filter (fun w => m.live w && w == k.waiter t.id t.waitEpoch) =
        [k.waiter t.id t.waitEpoch]
    | some v => c.senders.filter (fun x => m.live x.1 && x.1 == k.waiter t.id t.waitEpoch) =
        [(k.waiter t.id t.waitEpoch, v)]
  /-- There is no other live waiter of the task. -/
  receivers : ∀ (ch : ChannelId) (c : Channel), m.heap.channels[ch]? = some c →
    ∀ w ∈ c.receivers, m.live w = true → w.task = t.id →
    ∃ k ∈ op.claims, k.channel = ch ∧ k.offer = none ∧ k.waiter t.id t.waitEpoch = w
  senders : ∀ (ch : ChannelId) (c : Channel), m.heap.channels[ch]? = some c →
    ∀ x ∈ c.senders, m.live x.1 = true → x.1.task = t.id →
    ∃ k ∈ op.claims, k.channel = ch ∧ k.offer = some x.2 ∧ k.waiter t.id t.waitEpoch = x.1

/-- The stage of a task, as the machine tells it. -/
def stage? (m : Machine) (id : TaskId) : Option TaskStatus := m.vm.taskStatus? m.heap id

/-- No task can go on. -/
structure Deadlocked (m : Machine) (hist : List Act) : Prop where
  main : ∃ id, m.vm.main = some id ∧ m.stage? id = some .blocked
  /-- Whoever has not come to an end is parked, and nobody can do anything about it. -/
  stuck : ∀ id st, m.stage? id = some st → st.isFinished = false →
    st = .blocked ∧ ∃ op, lastBegun id hist = some op ∧ ∀ k ∈ op.claims,
      ∃ c, m.heap.channels[k.channel]? = some c ∧ k.Hopeless m.live id c

/-- What a run has led to. -/
theorem Run.reached (ht : ∀ f ∈ hosts, f.Tame)
    (hc : ∀ c ∈ h.channels, ∃ n, c = Channel.ofCapacity n)
    (hr : Run (roomy · = true) (create hosts h id config dice) hist m) :
    m.Good ∧ m.net.Sound ∧ m.net.Recorded hist := by
  obtain ⟨hgood, hrun⟩ := hr.good (create_good ht hc id config dice)
  have hsound : (create hosts h id config dice).net.Sound := create_sound hc
  have hrec : (create hosts h id config dice).net.Recorded [] := by
    intro t x hx
    rw [show (create hosts h id config dice).net.waits t = none from
      create_wait hosts h id config dice t] at hx
    cases hx
  exact ⟨hgood, hrun.sound hsound, hrun.recorded hsound hrec⟩

theorem net_channel {ch : ChannelId} {c : Channel} (hch : m.heap.channels[ch]? = some c) :
    m.net.channels[ch]? = some (c.prune m.live) := by
  rw [Machine.net, Crew.net, Array.getElem?_map, hch, live_eq]
  rfl

theorem of_net_channel {ch : ChannelId} {c : Channel} (hch : m.net.channels[ch]? = some c) :
    ∃ c', m.heap.channels[ch]? = some c' ∧ c = c'.prune m.live := by
  rw [Machine.net, Crew.net, Array.getElem?_map, Option.map_eq_some_iff] at hch
  obtain ⟨c', hc', rfl⟩ := hch
  exact ⟨c', hc', by rw [live_eq]⟩

/-- Who waits in the net is in line at the machine. -/
theorem registered_of_waiting {t : Task} {op : Operation}
    (h : m.net.Waiting t.id t.waitEpoch op) : m.Registered t op where
  once k hk := by
    have hlt := h.placed k hk
    obtain ⟨c, hc, hcc⟩ := of_net_channel (Array.getElem?_eq_getElem hlt)
    refine ⟨c, hc, ?_⟩
    have hnet := net_channel hc
    split
    · rename_i ho
      -- The net has the waiters of the task in the same order, and one for each claim.
      rw [← Claim.once_receiver t.id t.waitEpoch op.claims_nodup hk ho, ← h.receivers _ _ hnet,
        Channel.prune, List.filter_filter, List.filter_filter]
      refine List.filter_congr fun w _ => ?_
      by_cases hw : w = k.waiter t.id t.waitEpoch
      · rw [hw]
        simp [Claim.waiter]
      · simp [beq_eq_false_iff_ne.mpr hw]
    · rename_i v ho
      rw [← Claim.once_sender t.id t.waitEpoch op.claims_nodup hk ho, ← h.senders _ _ hnet,
        Channel.prune, List.filter_filter, List.filter_filter]
      refine List.filter_congr fun x _ => ?_
      by_cases hx : x.1 = k.waiter t.id t.waitEpoch
      · rw [hx]
        simp [Claim.waiter]
      · simp [beq_eq_false_iff_ne.mpr hx]
  receivers ch c hc w hw hl ht := h.receiver (net_channel hc) (List.mem_filter.mpr ⟨hw, hl⟩) ht
  senders ch c hc x hx hl ht := h.sender (net_channel hc) (List.mem_filter.mpr ⟨hx, hl⟩) ht

/-- A parked task waits for what it has begun last. -/
theorem waiting_of_blocked (h : m.Good) (hrec : m.net.Recorded hist) {t : Task}
    (ht : m.vm.scheduler.get? t.id = some t) (hst : t.status m.heap = .blocked) :
    ∃ op, lastBegun t.id hist = some op ∧ m.net.Waiting t.id t.waitEpoch op := by
  have hheld : m.crew.held t.id = some t.badge := by
    rw [held_eq, ht]
    rfl
  have hwait := Crew.wait_held h.tended hheld
  obtain ⟨op, hlast, hw⟩ := hrec _ _ hwait (beq_iff_eq.mpr hst)
  exact ⟨op, hlast, hw⟩

/-- What a parked task waits for, others cannot help it to. -/
theorem hopeless_of_waiting (hs : m.net.Sound) {t : TaskId} {epoch : Nat} {op : Operation}
    (hw : m.net.Waiting t epoch op) {k : Claim} (hk : k ∈ op.claims) :
    ∃ c, m.heap.channels[k.channel]? = some c ∧ k.Hopeless m.live t c := by
  obtain ⟨c, hc, -⟩ := of_net_channel (Array.getElem?_eq_getElem (hw.placed k hk))
  have hnet := net_channel hc
  have hsound := hs.channels _ _ hnet
  refine ⟨c, hc, ?_⟩
  -- Being in line is enough: lines are such that nobody in them could go on.
  cases ho : k.offer with
  | none =>
    have hmem : k.waiter t epoch ∈ (c.prune m.live).receivers := by
      have hline : k.waiter t epoch ∈ Claim.receivers op.claims t epoch k.channel :=
        Claim.mem_receivers.mpr ⟨k, hk, rfl, ho, rfl⟩
      rw [← hw.receivers _ _ hnet] at hline
      exact (List.mem_filter.mp hline).1
    obtain ⟨hopen, hb⟩ := hsound.receivers (List.ne_nil_of_mem hmem)
    rw [Claim.Hopeless, ho]
    exact ⟨hopen, hb, fun x hx hl => hsound.apart _ hmem x (List.mem_filter.mpr ⟨hx, hl⟩)⟩
  | some v =>
    have hmem : (k.waiter t epoch, v) ∈ (c.prune m.live).senders := by
      have hline : (k.waiter t epoch, v) ∈ Claim.senders op.claims t epoch k.channel :=
        Claim.mem_senders.mpr ⟨k, hk, rfl, ho, rfl⟩
      rw [← hw.senders _ _ hnet] at hline
      exact (List.mem_filter.mp hline).1
    obtain ⟨hopen, hfull⟩ := hsound.senders (List.ne_nil_of_mem hmem)
    rw [Claim.Hopeless, ho]
    exact ⟨hopen, Nat.le_of_eq hfull.symm, fun w hx hl =>
      (hsound.apart w (List.mem_filter.mpr ⟨hx, hl⟩) _ hmem).symm⟩

/-- The stage of a task is kept under its handle. -/
theorem stage?_eq (m : Machine) (id : TaskId) :
    m.stage? id = (m.crew.roster id).map m.crew.status := rfl

/-- Giving up all tasks leaves each at the stage it has come to. -/
theorem stage?_shutdown (m : Machine) (id : TaskId) : m.shutdown.stage? id = m.stage? id := by
  rw [stage?_eq, stage?_eq, crew_shutdown]
  rfl

/-- When nobody wants a turn, all who are there are parked. -/
theorem deadlocked_of_idle (h : m.Good) (hs : m.net.Sound) (hrec : m.net.Recorded hist)
    (hrunning : m.running = none) (hqueue : m.vm.scheduler.queue = []) {main : TaskId}
    (hmain : m.vm.main = some main) : m.Deadlocked hist := by
  have hcrew : m.crew.running = none := by rw [crew, hrunning]; rfl
  have hthere : ∀ k, m.crew.Has k → ∃ t, m.vm.scheduler.get? k = some t ∧ t.id = k ∧
      t.status m.heap = .blocked ∧ m.stage? k = some .blocked := by
    intro k hk
    rcases hk with ⟨b, hb, -⟩ | hk
    · rw [hcrew] at hb
      cases hb
    · rw [held_eq] at hk
      cases ht : m.vm.scheduler.get? k with
      | none => exact absurd (by rw [ht]; rfl) hk
      | some t =>
        have hheld : m.crew.held k = some t.badge := by rw [held_eq, ht]; rfl
        -- Who is not parked stands in the queue, and nobody does.
        have hst : m.crew.status t.badge.handle = .blocked := by
          refine Classical.not_not.mp fun hne => ?_
          have hq := (h.tended.ready k _ hheld hne).2
          rw [show m.crew.queue = [] from hqueue] at hq
          cases hq
        refine ⟨t, rfl, h.tended.keyed k _ hheld, hst, ?_⟩
        rw [stage?_eq, h.tended.known k _ hheld]
        exact congrArg some hst
  constructor
  · obtain ⟨-, -, -, -, hst⟩ := hthere main (h.tended.main main hmain)
    exact ⟨main, hmain, hst⟩
  · intro k st hst hfin
    rw [stage?_eq, Option.map_eq_some_iff] at hst
    obtain ⟨handle, hroster, rfl⟩ := hst
    have hhas := h.tended.present (by rw [show m.crew.main = some main from hmain]; simp) k handle
      hroster hfin
    obtain ⟨t, ht, rfl, hblocked, hstage⟩ := hthere k hhas
    rw [stage?_eq, hroster] at hstage
    obtain ⟨op, hlast, hw⟩ := waiting_of_blocked h hrec ht hblocked
    exact ⟨Option.some.inj hstage, op, hlast, fun k hk => hopeless_of_waiting hs hw hk⟩

/-- **No wake-up is lost.** As long as no task is lined up in vain, all who wait at a channel
could not do what they wait for, and a parked task is in line once for each claim of the
operation it has begun last. If a run ends for want of anyone to give the turn to, it ends with
a deadlock, and a deadlock it is: the main task and all others that have not ended are parked,
and none of their operations can take place. -/
theorem Run.loses_no_wakeup (ht : ∀ f ∈ hosts, f.Tame)
    (hc : ∀ c ∈ h.channels, ∃ n, c = Channel.ofCapacity n)
    (hr : Run (roomy · = true) (create hosts h id config dice) hist m) :
    (∀ (ch : ChannelId) (c : Channel), m.heap.channels[ch]? = some c → c.Attended m.live) ∧
    (∀ k t, m.vm.scheduler.get? k = some t → t.status m.heap = .blocked →
      ∃ op, lastBegun k hist = some op ∧ m.Registered t op) ∧
    (m.running = none → m.vm.main ≠ none → ∀ outcome, m.tick.outcome = some outcome →
      (∃ trace, outcome = .failed ⟨.deadlock, trace⟩) ∧ m.Deadlocked hist ∧
      ∀ k, m.tick.machine.stage? k = m.stage? k) := by
  obtain ⟨hgood, hsound, hrec⟩ := hr.reached ht hc
  refine ⟨fun ch c hch => (hsound.channels ch _ (net_channel hch)).attended, fun k t hheld hst => ?_,
    fun hrunning hmain outcome hout => ?_⟩
  · have hid : t.id = k := hgood.tended.keyed k t.badge (by rw [held_eq, hheld]; rfl)
    subst hid
    obtain ⟨op, hlast, hw⟩ := waiting_of_blocked hgood hrec hheld hst
    exact ⟨op, hlast, registered_of_waiting hw⟩
  · obtain ⟨main, hmain⟩ := Option.ne_none_iff_exists'.mp hmain
    rw [tick_between hrunning] at hout ⊢
    cases hq : m.vm.scheduler.queue with
    | nil =>
      have hdead := dispatch_idle hq
      rw [hdead] at hout ⊢
      refine ⟨⟨_, (Option.some.inj hout).symm⟩,
        deadlocked_of_idle hgood hsound hrec hrunning hq hmain, stage?_shutdown m⟩
    | cons k queue =>
      obtain ⟨t, -, -, hnext⟩ := takeNext_eq hgood.tended hq
      rw [dispatch, hnext] at hout
      cases hout

/-- The main task receives where nobody sends, and another task could go on only if it did. -/
def stuck : Heap where
  channels := #[.ofCapacity 0, .ofCapacity 1]
  closures := #[{ template := 0 }]
  templates := #[{ name := "other", chunk := 1 }]
  chunks := #[
    { code := assemble [(.constant, [0, 0]), (.spawn, [0]), (.yield, []),
        (.constant, [0, 1]), (.channelRecv, []), (.ret, [])]
      constants := #[.closure 0, .channel 0] },
    { code := assemble [(.constant, [0, 0]), (.constant, [0, 1]), (.select, [2, 0, 0, 0]),
        (.ret, [])]
      constants := #[.channel 0, .channel 1] }]

/-- Both are parked, and it is a deadlock. -/
theorem stuck_deadlocks : ∃ hist m, Run (roomy · = true) (create #[] stuck 0 {} {}) hist m ∧
    m.stage? 0 = some .blocked ∧ m.stage? 1 = some .blocked ∧ m.Deadlocked hist ∧
    ∀ k, m.tick.machine.stage? k = m.stage? k := by
  have hrun : ((tickFor roomy 11 ((create #[] stuck 0 {} {}).load 0).2 []).any fun r =>
      decide (r.2.stage? 0 = some .blocked) && decide (r.2.stage? 1 = some .blocked) &&
        r.2.running.isNone && r.2.vm.main.isSome && r.2.tick.outcome.isSome) = true := by
    decide +kernel
  obtain ⟨⟨hist, m⟩, hticks, hp⟩ := (Option.any_eq_true _ _).mp hrun
  simp only [Bool.and_eq_true, decide_eq_true_eq] at hp
  obtain ⟨⟨⟨⟨h0, h1⟩, hrunning⟩, hmain⟩, hout⟩ := hp
  obtain ⟨outcome, hout⟩ := Option.isSome_iff_exists.mp hout
  have hr := run_of_tickFor (Run.refl.tail (.load rfl 0)) hticks
  have hfresh : ∀ c ∈ stuck.channels, ∃ n, c = Channel.ofCapacity n := by
    intro c hc
    rcases (by simpa [stuck] using hc : c = .ofCapacity 0 ∨ c = .ofCapacity 1) with rfl | rfl
    · exact ⟨0, rfl⟩
    · exact ⟨1, rfl⟩
  obtain ⟨-, -, hdead⟩ := Run.loses_no_wakeup (by simp) hfresh hr
  exact ⟨hist, m, hr, h0, h1,
    (hdead (by simpa using hrunning) (Option.isSome_iff_ne_none.mp hmain) outcome hout).2⟩

/-- The main task throws an error that says deadlock. -/
def crying : Heap where
  chunks := #[{ code := assemble [(.constant, [0, 0]), (.throwValue, [])]
                constants := #[.error .deadlock] }]

/-- **Who throws a deadlock need not be in one.** The run ends with the error, and with a main
task that has failed. -/
theorem crying_fails : ∃ m trace,
    ((create #[] crying 0 {} {}).load 0).2.run (none : Option (Hook Unit)) 4 () =
      some (.failed ⟨.deadlock, trace⟩, m, ()) ∧ m.stage? 0 = some .failed := by
  have hrun : ((((create #[] crying 0 {} {}).load 0).2.run (none : Option (Hook Unit)) 4 ()).any
      fun r => decide (r.1 = .failed ⟨.deadlock, [⟨"<main>", 0⟩]⟩) &&
        decide (r.2.1.stage? 0 = some .failed)) = true := by
    decide +kernel
  obtain ⟨⟨outcome, m, ⟨⟩⟩, hrun, hp⟩ := (Option.any_eq_true _ _).mp hrun
  simp only [Bool.and_eq_true, decide_eq_true_eq] at hp
  obtain ⟨rfl, hst⟩ := hp
  exact ⟨m, _, hrun, hst⟩

end Machine

end TaskVm
