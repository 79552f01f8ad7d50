import TaskVm.Proofs.Net

/-!
# A machine follows its net

The net of a machine is read off by dropping every waiter whose wait is over. Whatever a
turn does is a run of the net, with the same acts on record.

What is in the way is a stale waiter that comes back to life. A wait is named by its task and
a number, and numbers are not used twice; what makes that enough is that a waiter in a line
is never numbered beyond the wait its task is in, and reaches it only while that wait is on.
-/

namespace TaskVm

open Exec Relation

/-- Waiters in line belong to waits that have been. -/
def Dated (c : Crew) (channels : Array Channel) : Prop :=
  ∀ ch ∈ channels, ∀ w ∈ ch.waiters, w.task < c.nextId ∧
    ∀ x, c.wait w.task = some x →
      w.epoch < x.number ∨ w.epoch = x.number ∧ x.parked = true

/-- Numbers that have not been given out yet date nothing. -/
theorem Dated.grow {c c' : Crew} {channels : Array Channel} (h : Dated c channels)
    (hn : c.nextId ≤ c'.nextId) (hw : ∀ id < c.nextId, c'.wait id = c.wait id) :
    Dated c' channels := by
  intro ch hch w hmem
  obtain ⟨hlt, hx⟩ := h ch hch w hmem
  refine ⟨Nat.lt_of_lt_of_le hlt hn, ?_⟩
  rw [hw _ hlt]
  exact hx

/-- Nor does a channel nobody waits for. -/
theorem Dated.append {c : Crew} {channels fresh : Array Channel} (h : Dated c channels)
    (hf : ∀ ch ∈ fresh, ∃ n, ch = Channel.ofCapacity n) : Dated c (channels ++ fresh) := by
  intro ch hch w hmem
  rcases Array.mem_append.mp hch with hch | hch
  · exact h ch hch w hmem
  · obtain ⟨n, rfl⟩ := hf ch hch
    cases hmem

/-- The net of a crew and its channels. -/
def Crew.net (c : Crew) (channels : Array Channel) : Net where
  channels := channels.map (·.prune c.live)
  waits := c.wait
  nextId := c.nextId

/-- What is true between any two steps. -/
structure Good (hosts : Array HostFunction) (c : Crew) (channels : Array Channel) : Prop where
  tame : ∀ f ∈ hosts, f.Tame
  tended : c.Tended
  dated : Dated c channels

def Machine.net (m : Machine) : Net := m.crew.net m.heap.channels

def Machine.Good (m : Machine) : Prop := TaskVm.Good m.hosts m.crew m.heap.channels

def Turn.net (s : Turn) : Net := s.crew.net s.heap.channels

def Turn.Good (s : Turn) : Prop := TaskVm.Good s.hosts s.crew s.heap.channels

/-- One turn leads to another by a run of the net that is on record. -/
def Follows (s s' : Turn) : Prop :=
  s.Good → s'.Good ∧ ∃ acts, s'.acts = s.acts ++ acts ∧ Net.Run s.net acts s'.net

instance : IsPreorder Turn Follows where
  refl s hs := ⟨hs, [], (List.append_nil _).symm, .refl⟩
  trans a b c hab hbc ha := by
    obtain ⟨hb, acts, h₁, hrun⟩ := hab ha
    obtain ⟨hc, acts', h₂, hrun'⟩ := hbc hb
    refine ⟨hc, acts ++ acts', ?_, hrun.trans hrun'⟩
    rw [h₂, h₁, List.append_assoc]

/-! ## Changes -/

theorem Net.run_private {n : Net} : ∀ {acts : List Act}, (∀ a ∈ acts, a.isPrivate) →
    Net.Run n acts n
  | [], _ => .refl
  | a :: _, h =>
    (Net.Step.quiet (h a List.mem_cons_self)).run.trans
      (Net.run_private fun b hb => h b (List.mem_cons_of_mem a hb))

theorem Channel.prune_ofCapacity (keep : Waiter → Bool) (n : Nat) :
    (Channel.ofCapacity n).prune keep = .ofCapacity n := rfl

/-- A change makes new channels at most, and is not on record as anything else. -/
theorem ChangeIn.channels {s s' : Turn} (h : Change s s') :
    (∃ fresh, s'.heap.channels = s.heap.channels ++ fresh ∧
      ∀ c ∈ fresh, ∃ n, c = Channel.ofCapacity n) ∧
    ∃ acts, s'.acts = s.acts ++ acts ∧ ∀ a ∈ acts, a.isPrivate := by
  have hsame : ∃ fresh : Array Channel, s.heap.channels = s.heap.channels ++ fresh ∧
      ∀ c ∈ fresh, ∃ n, c = Channel.ofCapacity n := ⟨#[], by simp, by simp⟩
  have hnone : ∃ acts : List Act, s.acts = s.acts ++ acts ∧ ∀ a ∈ acts, a.isPrivate :=
    ⟨[], by simp, by simp⟩
  cases h with
  | heap hh => exact ⟨hh.channels, hnone⟩
  | readLocal slot => exact ⟨hsame, _, rfl, by simp [Act.isPrivate]⟩
  | writeLocal slot v => exact ⟨hsame, _, rfl, by simp [Act.isPrivate]⟩
  | readCell hc => exact ⟨hsame, _, rfl, by simp [Act.isPrivate]⟩
  | @writeCell cell hc v =>
    obtain ⟨cells, tasks, stack, touched, hs⟩ := writeCell_frame s cell v
    rw [hs]
    exact ⟨hsame, _, rfl, by simp [Act.isPrivate]⟩
  | @capture f fs hf slot =>
    rw [endState_ok (captureSlot_apply s (f.stackBase + slot)), OpenUpvalues.capture_frame]
    exact ⟨hsame, _, rfl, by simp [Act.isPrivate]⟩
  | @leave f callers hf =>
    refine ⟨?_, [.left s.task.id [f]], rfl, by simp [Act.isPrivate]⟩
    rw [dropFrame_heap]
    exact hsame
  | spawn hc name hid hh he => exact ⟨he.channels, hnone⟩
  | _ => exact ⟨hsame, hnone⟩

theorem prune_fresh {fresh : Array Channel} (h : ∀ c ∈ fresh, ∃ n, c = Channel.ofCapacity n)
    (keep : Waiter → Bool) : fresh.map (·.prune keep) = fresh := by
  refine Array.ext (by simp) fun i hi hi' => ?_
  rw [Array.getElem_map]
  obtain ⟨n, hn⟩ := h _ (Array.getElem_mem hi')
  rw [hn, Channel.prune_ofCapacity]

theorem ChangeIn.follows {s s' : Turn} (h : Change s s') : Follows s s' := by
  intro hs
  obtain ⟨⟨fresh, hfresh, hcap⟩, acts, hacts, hpriv⟩ := h.channels
  have htame : ∀ f ∈ s'.hosts, f.Tame := h.hosts_eq ▸ hs.tame
  let n : Net := { s.net with channels := s.net.channels ++ fresh }
  have hrun : Net.Run s.net acts n := by
    have := (Net.run_private (n := s.net) hpriv).trans (Net.Step.create hcap).run
    rwa [List.append_nil] at this
  have hchannels : s'.heap.channels.map (·.prune s.crew.live) = n.channels := by
    rw [hfresh, Array.map_append, prune_fresh hcap]
    rfl
  have hdated : ∀ c : Crew, s.crew.nextId ≤ c.nextId →
      (∀ id < s.crew.nextId, c.wait id = s.crew.wait id) → Dated c s'.heap.channels := by
    intro c hn hw
    rw [hfresh]
    exact (hs.dated.grow hn hw).append hcap
  unfold Turn.Good Turn.net
  -- The crew stays as it is, a number is given out, or a task joins.
  rcases h.crew hs.tended.keyed with hc | hc | hc
  · rw [hc]
    refine ⟨⟨htame, hs.tended, hdated _ (Nat.le_refl _) fun _ _ => rfl⟩, acts, hacts, ?_⟩
    have hnet : s.crew.net s'.heap.channels = n := by
      rw [Crew.net, hchannels]
      rfl
    rw [hnet]
    exact hrun
  · rw [hc]
    have hrun' := hrun.trans (Net.Step.reserve (n := n)).run
    rw [List.append_nil] at hrun'
    refine ⟨⟨htame, hs.tended.reserve, hdated _ (Nat.le_succ _) fun _ _ => rfl⟩, acts, hacts, ?_⟩
    have hnet : s.crew.reserve.net s'.heap.channels = { n with nextId := n.nextId + 1 } := by
      rw [Crew.net, show s.crew.reserve.live = s.crew.live from rfl, hchannels]
      rfl
    rw [hnet]
    exact hrun'
  · rw [hc]
    have hrun' := hrun.trans (Net.Step.enlist (n := n)).run
    rw [List.append_nil] at hrun'
    have hwait := Crew.wait_enlist hs.tended
    refine ⟨⟨htame, hs.tended.enlist, hdated _ (Nat.le_succ _) fun id hid => ?_⟩, acts, hacts, ?_⟩
    · rw [hwait]
      exact if_neg (Nat.ne_of_lt hid)
    · have hnet : s.crew.enlist.net s'.heap.channels =
          { n.setWait n.nextId (some ⟨0, false, none⟩) with nextId := n.nextId + 1 } := by
        rw [Crew.net, Crew.live_enlist hs.tended, hchannels, hwait]
        rfl
      rw [hnet]
      exact hrun'

theorem follows_of_changes {s s' : Turn} (h : Changes s s') : Follows s s' := by
  induction h with
  | refl => exact refl_of Follows s
  | tail _ hc ih => exact trans_of Follows ih hc.follows

theorem Leads.follows {α : Type} {x : Exec α} {s : Turn} (h : Leads Changes x s) :
    Leads Follows x s := follows_of_changes h

/-! ## Waking -/

/-- A wake-up takes the claims of one wait and no others. -/
theorem Crew.live_wake {c : Crew} (h : c.Tended) {w : Waiter} (hw : c.live w = true) (r : Resume) :
    (c.wake w r).live = fun w' => c.live w' && !w.alike w' := by
  obtain ⟨x, hx, hp, hn⟩ := (live_iff h w).mp hw
  rw [live_eq (h.wake w r), live_eq h, wait_wake h hw]
  funext w'
  unfold Wait.live Waiter.alike
  by_cases ht : w'.task = w.task
  · rw [ht, hx]
    simp only [if_true, hp, hn]
    by_cases he : w'.epoch = w.epoch
    · simp [he]
    · simp [he, Ne.symm he]
  · simp [ht]

theorem Channel.prune_prune (c : Channel) (keep keep' : Waiter → Bool) :
    (c.prune keep).prune keep' = c.prune fun w => keep w && keep' w := by
  simp [prune, List.filter_filter, Bool.and_comm]

theorem Exec.wake_apply (s : Turn) (w : Waiter) (r : Resume) : wake w r s =
    .ok ⟨⟩ { s with
      heap := (s.vm.scheduler.wake s.heap w r).2.2
      acts := if (s.vm.scheduler.wake s.heap w r).1 then s.acts ++ [.woken w r] else s.acts
      vm := { s.vm with scheduler := (s.vm.scheduler.wake s.heap w r).2.1 } } := rfl

theorem Turn.wake_channels (s : Turn) (w : Waiter) (r : Resume) :
    (endState (wake w r) s).heap.channels = s.heap.channels := by
  rw [endState_ok (wake_apply s w r)]
  dsimp only
  rw [Machine.wake_frame]

theorem Turn.wake_crew (s : Turn) (w : Waiter) (r : Resume) :
    (endState (wake w r) s).crew = s.crew.wake w r :=
  Machine.crew_wake (Machine.ofTurn s) w r

theorem Dated.wake {c : Crew} {channels : Array Channel} (hd : Dated c channels)
    (h : c.Tended) {w : Waiter} (hw : c.live w = true) (r : Resume) :
    Dated (c.wake w r) channels := by
  intro ch hch w' hmem
  obtain ⟨hlt, hx⟩ := hd ch hch w' hmem
  refine ⟨?_, fun x => ?_⟩
  · rwa [Crew.nextId_wake]
  · rw [Crew.wait_wake h hw]
    dsimp only
    split
    · rename_i ht
      rintro ⟨rfl⟩
      obtain ⟨y, hy, -, hn⟩ := (Crew.live_iff h w).mp hw
      have := hx y (ht ▸ hy)
      left
      show w'.epoch < w.epoch + 1
      omega
    · exact hx x

theorem Good.wake {hosts : Array HostFunction} {c : Crew} {channels : Array Channel}
    (h : Good hosts c channels) {w : Waiter} (hw : c.live w = true) (r : Resume) :
    Good hosts (c.wake w r) channels ∧ (c.wake w r).net channels = (c.net channels).wake w r := by
  refine ⟨⟨h.tame, h.tended.wake w r, h.dated.wake h.tended hw r⟩, ?_⟩
  rw [Crew.net, Crew.live_wake h.tended hw, Crew.wait_wake h.tended hw, Crew.nextId_wake]
  unfold Net.wake Net.prune Net.setWait Crew.net
  dsimp only
  rw [Array.map_map]
  congr 1
  refine congrArg (fun f => channels.map f) ?_
  funext c
  exact (Channel.prune_prune c _ _).symm

theorem Turn.wake_acts (s : Turn) (w : Waiter) (r : Resume) : (endState (wake w r) s).acts =
    if s.crew.live w then s.acts ++ [.woken w r] else s.acts := by
  have hanswer : (s.vm.scheduler.wake s.heap w r).1 = s.crew.live w :=
    Machine.wake_live (Machine.ofTurn s) w r
  rw [endState_ok (wake_apply s w r), ← hanswer]

/-- The turn after a live waiter has been woken. -/
theorem Turn.wake_live {s : Turn} (hs : s.Good) {w : Waiter} (hw : s.crew.live w = true)
    (r : Resume) : (endState (wake w r) s).Good ∧
      (endState (wake w r) s).acts = s.acts ++ [.woken w r] ∧
      (endState (wake w r) s).net = s.net.wake w r := by
  unfold Turn.Good Turn.net
  rw [wake_crew, wake_channels, wake_acts, if_pos hw]
  obtain ⟨hgood, hnet⟩ := TaskVm.Good.wake hs hw r
  exact ⟨hgood, rfl, hnet⟩

end TaskVm
