import TaskVm.Proofs.Lines

/-!
# What a wait comes to

A wait begins with an operation that lines up with all its claims. While it is on, the claims
stay in line as they are. It comes to its end in one step: one claim is met, and with that step
all others are gone, or the task is. From then on nothing that happens is about a waiter of that
wait, because waiters are told apart by a number that no later wait has.
-/

namespace TaskVm

theorem Waiter.isOf_of_ne {t : TaskId} {epoch : Nat} {w : Waiter} (hne : w.task ≠ t) :
    w.isOf t epoch = false := by
  simp [isOf, hne]

/-- The act is about a waiter of one wait of one task. -/
def Act.isOf (t : TaskId) (epoch : Nat) : Act → Bool
  | sent _ _ (some w) | received _ _ (some w) | parked _ w _ | woken w _ => w.isOf t epoch
  | _ => false

/-- Someone else is woken. -/
def Act.isOther (t : TaskId) (epoch : Nat) : Act → Bool
  | woken w _ => !w.isOf t epoch
  | _ => false

/-- The operation that a task begins by an act. -/
def Act.begun? (t : TaskId) : Act → Option Operation
  | began t' op => if t' = t then some op else none
  | _ => none

/-- The operation a task has begun last. -/
def lastBegun (t : TaskId) (hist : List Act) : Option Operation :=
  (hist.filterMap (·.begun? t)).getLast?

/-- What one of some claims has been met by, and what the task goes on with. -/
inductive Meets (claims : List Claim) (t : TaskId) (epoch : Nat) : List Act → Resume → Prop where
  /-- Somebody sends to a claim to receive. -/
  | sent {k : Claim} (hk : k ∈ claims) (ho : k.offer = none) (v : Value) :
      Meets claims t epoch
        [.sent k.channel v (some (k.waiter t epoch)),
          .woken (k.waiter t epoch) (Scheduler.resumeOf (k.waiter t epoch) v)]
        (Scheduler.resumeOf (k.waiter t epoch) v)
  /-- Somebody receives where there is a claim to send. -/
  | received {k : Claim} {v : Value} (hk : k ∈ claims) (ho : k.offer = some v) (u : Value) :
      Meets claims t epoch
        [.received k.channel u (some (k.waiter t epoch)),
          .woken (k.waiter t epoch) (Scheduler.resumeOf (k.waiter t epoch) .nil)]
        (Scheduler.resumeOf (k.waiter t epoch) .nil)
  /-- A channel with a claim to receive is closed. Others in line may be told after this one. -/
  | dismissed {k : Claim} (hk : k ∈ claims) (ho : k.offer = none) {others : List Act}
      (hothers : ∀ a ∈ others, a.isOther t epoch) :
      Meets claims t epoch
        (.woken (k.waiter t epoch) (Scheduler.resumeOf (k.waiter t epoch) .nil) ::
          (others ++ [.closed k.channel]))
        (Scheduler.resumeOf (k.waiter t epoch) .nil)
  /-- A channel with a claim to send is closed. -/
  | rejected {k : Claim} {v : Value} (hk : k ∈ claims) (ho : k.offer = some v)
      {others : List Act} (hothers : ∀ a ∈ others, a.isOther t epoch) :
      Meets claims t epoch
        (.woken (k.waiter t epoch) (.error .channelClosed) :: (others ++ [.closed k.channel]))
        (.error .channelClosed)

namespace Net

variable {n n' : Net} {t : TaskId} {epoch : Nat} {op : Operation}

/-- A task waits with all claims of an operation, and with no others. -/
structure Waiting (n : Net) (t : TaskId) (epoch : Nat) (op : Operation) : Prop where
  on : n.waits t = some ⟨epoch, true, none⟩
  placed : ∀ k ∈ op.claims, k.channel < n.channels.size
  receivers : ∀ (ch : ChannelId) (c : Channel), n.channels[ch]? = some c →
    c.receivers.filter (·.task == t) = Claim.receivers op.claims t epoch ch
  senders : ∀ (ch : ChannelId) (c : Channel), n.channels[ch]? = some c →
    c.senders.filter (·.1.task == t) = Claim.senders op.claims t epoch ch

/-- A wait that is over, because the task has gone on or is gone. -/
structure Over (n : Net) (t : TaskId) (epoch : Nat) : Prop where
  known : t < n.nextId
  past : ∀ x, n.waits t = some x → epoch < x.number

/-! ## What steps do to waits -/

/-- Numbers are not given back. -/
theorem Step.nextId_le {acts : List Act} (hs : Step n acts n') : n.nextId ≤ n'.nextId := by
  cases hs with
  | reserve | enlist => exact Nat.le_succ _
  | close _ _ ht => exact Nat.le_of_eq ht.nextId.symm
  | _ => exact Nat.le_refl _

/-- What becomes of waits in a step, and what is on record about them. -/
inductive Shift (n n' : Net) : List Act → Prop where
  | kept {acts : List Act} (hw : n'.waits = n.waits)
      (ha : ∀ a ∈ acts, ∀ t, (∀ epoch, a.isOf t epoch = false) ∧ ∀ r, a ≠ .resumed t r) :
      Shift n n' acts
  | enlisted (hw : n'.waits = (n.setWait n.nextId (some ⟨0, false, none⟩)).waits) :
      Shift n n' []
  /-- The waits of some who were in line are over. -/
  | told {n₁ : Net} {l : List (Waiter × Resume)} {told acts : List Act} (ht : Tells n l told n₁)
      (hw : n'.waits = n₁.waits)
      (ha : ∀ a ∈ acts, ∀ t,
        (∀ epoch, (∀ b ∈ told, b.isOf t epoch = false) → a.isOf t epoch = false) ∧
        ∀ r, a ≠ .resumed t r) : Shift n n' acts
  | parked {t : TaskId} {epoch : Nat} (hx : n.waits t = some ⟨epoch, false, none⟩)
      (op : Operation) (hw : n'.waits = (n.setWait t (some ⟨epoch, true, none⟩)).waits) :
      Shift n n' (.began t op :: op.claims.map (Claim.act t epoch))
  | resumed {t : TaskId} {epoch : Nat} {r : Resume}
      (hx : n.waits t = some ⟨epoch, false, some r⟩)
      (hw : n'.waits = (n.setWait t (some ⟨epoch, false, none⟩)).waits) :
      Shift n n' [.resumed t r]
  | left (ids : List TaskId) (hw : n'.waits = fun id => if id ∈ ids then none else n.waits id) :
      Shift n n' (ids.map .ended)

theorem Step.shift {acts : List Act} (hs : Step n acts n') (h : n.Sound) : n.Shift n' acts := by
  cases hs with
  | @quiet a ha =>
    refine .kept rfl fun b hb t => ?_
    rw [List.mem_singleton.mp hb]
    cases a
    case sent | received | parked | woken | resumed => nomatch ha
    all_goals exact ⟨fun _ => rfl, fun _ => nofun⟩
  | create | reserve => exact .kept rfl (by simp)
  | begin | store | take => exact .kept rfl (by simp [Act.isOf])
  | enlist => exact .enlisted rfl
  -- Who is in line is in the wait it is in line for.
  | @hand ch c hc _ w rest hr v =>
    have hlive := h.receiver hc (w := w) (by simp [hr])
    exact .told (.single hlive _) rfl (by simp [Act.isOf])
  | @refill ch c hc v u buffer hb w rest hs =>
    have hlive := h.sender hc (x := (w, u)) (by simp [hs])
    exact .told (.single hlive _) rfl (by simp [Act.isOf])
  | @fetch ch c hc hb w v rest hs =>
    have hlive := h.sender hc (x := (w, v)) (by simp [hs])
    exact .told (.single hlive _) rfl (by simp [Act.isOf])
  | @close ch c hc ho told n₁ ht c' hc' hr hs =>
    refine .told ht rfl fun a ha t => ?_
    rcases List.mem_append.mp ha with ha | ha
    · obtain ⟨w, r, rfl⟩ := ht.woken a ha
      exact ⟨fun epoch hnone => hnone _ ha, fun _ => nofun⟩
    · rw [List.mem_singleton.mp ha]
      exact ⟨fun _ _ => rfl, fun _ => nofun⟩
  | park hx op hidle => exact .parked hx op rfl
  | resume hx => exact .resumed hx rfl
  | leave ids => exact .left ids rfl

/-! ## Waits that are over -/

namespace Over

theorem setWait (h : n.Over t epoch) {t' : TaskId} {x y : Wait} (hx : n.waits t' = some x)
    (hy : x.number ≤ y.number) : (n.setWait t' (some y)).Over t epoch where
  known := h.known
  past z hz := by
    rw [Net.setWait] at hz
    dsimp only at hz
    split at hz
    · rename_i ht
      injection hz with hz
      rw [← hz]
      exact Nat.lt_of_lt_of_le (h.past x (ht ▸ hx)) hy
    · exact h.past z hz

theorem not_isOf (h : n.Over t epoch) {w : Waiter} (hw : Wait.live n.waits w = true) :
    w.isOf t epoch = false := by
  refine Bool.eq_false_iff.mpr fun hown => ?_
  obtain ⟨x, hx, -, hnumber⟩ := Wait.live_iff.mp hw
  obtain ⟨ht, he⟩ := Bool.and_eq_true_iff.mp hown
  rw [beq_iff_eq.mp ht] at hx
  exact Nat.ne_of_gt (h.past x hx) (hnumber.trans (beq_iff_eq.mp he))

theorem tells (h : n.Over t epoch) {l : List (Waiter × Resume)} {acts : List Act}
    (ht : Tells n l acts n') : n'.Over t epoch ∧ ∀ a ∈ acts, a.isOf t epoch = false := by
  induction ht with
  | nil => exact ⟨h, by simp⟩
  | @told n n' w r rest acts hw _ ih =>
    obtain ⟨x, hx, -, hnumber⟩ := Wait.live_iff.mp hw
    have hwake := h.setWait (y := ⟨w.epoch + 1, false, some r⟩) hx (hnumber ▸ Nat.le_succ _)
    obtain ⟨hover, hacts⟩ := ih ⟨hwake.known, hwake.past⟩
    exact ⟨hover, List.forall_mem_cons.mpr ⟨h.not_isOf hw, hacts⟩⟩
  | passed _ _ ih => exact ih h

end Over

/-- **A wait that is over stays over**, and nothing is about it any more. -/
theorem Step.over {acts : List Act} (hs : Step n acts n') (h : n.Sound) (ho : n.Over t epoch) :
    n'.Over t epoch ∧ ∀ a ∈ acts, a.isOf t epoch = false := by
  have hknown : t < n'.nextId := Nat.lt_of_lt_of_le ho.known hs.nextId_le
  cases hs.shift h with
  | kept hw ha =>
    exact ⟨⟨hknown, fun x hx => ho.past x (hw ▸ hx)⟩, fun a hmem => (ha a hmem t).1 epoch⟩
  | enlisted hw =>
    refine ⟨⟨hknown, fun x hx => ho.past x ?_⟩, by simp⟩
    rw [hw] at hx
    exact (if_neg (Nat.ne_of_lt ho.known)).symm.trans hx
  | told ht hw ha =>
    obtain ⟨hover, hnone⟩ := ho.tells ht
    exact ⟨⟨hknown, fun x hx => hover.past x (hw ▸ hx)⟩,
      fun a hmem => (ha a hmem t).1 epoch hnone⟩
  | @parked t' epoch' hx op hw =>
    have hset := ho.setWait (y := ⟨epoch', true, none⟩) hx (Nat.le_refl _)
    refine ⟨⟨hknown, fun x hx => hset.past x (hw ▸ hx)⟩, fun a ha => ?_⟩
    rcases List.mem_cons.mp ha with rfl | ha
    · rfl
    · obtain ⟨k, -, rfl⟩ := List.mem_map.mp ha
      -- A task that parks once more does so in a wait with a higher number.
      refine Bool.eq_false_iff.mpr fun hown => ?_
      obtain ⟨ht, he⟩ := Bool.and_eq_true_iff.mp hown
      rw [show t' = t from beq_iff_eq.mp ht] at hx
      exact Nat.ne_of_gt (ho.past _ hx) (beq_iff_eq.mp he)
  | @resumed t' epoch' r hx hw =>
    have hset := ho.setWait (y := ⟨epoch', false, none⟩) hx (Nat.le_refl _)
    exact ⟨⟨hknown, fun x hx => hset.past x (hw ▸ hx)⟩, by simp [Act.isOf]⟩
  | left ids hw =>
    refine ⟨⟨hknown, fun x hx => ho.past x ?_⟩, fun a ha => ?_⟩
    · rw [hw] at hx
      dsimp only at hx
      split at hx
      · cases hx
      · exact hx
    · obtain ⟨id, -, rfl⟩ := List.mem_map.mp ha
      rfl

/-! ## Waits that are on -/

namespace Waiting

/-- The lines of a channel change, as far as the task is not concerned. -/
theorem put (h : n.Waiting t epoch op) {ch : ChannelId} {c c' : Channel}
    (hc : n.channels[ch]? = some c)
    (hr : c'.receivers.filter (·.task == t) = c.receivers.filter (·.task == t))
    (hs : c'.senders.filter (·.1.task == t) = c.senders.filter (·.1.task == t)) :
    (n.put ch c').Waiting t epoch op where
  on := h.on
  placed k hk := by
    rw [Net.put, Array.size_setIfInBounds]
    exact h.placed k hk
  receivers i d hd := by
    rcases put_channel hd with ⟨rfl, rfl⟩ | ⟨-, hd⟩
    · rw [hr]
      exact h.receivers i c hc
    · exact h.receivers i d hd
  senders i d hd := by
    rcases put_channel hd with ⟨rfl, rfl⟩ | ⟨-, hd⟩
    · rw [hs]
      exact h.senders i c hc
    · exact h.senders i d hd

/-- Others leave the lines. -/
theorem prune (h : n.Waiting t epoch op) {keep : Waiter → Bool} {waits : TaskId → Option Wait}
    (hk : ∀ w, w.task = t → keep w = true) (hw : waits t = n.waits t) :
    ({ n.prune keep with waits } : Net).Waiting t epoch op where
  on := hw.trans h.on
  placed k hk := by
    rw [Net.prune, Array.size_map]
    exact h.placed k hk
  receivers i d hd := by
    rw [Net.prune, Array.getElem?_map, Option.map_eq_some_iff] at hd
    obtain ⟨c, hc, rfl⟩ := hd
    rw [← h.receivers i c hc, Channel.prune, List.filter_filter]
    refine List.filter_congr fun w _ => ?_
    by_cases ht : w.task = t
    · simp [hk w ht]
    · simp [ht]
  senders i d hd := by
    rw [Net.prune, Array.getElem?_map, Option.map_eq_some_iff] at hd
    obtain ⟨c, hc, rfl⟩ := hd
    rw [← h.senders i c hc, Channel.prune, List.filter_filter]
    refine List.filter_congr fun x _ => ?_
    by_cases ht : x.1.task = t
    · simp [hk x.1 ht]
    · simp [ht]

theorem wake (h : n.Waiting t epoch op) {w : Waiter} (hne : w.task ≠ t) (r : Resume) :
    (n.wake w r).Waiting t epoch op := by
  refine h.prune (fun w' hw' => ?_) (if_neg (Ne.symm hne))
  simp [Waiter.alike, hw', Ne.symm hne]

/-- Another task joins the lines. -/
theorem park (h : n.Waiting t epoch op) {t' : TaskId} (ht : t ≠ t') (epoch' : Nat)
    (claims : List Claim) : (n.park t' epoch' claims).Waiting t epoch op where
  on := (if_neg ht).trans h.on
  placed k hk := by
    rw [Net.park, Array.size_mapIdx]
    exact h.placed k hk
  receivers i d hd := by
    rw [Net.park, Array.getElem?_mapIdx, Option.map_eq_some_iff] at hd
    obtain ⟨c, hc, rfl⟩ := hd
    have hnew : (Claim.receivers claims t' epoch' i).filter (·.task == t) = [] := by
      refine List.filter_eq_nil_iff.mpr fun w hw => ?_
      obtain ⟨k, -, -, -, rfl⟩ := Claim.mem_receivers.mp hw
      simp [Claim.waiter, Ne.symm ht]
    rw [List.filter_append, hnew, List.append_nil]
    exact h.receivers i c hc
  senders i d hd := by
    rw [Net.park, Array.getElem?_mapIdx, Option.map_eq_some_iff] at hd
    obtain ⟨c, hc, rfl⟩ := hd
    have hnew : (Claim.senders claims t' epoch' i).filter (·.1.task == t) = [] := by
      refine List.filter_eq_nil_iff.mpr fun x hx => ?_
      obtain ⟨k, -, -, -, hkx⟩ := Claim.mem_senders.mp hx
      simp [← hkx, Claim.waiter, Ne.symm ht]
    rw [List.filter_append, hnew, List.append_nil]
    exact h.senders i c hc

/-- Who has joined the lines waits, given that it was in none. -/
theorem of_park (h : n.Sound) (hx : n.waits t = some ⟨epoch, false, none⟩)
    (hp : ∀ k ∈ op.claims, k.channel < n.channels.size) :
    (n.park t epoch op.claims).Waiting t epoch op where
  on := if_pos rfl
  placed k hk := by
    rw [Net.park, Array.size_mapIdx]
    exact hp k hk
  receivers i d hd := by
    rw [Net.park, Array.getElem?_mapIdx, Option.map_eq_some_iff] at hd
    obtain ⟨c, hc, rfl⟩ := hd
    -- The task was not parked, so it was nowhere in line.
    have hold : c.receivers.filter (·.task == t) = [] := by
      refine List.filter_eq_nil_iff.mpr fun w hw ht => ?_
      have hlive := (h.channels i c hc).receiver_live hw
      rw [beq_iff_eq.mp ht, hx] at hlive
      cases hlive
    have hnew : (Claim.receivers op.claims t epoch i).filter (·.task == t) =
        Claim.receivers op.claims t epoch i := by
      refine List.filter_eq_self.mpr fun w hw => ?_
      obtain ⟨k, -, -, -, rfl⟩ := Claim.mem_receivers.mp hw
      exact beq_self_eq_true t
    rw [List.filter_append, hold, hnew, List.nil_append]
  senders i d hd := by
    rw [Net.park, Array.getElem?_mapIdx, Option.map_eq_some_iff] at hd
    obtain ⟨c, hc, rfl⟩ := hd
    have hold : c.senders.filter (·.1.task == t) = [] := by
      refine List.filter_eq_nil_iff.mpr fun x hx' ht => ?_
      have hlive := (h.channels i c hc).sender_live hx'
      rw [beq_iff_eq.mp ht, hx] at hlive
      cases hlive
    have hnew : (Claim.senders op.claims t epoch i).filter (·.1.task == t) =
        Claim.senders op.claims t epoch i := by
      refine List.filter_eq_self.mpr fun x hx' => ?_
      obtain ⟨k, -, -, -, hkx⟩ := Claim.mem_senders.mp hx'
      rw [← hkx]
      exact beq_self_eq_true t
    rw [List.filter_append, hold, hnew, List.nil_append]

/-- Nobody is in line at a new channel. -/
theorem create (h : n.Waiting t epoch op) {fresh : Array Channel}
    (hf : ∀ c ∈ fresh, ∃ k, c = .ofCapacity k) :
    ({ n with channels := n.channels ++ fresh } : Net).Waiting t epoch op := by
  have hnew : ∀ i d, (n.channels ++ fresh)[i]? = some d → n.channels[i]? = some d ∨
      (∃ k, d = .ofCapacity k) ∧ ∀ k ∈ op.claims, k.channel ≠ i := by
    intro i d hd
    rw [Array.getElem?_append] at hd
    split at hd
    · exact .inl hd
    · rename_i hi
      exact .inr ⟨hf d (Array.mem_of_getElem? hd), fun k hk he => hi (he ▸ h.placed k hk)⟩
  refine ⟨h.on, fun k hk => ?_, fun i d hd => ?_, fun i d hd => ?_⟩
  · rw [Array.size_append]
    exact Nat.lt_add_right _ (h.placed k hk)
  · rcases hnew i d hd with hd | ⟨⟨m, rfl⟩, hne⟩
    · exact h.receivers i d hd
    · exact (List.filterMap_eq_nil_iff.mpr fun k hk => if_neg fun hc => hne k hk hc.1).symm
  · rcases hnew i d hd with hd | ⟨⟨m, rfl⟩, hne⟩
    · exact h.senders i d hd
    · exact (List.filterMap_eq_nil_iff.mpr fun k hk => if_neg (hne k hk)).symm

/-- A task that is not parked is another one. -/
theorem ne_of_idle (h : n.Waiting t epoch op) {t' : TaskId} {x : Wait} (hx : n.waits t' = some x)
    (hp : x.parked = false) : t ≠ t' := by
  rintro rfl
  rw [h.on] at hx
  injection hx with hx
  rw [← hx] at hp
  cases hp

theorem known (h : n.Waiting t epoch op) (hs : n.Sound) : t < n.nextId := by
  refine Nat.lt_of_not_le fun hle => ?_
  have hfresh := hs.fresh t hle
  rw [h.on] at hfresh
  cases hfresh

/-- Who is in line to receive has a claim to. -/
theorem receiver (h : n.Waiting t epoch op) {ch : ChannelId} {c : Channel}
    (hc : n.channels[ch]? = some c) {w : Waiter} (hw : w ∈ c.receivers) (ht : w.task = t) :
    ∃ k ∈ op.claims, k.channel = ch ∧ k.offer = none ∧ k.waiter t epoch = w := by
  refine Claim.mem_receivers.mp ?_
  rw [← h.receivers ch c hc]
  exact List.mem_filter.mpr ⟨hw, beq_iff_eq.mpr ht⟩

theorem sender (h : n.Waiting t epoch op) {ch : ChannelId} {c : Channel}
    (hc : n.channels[ch]? = some c) {x : Waiter × Value} (hx : x ∈ c.senders) (ht : x.1.task = t) :
    ∃ k ∈ op.claims, k.channel = ch ∧ k.offer = some x.2 ∧ k.waiter t epoch = x.1 := by
  refine Claim.mem_senders.mp ?_
  rw [← h.senders ch c hc]
  exact List.mem_filter.mpr ⟨hx, beq_iff_eq.mpr ht⟩

end Waiting

/-- What becomes of a wait in a step. -/
inductive Comes (n' : Net) (t : TaskId) (epoch : Nat) (op : Operation) : List Act → Prop where
  | still {acts : List Act} (h : n'.Waiting t epoch op)
      (ha : ∀ a ∈ acts, a.isOf t epoch = false ∧ ∀ op', a ≠ .began t op') :
      Comes n' t epoch op acts
  | dropped {acts : List Act} (h : n'.waits t = none) (hm : .ended t ∈ acts)
      (ha : ∀ a ∈ acts, a.isOf t epoch = false) : Comes n' t epoch op acts
  | met {before acts : List Act} {r : Resume} (h : n'.waits t = some ⟨epoch + 1, false, some r⟩)
      (hb : ∀ a ∈ before, a.isOf t epoch = false) (hm : Meets op.claims t epoch acts r) :
      Comes n' t epoch op (before ++ acts)

/-- The wait is met at once. -/
theorem Comes.meets {acts : List Act} {r : Resume}
    (h : n'.waits t = some ⟨epoch + 1, false, some r⟩) (hm : Meets op.claims t epoch acts r) :
    n'.Comes t epoch op acts := by
  have hnone : ∀ a ∈ ([] : List Act), a.isOf t epoch = false := by simp
  exact .met h hnone hm

namespace Waiting

/-- Others are told what to go on with. -/
theorem told (h : n.Waiting t epoch op) {l : List (Waiter × Resume)} {acts : List Act}
    (ht : Tells n l acts n') (hl : ∀ x ∈ l, x.1.task ≠ t) :
    n'.Waiting t epoch op ∧ ∀ a ∈ acts, a.isOf t epoch = false ∧ ∀ op', a ≠ .began t op' := by
  induction ht with
  | nil => exact ⟨h, by simp⟩
  | @told n n' w r rest acts hw _ ih =>
    obtain ⟨hne, hrest⟩ := List.forall_mem_cons.mp hl
    obtain ⟨h', ha⟩ := ih (h.wake hne r) hrest
    exact ⟨h', List.forall_mem_cons.mpr ⟨⟨Waiter.isOf_of_ne hne, fun _ => nofun⟩, ha⟩⟩
  | passed _ _ ih => exact ih h (List.forall_mem_cons.mp hl).2

/-- Of those who are told, the first of this wait ends it. -/
theorem first_told (h : n.Waiting t epoch op) {l : List (Waiter × Resume)} {acts : List Act}
    (ht : Tells n l acts n') (hl : ∀ x ∈ l, x.1.task = t → x.1.epoch = epoch)
    (hmem : ∃ x ∈ l, x.1.task = t) :
    ∃ before w r after, acts = before ++ .woken w r :: after ∧ (w, r) ∈ l ∧ w.task = t ∧
      n'.waits t = some ⟨epoch + 1, false, some r⟩ ∧ (∀ a ∈ before, a.isOf t epoch = false) ∧
      ∀ a ∈ after, a.isOther t epoch := by
  induction ht with
  | nil => simp at hmem
  | @told n n' w r rest acts hw ht ih =>
    obtain ⟨hepoch, hrest⟩ := List.forall_mem_cons.mp hl
    by_cases hne : w.task = t
    · -- From here on the task is not parked, so nobody else of it is told.
      have hx : (n.wake w r).waits t = some ⟨epoch + 1, false, some r⟩ := by
        rw [← hepoch hne]
        exact if_pos hne.symm
      obtain ⟨hx', hothers⟩ := ht.kept hx rfl
      refine ⟨[], w, r, acts, rfl, List.mem_cons_self, hne, hx', by simp, fun a ha => ?_⟩
      obtain ⟨w', r', rfl⟩ := ht.woken a ha
      simp [Act.isOther, Waiter.isOf_of_ne (hothers w' r' ha)]
    · have hmem' : ∃ x ∈ rest, x.1.task = t := by simpa [hne] using hmem
      obtain ⟨before, w', r', after, rfl, hin, ht', hx, hb, ha⟩ := ih (h.wake hne r) hrest hmem'
      exact ⟨.woken w r :: before, w', r', after, rfl, List.mem_cons_of_mem _ hin, ht', hx,
        List.forall_mem_cons.mpr ⟨Waiter.isOf_of_ne hne, hb⟩, ha⟩
  | @passed n n' w r rest acts hw ht ih =>
    obtain ⟨hepoch, hrest⟩ := List.forall_mem_cons.mp hl
    -- A waiter of this wait would be live.
    have hne : w.task ≠ t := by
      intro he
      have hlive : Wait.live n.waits w = true :=
        Wait.live_iff.mpr ⟨_, he ▸ h.on, rfl, (hepoch he).symm⟩
      rw [hw] at hlive
      cases hlive
    have hmem' : ∃ x ∈ rest, x.1.task = t := by simpa [hne] using hmem
    obtain ⟨before, w', r', after, rfl, hin, rest⟩ := ih h hrest hmem'
    exact ⟨before, w', r', after, rfl, List.mem_cons_of_mem _ hin, rest⟩

/-- A channel is closed that the task is in line for. -/
theorem comes_closed (h : n.Waiting t epoch op) {ch : ChannelId} {c : Channel}
    (hc : n.channels[ch]? = some c) {acts : List Act} {n₁ : Net} (ht : Tells n c.dismissals acts n₁)
    (hmem : ∃ x ∈ c.dismissals, x.1.task = t) {c' : Channel} :
    (n₁.put ch c').Comes t epoch op (acts ++ [.closed ch]) := by
  have hclaim : ∀ w r, (w, r) ∈ c.dismissals → w.task = t → ∃ k ∈ op.claims, k.channel = ch ∧
      k.waiter t epoch = w ∧ (k.offer = none ∧ r = Scheduler.resumeOf w .nil ∨
        (∃ v, k.offer = some v) ∧ r = .error .channelClosed) := by
    intro w r hx hxt
    rcases Channel.mem_dismissals.mp hx with ⟨hw, rfl⟩ | ⟨⟨v, hw⟩, rfl⟩
    · obtain ⟨k, hk, hch, hoff, hkw⟩ := h.receiver hc hw hxt
      exact ⟨k, hk, hch, hkw, .inl ⟨hoff, rfl⟩⟩
    · obtain ⟨k, hk, hch, hoff, hkw⟩ := h.sender hc hw hxt
      exact ⟨k, hk, hch, hkw, .inr ⟨⟨v, hoff⟩, rfl⟩⟩
  have hepoch : ∀ x ∈ c.dismissals, x.1.task = t → x.1.epoch = epoch := by
    rintro ⟨w, r⟩ hx hxt
    obtain ⟨k, -, -, rfl, -⟩ := hclaim w r hx hxt
    rfl
  obtain ⟨before, w, r, others, rfl, hin, hwt, hx, hb, ho⟩ := h.first_told ht hepoch hmem
  rw [List.append_assoc]
  obtain ⟨k, hk, rfl, rfl, ⟨hoff, rfl⟩ | ⟨⟨v, hoff⟩, rfl⟩⟩ := hclaim w r hin hwt
  · exact .met hx hb (.dismissed hk hoff ho)
  · exact .met hx hb (.rejected hk hoff ho)

end Waiting

/-- The first of the parked sends is let in. It may be the one that is waited for. -/
theorem Waiting.comes_received (h : n.Waiting t epoch op) {ch : ChannelId} {c c' : Channel}
    (hc : n.channels[ch]? = some c) {w : Waiter} {u : Value} {rest : List (Waiter × Value)}
    (hs : c.senders = (w, u) :: rest) (hr : c'.receivers = c.receivers) (hrest : c'.senders = rest)
    (v : Value) : ((n.put ch c').wake w (Scheduler.resumeOf w .nil)).Comes t epoch op
      [.received ch v (some w), .woken w (Scheduler.resumeOf w .nil)] := by
  by_cases ht : w.task = t
  · have hmem : (w, u) ∈ c.senders := by simp [hs]
    obtain ⟨k, hk, rfl, hoff, hkw⟩ := h.sender hc hmem ht
    subst hkw
    exact .meets (waits_wake _ _ _) (.received hk hoff v)
  · have hput : (n.put ch c').Waiting t epoch op :=
      h.put hc (by rw [hr]) (by rw [hs, hrest, List.filter_cons_of_neg (by simp [ht])])
    exact .still (hput.wake ht _) (by simp [Act.isOf, Waiter.isOf_of_ne ht])

/-- **A wait that is on stays as it is until it is met or dropped.** -/
theorem Step.comes {acts : List Act} (hs : Step n acts n') (h : n.Sound)
    (hw : n.Waiting t epoch op) : n'.Comes t epoch op acts := by
  cases hs with
  | @quiet a ha =>
    refine .still hw fun b hb => ?_
    rw [List.mem_singleton.mp hb]
    cases a
    case sent | received | parked | woken | began => nomatch ha
    all_goals exact ⟨rfl, fun _ => nofun⟩
  | create hf => exact .still (hw.create hf) (by simp)
  | reserve => exact .still ⟨hw.on, hw.placed, hw.receivers, hw.senders⟩ (by simp)
  | enlist =>
    have ht : t ≠ n.nextId := by
      rintro rfl
      have hfresh := h.fresh _ (Nat.le_refl _)
      rw [hw.on] at hfresh
      cases hfresh
    exact .still ⟨(if_neg ht).trans hw.on, hw.placed, hw.receivers, hw.senders⟩ (by simp)
  | @begin t' x hx hp op' =>
    refine .still hw fun a ha => ?_
    rw [List.mem_singleton.mp ha]
    exact ⟨rfl, fun op'' h => (hw.ne_of_idle hx hp).symm (by injection h)⟩
  -- Whoever is served, it is this task's wait or somebody else's.
  | @hand ch c hc _ w rest hr v =>
    by_cases ht : w.task = t
    · obtain ⟨k, hk, rfl, hoff, rfl⟩ := hw.receiver hc (w := w) (by simp [hr]) ht
      exact .meets (waits_wake _ _ _) (.sent hk hoff v)
    · have hput : (n.put ch { c with receivers := rest }).Waiting t epoch op :=
        hw.put hc (by rw [hr, List.filter_cons_of_neg (by simp [ht])]) rfl
      exact .still (hput.wake ht _) (by simp [Act.isOf, Waiter.isOf_of_ne ht])
  | @store ch c hc ho hr hroom v => exact .still (hw.put hc rfl rfl) (by simp [Act.isOf])
  | @take ch c hc v buffer hb hs => exact .still (hw.put hc rfl rfl) (by simp [Act.isOf])
  | @refill ch c hc v u buffer hb w rest hs => exact hw.comes_received hc hs (by rfl) rfl v
  | @fetch ch c hc hb w v rest hs => exact hw.comes_received hc hs (by rfl) rfl v
  | @close ch c hc ho acts n₁ ht c' hc' hr hs =>
    by_cases hmem : ∃ x ∈ c.dismissals, x.1.task = t
    · exact hw.comes_closed hc ht hmem
    · have hothers : ∀ x ∈ c.dismissals, x.1.task ≠ t := fun x hx he => hmem ⟨x, hx, he⟩
      obtain ⟨hw', ha⟩ := hw.told ht hothers
      refine .still (hw'.put hc' rfl rfl) fun a hmem => ?_
      rcases List.mem_append.mp hmem with hmem | hmem
      · exact ha a hmem
      · rw [List.mem_singleton.mp hmem]
        exact ⟨rfl, fun _ => nofun⟩
  | @park t' epoch' hx op' hidle =>
    have ht := hw.ne_of_idle hx rfl
    refine .still (hw.park ht epoch' op'.claims) fun a ha => ?_
    rcases List.mem_cons.mp ha with rfl | ha
    · exact ⟨rfl, fun op'' he => ht (by injection he with he; exact he.symm)⟩
    · obtain ⟨k, -, rfl⟩ := List.mem_map.mp ha
      exact ⟨Waiter.isOf_of_ne (Ne.symm ht), fun _ => nofun⟩
  | @resume t' epoch' r hx =>
    have ht := hw.ne_of_idle hx rfl
    refine .still ⟨(if_neg ht).trans hw.on, hw.placed, hw.receivers, hw.senders⟩ ?_
    simp [Act.isOf]
  | leave ids =>
    by_cases ht : t ∈ ids
    · refine .dropped (if_pos ht) (List.mem_map_of_mem ht) fun a ha => ?_
      obtain ⟨id, -, rfl⟩ := List.mem_map.mp ha
      rfl
    · refine .still (hw.prune (fun w hw' => ?_) (if_neg ht)) fun a ha => ?_
      · simp [hw', ht]
      · obtain ⟨id, -, rfl⟩ := List.mem_map.mp ha
        exact ⟨rfl, fun _ => nofun⟩

/-! ## Whole runs -/

/-- A task that has something to go on with goes on with that, unless it is gone before. -/
inductive PicksUp (n' : Net) (t : TaskId) (r : Resume) : List Act → Prop where
  | notYet {acts : List Act} {number : Nat} (h : n'.waits t = some ⟨number, false, some r⟩)
      (ha : ∀ r', .resumed t r' ∉ acts) : PicksUp n' t r acts
  | picked {before after : List Act} (hb : ∀ r', .resumed t r' ∉ before) :
      PicksUp n' t r (before ++ .resumed t r :: after)
  | gone {before after : List Act} (hb : ∀ r', .resumed t r' ∉ before) :
      PicksUp n' t r (before ++ .ended t :: after)

theorem Step.picksUp {acts : List Act} (hs : Step n acts n') (h : n.Sound) {number : Nat}
    {r : Resume} (hx : n.waits t = some ⟨number, false, some r⟩) :
    (n'.waits t = some ⟨number, false, some r⟩ ∧ ∀ r', .resumed t r' ∉ acts) ∨
    acts = [.resumed t r] ∨ ∃ before after, acts = before ++ .ended t :: after ∧
      ∀ r', .resumed t r' ∉ before := by
  -- A task whose resume is waiting is neither in line nor about to start, so the shifts of other
  -- tasks pass it by; its own are the pick-up and its end.
  cases hs.shift h with
  | kept hw ha => exact .inl ⟨hw ▸ hx, fun r' hmem => (ha _ hmem t).2 r' rfl⟩
  | enlisted hw =>
    have ht : t ≠ n.nextId := by
      rintro rfl
      rw [h.fresh _ (Nat.le_refl _)] at hx
      cases hx
    exact .inl ⟨hw ▸ (if_neg ht).trans hx, by simp⟩
  | told ht hw ha =>
    exact .inl ⟨hw ▸ (ht.kept hx rfl).1, fun r' hmem => (ha _ hmem t).2 r' rfl⟩
  | @parked t' epoch' hx' op hw =>
    have ht : t ≠ t' := by
      rintro rfl
      rw [hx] at hx'
      cases hx'
    refine .inl ⟨hw ▸ (if_neg ht).trans hx, fun r' hmem => ?_⟩
    rcases List.mem_cons.mp hmem with hmem | hmem
    · cases hmem
    · obtain ⟨k, -, hk⟩ := List.mem_map.mp hmem
      cases hk
  | @resumed t' epoch' r' hx' hw =>
    by_cases ht : t = t'
    · subst ht
      rw [hx] at hx'
      injection hx' with hx'
      injection hx' with _ _ hr
      injection hr with hr
      exact .inr (.inl (by rw [hr]))
    · exact .inl ⟨hw ▸ (if_neg ht).trans hx, by simp [ht]⟩
  | left ids hw =>
    have hended : ∀ {ids : List TaskId} {r' : Resume}, .resumed t r' ∉ ids.map Act.ended := by
      intro ids r' hmem
      obtain ⟨id, -, hid⟩ := List.mem_map.mp hmem
      cases hid
    by_cases ht : t ∈ ids
    · obtain ⟨before, after, rfl⟩ := List.append_of_mem ht
      exact .inr (.inr ⟨before.map .ended, after.map .ended, by simp, fun _ => hended⟩)
    · exact .inl ⟨hw ▸ (if_neg ht).trans hx, fun _ => hended⟩

theorem PicksUp.step {acts acts' : List Act} {r : Resume} (hp : n.PicksUp t r acts)
    (hs : Step n acts' n') (h : n.Sound) : n'.PicksUp t r (acts ++ acts') := by
  cases hp with
  | notYet hx ha =>
    rcases hs.picksUp h hx with ⟨hx', ha'⟩ | rfl | ⟨before, after, rfl, hb⟩
    · refine .notYet hx' fun r' hmem => ?_
      rcases List.mem_append.mp hmem with hmem | hmem
      · exact ha r' hmem
      · exact ha' r' hmem
    · exact .picked ha
    · rw [← List.append_assoc]
      refine .gone fun r' hmem => ?_
      rcases List.mem_append.mp hmem with hmem | hmem
      · exact ha r' hmem
      · exact hb r' hmem
  | picked hb =>
    rw [List.append_assoc]
    exact .picked hb
  | gone hb =>
    rw [List.append_assoc]
    exact .gone hb

/-- A value that is sent to somebody in line is what that task goes on with. -/
theorem Step.hands {acts : List Act} (hs : Step n acts n') {before after : List Act}
    {ch : ChannelId} {v : Value} {w : Waiter} (ha : acts = before ++ .sent ch v (some w) :: after) :
    n'.PicksUp w.task (Scheduler.resumeOf w v) after := by
  have hmem : .sent ch v (some w) ∈ acts := ha ▸ List.mem_append_right _ List.mem_cons_self
  cases hs with
  | @hand ch' c hc ho w' rest hr v' =>
    cases before with
    | nil =>
      obtain ⟨hact, rfl⟩ := List.cons.inj ha
      obtain ⟨rfl, rfl, hw⟩ := Act.sent.inj hact
      obtain rfl := Option.some.inj hw
      exact .notYet (waits_wake _ w' (Scheduler.resumeOf w' v')) (by simp)
    | cons b before =>
      obtain ⟨-, ha⟩ := List.cons.inj ha
      cases before with
      | nil => cases ha
      | cons b before =>
        obtain ⟨-, ha⟩ := List.cons.inj ha
        exact absurd ha.symm (by simp)
  | quiet hprivate =>
    rw [← List.mem_singleton.mp hmem] at hprivate
    cases hprivate
  | close hc ho ht =>
    rcases List.mem_append.mp hmem with hmem | hmem
    · obtain ⟨w', r, hw⟩ := ht.woken _ hmem
      cases hw
    · cases List.mem_singleton.mp hmem
  | park hx op =>
    rcases List.mem_cons.mp hmem with hmem | hmem
    · cases hmem
    · obtain ⟨k, -, hk⟩ := List.mem_map.mp hmem
      cases hk
  | leave ids =>
    obtain ⟨t, -, ht⟩ := List.mem_map.mp hmem
    cases ht
  | _ => simp at hmem

theorem Run.hands {acts : List Act} (hr : Run n acts n') (h : n.Sound) :
    ∀ {before after : List Act} {ch : ChannelId} {v : Value} {w : Waiter},
    acts = before ++ .sent ch v (some w) :: after →
    n'.PicksUp w.task (Scheduler.resumeOf w v) after := by
  induction hr with
  | refl =>
    intro before after ch v w ha
    exact absurd ha (by simp)
  | @tail acts acts' n₁ n' hr hs ih =>
    intro before after ch v w ha
    -- The value has been sent before the last step, or in it.
    rcases List.append_eq_append_iff.mp ha with ⟨before', -, ha⟩ | ⟨after', hacts, ha⟩
    · exact hs.hands ha
    · cases after' with
      | nil =>
        have hfirst : acts' = [] ++ .sent ch v (some w) :: after := ha.symm
        exact hs.hands hfirst
      | cons a after' =>
        obtain ⟨rfl, rfl⟩ := List.cons.inj ha
        exact (ih hacts).step hs (hr.sound h)

/-- What becomes of a wait in the long run. -/
inductive Fate (n' : Net) (t : TaskId) (epoch : Nat) (op : Operation) : List Act → Prop where
  | pending {acts : List Act} (h : n'.Waiting t epoch op)
      (ha : ∀ a ∈ acts, a.isOf t epoch = false) : Fate n' t epoch op acts
  | dropped {acts : List Act} (ho : n'.Over t epoch) (hm : .ended t ∈ acts)
      (ha : ∀ a ∈ acts, a.isOf t epoch = false) : Fate n' t epoch op acts
  | met {before effect after : List Act} {r : Resume} (ho : n'.Over t epoch)
      (hm : Meets op.claims t epoch effect r) (hb : ∀ a ∈ before, a.isOf t epoch = false)
      (ha : ∀ a ∈ after, a.isOf t epoch = false) (hp : n'.PicksUp t r after) :
      Fate n' t epoch op (before ++ effect ++ after)

theorem not_isOf_append {acts acts' : List Act} (ha : ∀ a ∈ acts, a.isOf t epoch = false)
    (ha' : ∀ a ∈ acts', a.isOf t epoch = false) :
    ∀ a ∈ acts ++ acts', a.isOf t epoch = false := fun a hmem =>
  (List.mem_append.mp hmem).elim (ha a) (ha' a)

/-- **A wait is met once or never.** Before it is met nothing is about its waiters, and nothing
is afterwards. -/
theorem Run.fate {acts : List Act} (hr : Run n acts n') (h : n.Sound)
    (hw : n.Waiting t epoch op) : n'.Fate t epoch op acts := by
  induction hr with
  | refl => exact .pending hw (by simp)
  | @tail acts acts' n₁ n' hr hs ih =>
    have h₁ := hr.sound h
    -- Up to here the wait is still on, or it has been dropped or met and is over.
    cases ih with
    | pending hw₁ ha =>
      have hknown : t < n'.nextId := Nat.lt_of_lt_of_le (hw₁.known h₁) hs.nextId_le
      cases hs.comes h₁ hw₁ with
      | still hw' ha' => exact .pending hw' (not_isOf_append ha fun a hmem => (ha' a hmem).1)
      | dropped hx hm ha' =>
        refine .dropped ⟨hknown, fun x hx' => ?_⟩ (List.mem_append_right _ hm)
          (not_isOf_append ha ha')
        rw [hx] at hx'
        cases hx'
      | @met before effect r hx hb hm =>
        rw [← List.append_assoc, ← List.append_nil (acts ++ before ++ effect)]
        refine .met ⟨hknown, fun x hx' => ?_⟩ hm (not_isOf_append ha hb) (by simp)
          (.notYet hx (by simp))
        rw [hx] at hx'
        injection hx' with hx'
        rw [← hx']
        exact Nat.lt_succ_self epoch
    | dropped ho hm ha =>
      obtain ⟨ho', ha'⟩ := hs.over h₁ ho
      exact .dropped ho' (List.mem_append_left _ hm) (not_isOf_append ha ha')
    | met ho hm hb ha hp =>
      obtain ⟨ho', ha'⟩ := hs.over h₁ ho
      rw [List.append_assoc]
      exact .met ho' hm hb (not_isOf_append ha ha') (hp.step hs h₁)

/-! ## What parked tasks wait for -/

theorem lastBegun_append {hist acts : List Act} (ha : ∀ a ∈ acts, ∀ op, a ≠ .began t op) :
    lastBegun t (hist ++ acts) = lastBegun t hist := by
  have hnone : acts.filterMap (·.begun? t) = [] := by
    refine List.filterMap_eq_nil_iff.mpr fun a hmem => ?_
    unfold Act.begun?
    split
    · rename_i t' op
      exact if_neg fun ht => ha _ hmem op (by rw [ht])
    · rfl
  rw [lastBegun, lastBegun, List.filterMap_append, hnone, List.append_nil]

/-- Every parked task waits for the operation it has begun last. -/
def Recorded (n : Net) (hist : List Act) : Prop :=
  ∀ t x, n.waits t = some x → x.parked = true →
    ∃ op, lastBegun t hist = some op ∧ n.Waiting t x.number op

/-- A task parks in one kind of step only. -/
theorem Step.parks {acts : List Act} (hs : Step n acts n') {x : Wait} (hx : n'.waits t = some x)
    (hp : x.parked = true) :
    (∃ y, n.waits t = some y ∧ y.parked = true) ∨
    ∃ epoch op, n.waits t = some ⟨epoch, false, none⟩ ∧
      (∀ k ∈ op.claims, ∃ c, n.channels[k.channel]? = some c ∧ k.Idle c) ∧
      acts = .began t op :: op.claims.map (Claim.act t epoch) ∧
      n' = n.park t epoch op.claims := by
  -- Every step but parking leaves the wait it writes unparked.
  have hset : ∀ {n : Net} {t' : TaskId} {y : Wait}, y.parked = false →
      (n.setWait t' (some y)).waits t = some x → n.waits t = some x := by
    intro n t' y hy h
    rw [setWait] at h
    dsimp only at h
    split at h
    · injection h with h
      rw [h, hp] at hy
      cases hy
    · exact h
  cases hs with
  | quiet | create | reserve | begin | store | take => exact .inl ⟨x, hx, hp⟩
  | enlist => exact .inl ⟨x, hset rfl hx, hp⟩
  | hand | refill | fetch => exact .inl ⟨x, hset rfl hx, hp⟩
  | close _ _ ht => exact .inl ⟨x, ht.parked hx hp, hp⟩
  | resume => exact .inl ⟨x, hset rfl hx, hp⟩
  | @park t' epoch hx' op hidle =>
    by_cases ht : t = t'
    · subst ht
      exact .inr ⟨epoch, op, hx', hidle, rfl, rfl⟩
    · exact .inl ⟨x, (if_neg ht).symm.trans hx, hp⟩
  | leave ids =>
    refine .inl ⟨x, ?_, hp⟩
    rw [Net.leave] at hx
    dsimp only at hx
    split at hx
    · cases hx
    · exact hx

theorem Step.recorded {acts hist : List Act} (hs : Step n acts n') (h : n.Sound)
    (hr : n.Recorded hist) : n'.Recorded (hist ++ acts) := by
  intro t x hx hp
  rcases hs.parks hx hp with ⟨y, hy, hyp⟩ | ⟨epoch, op, hy, hidle, rfl, rfl⟩
  · obtain ⟨op, hlast, hw⟩ := hr t y hy hyp
    -- A task that is parked after the step without having parked in it is still in that wait.
    cases hs.comes h hw with
    | still hw' ha =>
      have hnumber := hx.symm.trans hw'.on
      injection hnumber with hnumber
      rw [hnumber]
      exact ⟨op, by rw [lastBegun_append fun a hmem => (ha a hmem).2, hlast], hw'⟩
    | dropped hx' =>
      rw [hx] at hx'
      cases hx'
    | met hx' =>
      rw [hx] at hx'
      injection hx' with hx'
      rw [hx'] at hp
      cases hp
  · have hw : (n.park t epoch op.claims).Waiting t epoch op := Waiting.of_park h hy fun k hk => by
      obtain ⟨c, hc, -⟩ := hidle k hk
      exact (Array.getElem?_eq_some_iff.mp hc).1
    have hnumber := hx.symm.trans hw.on
    injection hnumber with hnumber
    rw [hnumber]
    refine ⟨op, ?_, hw⟩
    rw [List.append_cons, lastBegun_append fun a hmem op' => ?_]
    · simp [lastBegun, Act.begun?]
    · obtain ⟨k, -, rfl⟩ := List.mem_map.mp hmem
      nofun

theorem Run.recorded {acts hist : List Act} (hr : Run n acts n') (h : n.Sound)
    (hrec : n.Recorded hist) : n'.Recorded (hist ++ acts) := by
  induction hr with
  | refl =>
    rw [List.append_nil]
    exact hrec
  | tail hr hs ih =>
    rw [← List.append_assoc]
    exact hs.recorded (hr.sound h) ih

end Net

end TaskVm
