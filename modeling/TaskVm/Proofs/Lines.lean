import TaskVm.Proofs.Net

/-!
# Lines

Who can be in line at a channel of the net. Tasks wait to receive only where there is nothing
to be had, and to send only where there is no room; both at once can be waited for by one
task, whose select has cases in both directions. It follows that no send leaves the buffer
shorter than it could be and that no two tasks wait for each other at one channel.
-/

namespace TaskVm

/-- A channel whose lines are as they should be. -/
structure Channel.Sound (waits : TaskId → Option Wait) (c : Channel) : Prop where
  /-- All who are in line are in that very wait. -/
  live : ∀ w ∈ c.waiters, waits w.task = some ⟨w.epoch, true, none⟩
  room : c.buffer.length ≤ c.capacity
  receivers : c.receivers ≠ [] → c.closed = false ∧ c.buffer = []
  senders : c.senders ≠ [] → c.closed = false ∧ c.buffer.length = c.capacity
  /-- Nobody who waits to receive could be sent what another waits to send. -/
  apart : ∀ w ∈ c.receivers, ∀ x ∈ c.senders, x.1.task = w.task

/-- A net whose lines are as they should be. -/
structure Net.Sound (n : Net) : Prop where
  channels : ∀ (ch : ChannelId) (c : Channel), n.channels[ch]? = some c → c.Sound n.waits
  fresh : ∀ id, n.nextId ≤ id → n.waits id = none

namespace Channel.Sound

variable {waits waits' : TaskId → Option Wait} {c : Channel}

theorem receiver_live (h : c.Sound waits) {w : Waiter} (hw : w ∈ c.receivers) :
    waits w.task = some ⟨w.epoch, true, none⟩ := h.live w (List.mem_append_left _ hw)

theorem sender_live (h : c.Sound waits) {x : Waiter × Value} (hx : x ∈ c.senders) :
    waits x.1.task = some ⟨x.1.epoch, true, none⟩ :=
  h.live x.1 (List.mem_append_right _ (List.mem_map_of_mem hx))

theorem ofCapacity (waits : TaskId → Option Wait) (n : Nat) :
    (Channel.ofCapacity n).Sound waits where
  live _ hw := nomatch hw
  room := Nat.zero_le n
  receivers h := absurd rfl h
  senders h := absurd rfl h
  apart _ hw := nomatch hw

/-- Whoever stays in line is still in that wait. -/
theorem prune (h : c.Sound waits) {keep : Waiter → Bool}
    (hk : ∀ w ∈ c.waiters, keep w = true → waits' w.task = waits w.task) :
    (c.prune keep).Sound waits' where
  live w hw := by
    rcases List.mem_append.mp hw with hw | hw
    · obtain ⟨hw, hkeep⟩ := List.mem_filter.mp hw
      rw [hk w (List.mem_append_left _ hw) hkeep]
      exact h.receiver_live hw
    · obtain ⟨x, hx, rfl⟩ := List.mem_map.mp hw
      obtain ⟨hx, hkeep⟩ := List.mem_filter.mp hx
      rw [hk x.1 (List.mem_append_right _ (List.mem_map_of_mem hx)) hkeep]
      exact h.sender_live hx
  room := h.room
  receivers hne := h.receivers fun he => hne (by rw [Channel.prune, he]; rfl)
  senders hne := h.senders fun he => hne (by rw [Channel.prune, he]; rfl)
  apart w hw x hx := h.apart w (List.mem_filter.mp hw).1 x (List.mem_filter.mp hx).1

/-- In lines that nobody leaves, waits may only change for those who are not there. -/
theorem congr (h : c.Sound waits) (hw : ∀ w ∈ c.waiters, waits' w.task = waits w.task) :
    c.Sound waits' where
  live w hmem := (hw w hmem).trans (h.live w hmem)
  room := h.room
  receivers := h.receivers
  senders := h.senders
  apart := h.apart

/-- The one who is first to receive is gone. -/
theorem tail_receivers (h : c.Sound waits) {w : Waiter} {rest : List Waiter}
    (hr : c.receivers = w :: rest) : ({ c with receivers := rest } : Channel).Sound waits where
  live w' hw := by
    refine h.live w' ?_
    rw [waiters, hr]
    exact List.mem_cons_of_mem w hw
  room := h.room
  receivers _ := h.receivers (by simp [hr])
  senders := h.senders
  apart w' hw := h.apart w' (hr ▸ List.mem_cons_of_mem w hw)

/-- The one who is first to send is gone, and the buffer is as full as before. -/
theorem tail_senders (h : c.Sound waits) {x : Waiter × Value} {rest : List (Waiter × Value)}
    (hs : c.senders = x :: rest) {buffer : List Value} (hb : buffer.length = c.buffer.length) :
    ({ c with buffer, senders := rest } : Channel).Sound waits where
  live w hw := by
    refine h.live w ?_
    rcases List.mem_append.mp hw with hw | hw
    · exact List.mem_append_left _ hw
    · rw [waiters, hs]
      exact List.mem_append_right _ (List.mem_cons_of_mem x.1 hw)
  room := hb ▸ h.room
  receivers hne := by
    obtain ⟨ho, hnil⟩ := h.receivers hne
    exact ⟨ho, List.length_eq_zero_iff.mp (by rw [hb, hnil]; rfl)⟩
  senders _ := by
    obtain ⟨ho, hfull⟩ := h.senders (by simp [hs])
    exact ⟨ho, hb.trans hfull⟩
  apart w hw y hy := h.apart w hw y (hs ▸ List.mem_cons_of_mem x hy)

/-- With nobody in line there is little to ask. -/
theorem of_empty {c : Channel} (hr : c.receivers = []) (hs : c.senders = [])
    (hroom : c.buffer.length ≤ c.capacity) : c.Sound waits where
  live w hw := by
    rw [waiters, hr, hs] at hw
    cases hw
  room := hroom
  receivers hne := absurd hr hne
  senders hne := absurd hs hne
  apart w hw := by
    rw [hr] at hw
    cases hw

/-- Where there is room nobody waits to send. -/
theorem no_senders (h : c.Sound waits) (hroom : c.buffer.length < c.capacity) : c.senders = [] := by
  cases hs : c.senders with
  | nil => rfl
  | cons x rest => exact absurd (h.senders (by simp [hs])).2 (Nat.ne_of_lt hroom)

/-- Where there is something to be had nobody waits to receive. -/
theorem no_receivers (h : c.Sound waits) (hb : c.buffer ≠ []) : c.receivers = [] := by
  cases hr : c.receivers with
  | nil => rfl
  | cons w rest => exact absurd (h.receivers (by simp [hr])).2 hb

end Channel.Sound

/-! ## Claims -/

namespace Claim

variable {claims : List Claim} {t : TaskId} {epoch : Nat} {ch : ChannelId}

theorem mem_receivers {w : Waiter} : w ∈ receivers claims t epoch ch ↔
    ∃ k ∈ claims, k.channel = ch ∧ k.offer = none ∧ k.waiter t epoch = w := by
  simp only [receivers, List.mem_filterMap, Option.ite_none_right_eq_some, Option.some.injEq]
  exact exists_congr fun k => and_congr_right fun _ => and_assoc

theorem mem_senders {x : Waiter × Value} : x ∈ senders claims t epoch ch ↔
    ∃ k ∈ claims, k.channel = ch ∧ k.offer = some x.2 ∧ k.waiter t epoch = x.1 := by
  simp only [senders, List.mem_filterMap, Option.ite_none_right_eq_some, Option.map_eq_some_iff]
  refine exists_congr fun k => and_congr_right fun _ => and_congr_right fun _ => ?_
  constructor
  · rintro ⟨v, hv, rfl⟩
    exact ⟨hv, rfl⟩
  · rintro ⟨hv, hw⟩
    exact ⟨x.2, hv, by rw [hw]⟩

/-- Who lines up to receive does so where there is nothing to be had. -/
theorem idle_of_receiver {c : Channel} (hidle : ∀ k ∈ claims, k.channel = ch → k.Idle c)
    {w : Waiter} (hw : w ∈ receivers claims t epoch ch) : w.task = t ∧ w.epoch = epoch ∧
      c.closed = false ∧ c.buffer = [] ∧ c.senders = [] := by
  obtain ⟨k, hk, hch, ho, rfl⟩ := mem_receivers.mp hw
  have hi := hidle k hk hch
  rw [Idle, ho] at hi
  exact ⟨rfl, rfl, hi⟩

/-- Who lines up to send does so where nothing can be got rid of. -/
theorem idle_of_sender {c : Channel} (hidle : ∀ k ∈ claims, k.channel = ch → k.Idle c)
    {x : Waiter × Value} (hx : x ∈ senders claims t epoch ch) : x.1.task = t ∧ x.1.epoch = epoch ∧
      c.closed = false ∧ c.capacity ≤ c.buffer.length ∧ c.receivers = [] := by
  obtain ⟨k, hk, hch, ho, hw⟩ := mem_senders.mp hx
  have hi := hidle k hk hch
  rw [Idle, ho] at hi
  rw [← hw]
  exact ⟨rfl, rfl, hi⟩

end Claim

/-- Lining up where nothing can be had and nothing can be got rid of. -/
theorem Channel.Sound.line_up {waits waits' : TaskId → Option Wait} {c : Channel}
    (h : c.Sound waits) {claims : List Claim} {t : TaskId} {epoch : Nat} {ch : ChannelId}
    (hidle : ∀ k ∈ claims, k.channel = ch → k.Idle c)
    (hw : ∀ w ∈ c.waiters, waits' w.task = waits w.task)
    (ht : waits' t = some ⟨epoch, true, none⟩) :
    ({ c with
      receivers := c.receivers ++ Claim.receivers claims t epoch ch
      senders := c.senders ++ Claim.senders claims t epoch ch } : Channel).Sound waits' := by
  have hreceive : ∀ w ∈ Claim.receivers claims t epoch ch, w.task = t ∧ w.epoch = epoch ∧
      c.closed = false ∧ c.buffer = [] ∧ c.senders = [] :=
    fun _ => Claim.idle_of_receiver hidle
  have hsend : ∀ x ∈ Claim.senders claims t epoch ch, x.1.task = t ∧ x.1.epoch = epoch ∧
      c.closed = false ∧ c.capacity ≤ c.buffer.length ∧ c.receivers = [] :=
    fun _ => Claim.idle_of_sender hidle
  refine ⟨?_, h.room, ?_, ?_, ?_⟩
  · intro w hmem
    rcases List.mem_append.mp hmem with hmem | hmem
    · rcases List.mem_append.mp hmem with hmem | hmem
      · rw [hw w (List.mem_append_left _ hmem)]
        exact h.receiver_live hmem
      · obtain ⟨rfl, rfl, -⟩ := hreceive w hmem
        exact ht
    · obtain ⟨x, hx, rfl⟩ := List.mem_map.mp hmem
      rcases List.mem_append.mp hx with hx | hx
      · rw [hw x.1 (List.mem_append_right _ (List.mem_map_of_mem hx))]
        exact h.sender_live hx
      · obtain ⟨ht', he, -⟩ := hsend x hx
        rw [ht', he]
        exact ht
  · intro hne
    obtain ⟨w, hmem⟩ := List.exists_mem_of_ne_nil _ hne
    rcases List.mem_append.mp hmem with hmem | hmem
    · exact h.receivers (List.ne_nil_of_mem hmem)
    · exact ⟨(hreceive w hmem).2.2.1, (hreceive w hmem).2.2.2.1⟩
  · intro hne
    obtain ⟨x, hmem⟩ := List.exists_mem_of_ne_nil _ hne
    rcases List.mem_append.mp hmem with hmem | hmem
    · exact h.senders (List.ne_nil_of_mem hmem)
    · exact ⟨(hsend x hmem).2.2.1, Nat.le_antisymm h.room (hsend x hmem).2.2.2.1⟩
  -- Who was in line before keeps the other kind from lining up. Two who do are of one task.
  · intro w hw' x hx
    rcases List.mem_append.mp hw' with hw' | hw'
    · rcases List.mem_append.mp hx with hx | hx
      · exact h.apart w hw' x hx
      · rw [(hsend x hx).2.2.2.2] at hw'
        cases hw'
    · rcases List.mem_append.mp hx with hx | hx
      · rw [(hreceive w hw').2.2.2.2] at hx
        cases hx
      · rw [(hreceive w hw').1, (hsend x hx).1]

/-! ## Steps of the net -/

namespace Net

variable {n n' : Net}

theorem put_channel {ch : ChannelId} {c c' : Channel} {i : ChannelId}
    (h : (n.put ch c').channels[i]? = some c) :
    i = ch ∧ c = c' ∨ i ≠ ch ∧ n.channels[i]? = some c := by
  by_cases hi : ch = i
  · subst hi
    have hlt : ch < n.channels.size := by
      have := (Array.getElem?_eq_some_iff.mp h).1
      simpa [put] using this
    rw [put, Array.getElem?_setIfInBounds_self_of_lt hlt] at h
    exact .inl ⟨rfl, (Option.some.inj h).symm⟩
  · rw [put, Array.getElem?_setIfInBounds_ne hi] at h
    exact .inr ⟨Ne.symm hi, h⟩

namespace Sound

theorem put (h : n.Sound) {ch : ChannelId} {c : Channel} (hc : c.Sound n.waits) :
    (n.put ch c).Sound where
  channels i d hd := by
    rcases put_channel hd with ⟨-, rfl⟩ | ⟨-, hd⟩
    · exact hc
    · exact h.channels i d hd
  fresh := h.fresh

/-- Those whose waits change are not in line, or they leave it. -/
theorem prune (h : n.Sound) {keep : Waiter → Bool} {waits : TaskId → Option Wait}
    (hk : ∀ w, n.waits w.task = some ⟨w.epoch, true, none⟩ → keep w = true →
      waits w.task = n.waits w.task)
    (hf : ∀ id, n.nextId ≤ id → waits id = none) :
    ({ n.prune keep with waits } : Net).Sound where
  channels i d hd := by
    rw [Net.prune, Array.getElem?_map, Option.map_eq_some_iff] at hd
    obtain ⟨c, hc, rfl⟩ := hd
    have hsound := h.channels i c hc
    exact hsound.prune fun w hw hkeep => hk w (hsound.live w hw) hkeep
  fresh := hf

/-- A wait that is on comes to its end. -/
theorem wake (h : n.Sound) {w : Waiter} (hw : Wait.live n.waits w = true) (r : Resume) :
    (n.wake w r).Sound := by
  obtain ⟨x, hx, -, hnumber⟩ := Wait.live_iff.mp hw
  refine h.prune (fun w' hw' hkeep => ?_) fun id hid => ?_
  -- The task is in one wait only, so whoever is left in line is of another task.
  · refine if_neg fun ht => ?_
    rw [ht, hx] at hw'
    obtain rfl := Option.some.inj hw'
    simp [Waiter.alike, ht, ← hnumber] at hkeep
  · split
    · rename_i ht
      rw [← ht, h.fresh id hid] at hx
      cases hx
    · exact h.fresh id hid

/-- The wait of someone who is not parked changes. -/
theorem setWait (h : n.Sound) {t : TaskId} {x : Wait} (hx : n.waits t = some x)
    (hp : x.parked = false) (y : Wait) : (n.setWait t (some y)).Sound where
  channels i d hd := by
    refine (h.channels i d hd).congr fun w hw => ?_
    refine if_neg fun ht => ?_
    have hlive := (h.channels i d hd).live w hw
    rw [ht, hx] at hlive
    injection hlive with hlive
    rw [hlive] at hp
    cases hp
  fresh id hid := by
    refine (if_neg fun ht => ?_).trans (h.fresh id hid)
    rw [ht] at hid
    rw [h.fresh t hid] at hx
    cases hx

/-- Whoever is in line is in a wait that is on. -/
theorem receiver (h : n.Sound) {ch : ChannelId} {c : Channel} (hc : n.channels[ch]? = some c)
    {w : Waiter} (hw : w ∈ c.receivers) : Wait.live n.waits w = true :=
  Wait.live_iff.mpr ⟨_, (h.channels ch c hc).receiver_live hw, rfl, rfl⟩

theorem sender (h : n.Sound) {ch : ChannelId} {c : Channel} (hc : n.channels[ch]? = some c)
    {x : Waiter × Value} (hx : x ∈ c.senders) : Wait.live n.waits x.1 = true :=
  Wait.live_iff.mpr ⟨_, (h.channels ch c hc).sender_live hx, rfl, rfl⟩

end Sound

theorem Tells.sound {l : List (Waiter × Resume)} {acts : List Act} (ht : Tells n l acts n')
    (h : n.Sound) : n'.Sound := by
  induction ht with
  | nil => exact h
  | told hw _ ih => exact ih (h.wake hw _)
  | passed _ _ ih => exact ih h

/-- **Every step leaves the lines as they should be.** -/
theorem Step.sound {acts : List Act} (hs : Step n acts n') (h : n.Sound) : n'.Sound := by
  cases hs with
  | quiet | begin => exact h
  | @create fresh hf =>
    refine ⟨fun i d hd => ?_, h.fresh⟩
    rw [Array.getElem?_append] at hd
    split at hd
    · exact h.channels i d hd
    · obtain ⟨k, rfl⟩ := hf d (Array.mem_of_getElem? hd)
      exact Channel.Sound.ofCapacity _ k
  | reserve => exact ⟨h.channels, fun id hid => h.fresh id (Nat.le_of_succ_le hid)⟩
  | enlist =>
    refine ⟨fun i d hd => (h.channels i d hd).congr fun w hw => ?_, fun id hid => ?_⟩
    · refine if_neg fun ht => ?_
      have hlive := (h.channels i d hd).live w hw
      rw [ht, h.fresh _ (Nat.le_refl _)] at hlive
      cases hlive
    · exact (if_neg (Nat.ne_of_gt hid)).trans (h.fresh id (Nat.le_of_succ_le hid))
  | @hand ch c hc ho w rest hr v =>
    refine (h.put ((h.channels ch c hc).tail_receivers hr)).wake ?_ _
    exact h.receiver hc (w := w) (by simp [hr])
  | @store ch c hc ho hr hroom v =>
    refine h.put (Channel.Sound.of_empty hr ((h.channels ch c hc).no_senders hroom) ?_)
    rw [List.length_append]
    exact hroom
  | @take ch c hc v buffer hb hs =>
    have hsound := h.channels ch c hc
    refine h.put (Channel.Sound.of_empty (hsound.no_receivers (by simp [hb])) hs ?_)
    have hroom := hsound.room
    rw [hb] at hroom
    exact Nat.le_of_succ_le hroom
  | @refill ch c hc v u buffer hb w rest hs =>
    refine (h.put ((h.channels ch c hc).tail_senders hs ?_)).wake ?_ _
    · rw [List.length_append, hb]
      rfl
    · exact h.sender hc (x := (w, u)) (by simp [hs])
  | @fetch ch c hc hb w v rest hs =>
    refine (h.put ((h.channels ch c hc).tail_senders hs rfl)).wake ?_ _
    exact h.sender hc (x := (w, v)) (by simp [hs])
  | @close ch c hc ho acts n' ht c' hc' hr hs =>
    have htold := ht.sound h
    exact htold.put (Channel.Sound.of_empty hr hs (htold.channels ch c' hc').room)
  -- Looking in vain and lining up are one step, so nothing has come up in between.
  | @park t epoch hx op hidle =>
    have hon := h.setWait hx rfl ⟨epoch, true, none⟩
    refine ⟨fun i d hd => ?_, hon.fresh⟩
    rw [Net.park, Array.getElem?_mapIdx, Option.map_eq_some_iff] at hd
    obtain ⟨c, hc, rfl⟩ := hd
    refine (h.channels i c hc).line_up (fun k hk hch => ?_) (fun w hw => ?_) (if_pos rfl)
    · obtain ⟨c', hc', hi⟩ := hidle k hk
      rw [hch, hc] at hc'
      exact Option.some.inj hc' ▸ hi
    · rw [(h.channels i c hc).live w hw]
      exact (hon.channels i c hc).live w hw
  | @resume t epoch r hx => exact h.setWait hx rfl _
  | leave ids =>
    refine h.prune (fun w hw hkeep => if_neg fun hmem => ?_) fun id hid => ?_
    · simp [hmem] at hkeep
    · split
      · rfl
      · exact h.fresh id hid

theorem Run.sound {acts : List Act} (hr : Run n acts n') (h : n.Sound) : n'.Sound := by
  induction hr with
  | refl => exact h
  | tail _ hs ih => exact hs.sound ih

/-! ## Closed channels -/

/-- A channel is closed. -/
def Shut (n : Net) (ch : ChannelId) : Prop := ∃ c, n.channels[ch]? = some c ∧ c.closed = true

namespace Shut

variable {ch : ChannelId}

theorem put (h : n.Shut ch) {i : ChannelId} {c c' : Channel} (hc : n.channels[i]? = some c)
    (hk : c'.closed = c.closed) : (n.put i c').Shut ch := by
  obtain ⟨d, hd, hclosed⟩ := h
  by_cases hi : i = ch
  · subst hi
    obtain rfl := Option.some.inj (hc.symm.trans hd)
    refine ⟨c', ?_, hk.trans hclosed⟩
    rw [Net.put, Array.getElem?_setIfInBounds_self_of_lt (Array.getElem?_eq_some_iff.mp hc).1]
  · exact ⟨d, by rwa [Net.put, Array.getElem?_setIfInBounds_ne hi], hclosed⟩

theorem prune (h : n.Shut ch) {keep : Waiter → Bool} {waits : TaskId → Option Wait} :
    ({ n.prune keep with waits } : Net).Shut ch := by
  obtain ⟨c, hc, hclosed⟩ := h
  exact ⟨c.prune keep, by rw [Net.prune, Array.getElem?_map, hc]; rfl, hclosed⟩

theorem wake (h : n.Shut ch) (w : Waiter) (r : Resume) : (n.wake w r).Shut ch := h.prune

theorem tells {l : List (Waiter × Resume)} {acts : List Act} (ht : Tells n l acts n')
    (h : n.Shut ch) : n'.Shut ch := by
  induction ht with
  | nil => exact h
  | told _ _ ih => exact ih (h.wake _ _)
  | passed _ _ ih => exact ih h

end Shut

/-- **Closed channels stay closed**, and a channel whose closing is on record is closed. -/
theorem Step.shut {acts : List Act} (hs : Step n acts n') {ch : ChannelId}
    (h : n.Shut ch ∨ .closed ch ∈ acts) : n'.Shut ch := by
  cases hs with
  | @quiet a ha =>
    rcases h with h | h
    · exact h
    · rw [← List.mem_singleton.mp h] at ha
      cases ha
  | create hf =>
    obtain ⟨c, hc, hclosed⟩ := h.resolve_right List.not_mem_nil
    refine ⟨c, ?_, hclosed⟩
    rw [Array.getElem?_append_left (Array.getElem?_eq_some_iff.mp hc).1]
    exact hc
  | reserve | enlist => exact h.resolve_right List.not_mem_nil
  | begin | resume => exact h.resolve_right (by simp)
  | hand hc | refill hc | fetch hc =>
    have hn : n.Shut ch := h.resolve_right (by simp)
    exact Shut.wake (hn.put hc (by rfl)) _ _
  | store hc | take hc => exact (h.resolve_right (by simp)).put hc rfl
  | @close i c hc ho acts n₁ ht c' hc' hr hs =>
    have hlt := (Array.getElem?_eq_some_iff.mp hc').1
    by_cases hi : i = ch
    · subst hi
      exact ⟨_, by rw [put, Array.getElem?_setIfInBounds_self_of_lt hlt], rfl⟩
    · have h₁ : n.Shut ch := h.resolve_right fun hmem => by
        rcases List.mem_append.mp hmem with hmem | hmem
        · obtain ⟨w, r, he⟩ := ht.woken _ hmem
          cases he
        · injection List.mem_singleton.mp hmem with he
          exact hi he.symm
      obtain ⟨d, hd, hclosed⟩ := h₁.tells ht
      exact ⟨d, by rwa [put, Array.getElem?_setIfInBounds_ne hi], hclosed⟩
  | @park t epoch hx op hidle =>
    have hn : n.Shut ch := h.resolve_right (by simp [Claim.act])
    obtain ⟨c, hc, hclosed⟩ := hn
    refine ⟨{ c with
      receivers := c.receivers ++ Claim.receivers op.claims t epoch ch
      senders := c.senders ++ Claim.senders op.claims t epoch ch }, ?_, hclosed⟩
    rw [Net.park, Array.getElem?_mapIdx, hc]
    rfl
  | leave => exact (h.resolve_right (by simp)).prune

theorem Run.shut {acts : List Act} (hr : Run n acts n') {ch : ChannelId}
    (h : n.Shut ch ∨ .closed ch ∈ acts) : n'.Shut ch := by
  induction hr with
  | refl => exact h.resolve_right List.not_mem_nil
  | tail _ hs ih =>
    rcases h with h | h
    · exact hs.shut (.inl (ih (.inl h)))
    · rcases List.mem_append.mp h with h | h
      · exact hs.shut (.inl (ih (.inr h)))
      · exact hs.shut (.inr h)

end Net

end TaskVm
