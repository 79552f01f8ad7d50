import TaskVm.Proofs.Lineup

/-!
# Who lines up and who is woken

Most of what a turn does adds nobody to a line. It may take some out of the line of a channel,
and those it wakes have stood there. When the task lines up itself it does so as the last thing
it does, for the operation it has just begun, and only at the channels of that operation.

Which waiters count is not asked here. What is said of lines is said of all who stand in them,
those whose wait is long over included.
-/

namespace TaskVm

open Exec Relation

namespace Act

/-- The channel that something has happened to. -/
def channel? : Act → Option ChannelId
  | sent c _ _ | refused c _ | received c _ _ | drained c | parked c _ _ | closed c => some c
  | _ => none

/-- A value has gone through a channel, or could not, or the channel has been closed. -/
def isExchange : Act → Bool
  | sent _ _ _ | refused _ _ | received _ _ _ | drained _ | closed _ => true
  | _ => false

/-- Somebody gets into a line. -/
def isPark : Act → Bool
  | parked _ _ _ => true
  | _ => false

theorem isPark_of_isExchange {a : Act} (h : a.isExchange = true) : a.isPark = false := by
  cases a <;> first | rfl | cases h

theorem isPark_of_isPrivate {a : Act} (h : a.isPrivate = true) : a.isPark = false := by
  cases a <;> first | rfl | cases h

end Act

/-! ## Lines on the heap -/

theorem Heap.channel_setChannel (h : Heap) (id i : ChannelId) (c : Channel) :
    (h.setChannel id c).channel i = if id = i ∧ id < h.channels.size then c else h.channel i := by
  simp only [Heap.channel, Heap.setChannel, Array.getD_eq_getD_getElem?,
    Array.getElem?_setIfInBounds]
  grind

/-- When a channel is replaced nobody new stands at any other. -/
theorem Heap.mem_setChannel {h : Heap} {id i : ChannelId} {c : Channel} {w : Waiter}
    (hw : w ∈ ((h.setChannel id c).channel i).waiters) :
    i = id ∧ w ∈ c.waiters ∨ w ∈ (h.channel i).waiters := by
  rw [Heap.channel_setChannel] at hw
  split at hw
  · rename_i hi
    exact .inl ⟨hi.1.symm, hw⟩
  · exact .inr hw

/-- Nobody stands at a new channel. -/
theorem Heap.mem_append_channels {h h' : Heap} {fresh : Array Channel}
    (hf : h'.channels = h.channels ++ fresh) (hnew : ∀ c ∈ fresh, ∃ n, c = Channel.ofCapacity n)
    {i : ChannelId} {w : Waiter} (hw : w ∈ (h'.channel i).waiters) :
    w ∈ (h.channel i).waiters := by
  rw [Heap.channel, hf, Array.getD_eq_getD_getElem?, Array.getElem?_append] at hw
  split at hw
  · rwa [Heap.channel, Array.getD_eq_getD_getElem?]
  · cases hc : fresh[i - h.channels.size]? with
    | none =>
      rw [hc] at hw
      cases hw
    | some c =>
      obtain ⟨n, rfl⟩ := hnew c (Array.mem_of_getElem? hc)
      rw [hc] at hw
      cases hw

/-! ## Turns in which nobody lines up -/

namespace Turn

variable {s s' s'' : Turn}

/-- What a turn does as long as its task does not line up. -/
structure Trading (s s' : Turn) : Prop where
  tended : s'.crew.Tended
  id : s'.task.id = s.task.id
  epoch : s'.task.waitEpoch = s.task.waitEpoch
  /-- Nobody comes back to life. -/
  live : ∀ w, s'.crew.live w = true → s.crew.live w = true
  lines : ∀ i, ∀ w ∈ (s'.heap.channel i).waiters, w ∈ (s.heap.channel i).waiters
  acts : ∃ acts, s'.acts = s.acts ++ acts ∧ (∀ a ∈ acts, a.isPark = false) ∧
    (∀ t op, .began t op ∈ acts → t = s.task.id) ∧
    ∀ w r, .woken w r ∈ acts → s.crew.live w = true ∧
      ∃ i, w ∈ (s.heap.channel i).waiters ∧ ∃ a ∈ acts, a.channel? = some i

/-- Given that everyone is where they belong. -/
def Trades (s s' : Turn) : Prop := s.crew.Tended → s.Trading s'

theorem Trading.refl (h : s.crew.Tended) : s.Trading s where
  tended := h
  id := rfl
  epoch := rfl
  live _ hw := hw
  lines _ _ hw := hw
  acts := ⟨[], by simp⟩

theorem Trading.trans (h : s.Trading s') (h' : s'.Trading s'') : s.Trading s'' where
  tended := h'.tended
  id := h'.id.trans h.id
  epoch := h'.epoch.trans h.epoch
  live w hw := h.live w (h'.live w hw)
  lines i w hw := h.lines i w (h'.lines i w hw)
  acts := by
    obtain ⟨acts, ha, hpark, hbegan, hwoken⟩ := h.acts
    obtain ⟨acts', ha', hpark', hbegan', hwoken'⟩ := h'.acts
    refine ⟨acts ++ acts', by rw [ha', ha, List.append_assoc], ?_, ?_, ?_⟩
    · intro a hmem
      rcases List.mem_append.mp hmem with hmem | hmem
      · exact hpark a hmem
      · exact hpark' a hmem
    · intro t op hmem
      rcases List.mem_append.mp hmem with hmem | hmem
      · exact hbegan t op hmem
      · exact (hbegan' t op hmem).trans h.id
    · intro w r hmem
      rcases List.mem_append.mp hmem with hmem | hmem
      · obtain ⟨hlive, i, hi, a, ha, hc⟩ := hwoken w r hmem
        exact ⟨hlive, i, hi, a, List.mem_append_left _ ha, hc⟩
      · obtain ⟨hlive, i, hi, a, ha, hc⟩ := hwoken' w r hmem
        exact ⟨h.live w hlive, i, h.lines i w hi, a, List.mem_append_right _ ha, hc⟩

instance : IsPreorder Turn Trades where
  refl _ := Trading.refl
  trans _ _ _ hab hbc := fun h => (hab h).trans (hbc (hab h).tended)

/-- The crew is as it was, and what goes on record wakes nobody. -/
theorem Trading.quiet (h : s.crew.Tended) (hc : s'.crew = s.crew)
    (hl : ∀ i, ∀ w ∈ (s'.heap.channel i).waiters, w ∈ (s.heap.channel i).waiters)
    (acts : List Act) (ha : s'.acts = s.acts ++ acts) (hp : ∀ a ∈ acts, a.isPark = false)
    (hb : ∀ t op, .began t op ∈ acts → t = s.task.id) (hw : ∀ w r, .woken w r ∉ acts) :
    s.Trading s' := by
  have hbadge : s'.task.badge = s.task.badge :=
    Option.some.inj (congrArg Crew.running hc : s'.crew.running = s.crew.running)
  constructor
  case tended => exact hc ▸ h
  case id => exact congrArg Badge.id hbadge
  case epoch => exact congrArg Badge.epoch hbadge
  case live =>
    intro w hlive
    rwa [hc] at hlive
  case lines => exact hl
  case acts => exact ⟨acts, ha, hp, hb, fun w r hmem => absurd hmem (hw w r)⟩

end Turn

namespace Crew

/-- Who is live has been so, but for a task that is parked. -/
theorem Step.live {c c' : Crew} {acts : List Act} (h : Step c acts c') (hc : c.Tended) {w : Waiter}
    (hw : c'.live w = true) : c.live w = true := by
  obtain ⟨b, hb, hst, he⟩ := held_of_live hw
  have hlive : ∀ b, c.held w.task = some b → c.status b.handle = .blocked → b.epoch = w.epoch →
      c.live w = true := by
    intro b hb hst he
    simp [Crew.live, hb, hst, he]
  have hlisted := hc.listed
  have hknown := hc.known
  have hapart := hc.apart
  have hkeyed := hc.keyed
  cases h with
  | reserve => exact hlive b hb hst he
  | resume hr => exact hlive b hb hst he
  | enlist =>
    simp only [Crew.enlist, Crew.reserve, Crew.keep, Crew.mark] at hb hst
    grind
  | @wake w' hw' r =>
    obtain ⟨b', hb', hst', he'⟩ := held_of_live hw'
    simp only [Crew.wake, hb', hw', if_true, Crew.keep, Crew.mark] at hb hst
    grind

end Crew

theorem ChangeIn.trades {s s' : Turn} (h : Change s s') : s.Trades s' := by
  intro hs
  obtain ⟨⟨fresh, hfresh, hnew⟩, acts, ha, hp⟩ := h.channels
  have hcrew := ChangeIn.crew hs.keyed h
  have hrunning : s'.crew.running = s.crew.running := by
    rcases hcrew with hc | hc | hc <;> rw [hc] <;> rfl
  have hbadge : s'.task.badge = s.task.badge := Option.some.inj hrunning
  have hstep : s'.crew = s.crew ∨ Crew.Step s.crew [] s'.crew := by
    rcases hcrew with hc | hc | hc
    · exact .inl hc
    · exact .inr (hc ▸ .reserve)
    · exact .inr (hc ▸ .enlist)
  have hprivate : ∀ a ∈ acts, ∀ (t : TaskId) (op : Operation) (w : Waiter) (r : Resume),
      a ≠ .began t op ∧ a ≠ .woken w r := by
    intro a hmem t op w r
    have hpriv := hp a hmem
    constructor
    · rintro rfl
      cases hpriv
    · rintro rfl
      cases hpriv
  constructor
  case tended =>
    rcases hstep with hc | hstep
    · exact hc ▸ hs
    · exact hstep.tended hs
  case id => exact congrArg Badge.id hbadge
  case epoch => exact congrArg Badge.epoch hbadge
  case live =>
    intro w hw
    rcases hstep with hc | hstep
    · rwa [hc] at hw
    · exact hstep.live hs hw
  case lines => exact fun i w hw => Heap.mem_append_channels hfresh hnew hw
  case acts =>
    refine ⟨acts, ha, fun a hmem => Act.isPark_of_isPrivate (hp a hmem), ?_, ?_⟩
    · exact fun t op hmem => absurd rfl (hprivate _ hmem t op ⟨0, 0, none⟩ (.value .nil)).1
    · exact fun w r hmem => absurd rfl (hprivate _ hmem 0 (.receive 0) w r).2

theorem trades_of_changes {s s' : Turn} (h : Changes s s') : s.Trades s' := by
  induction h with
  | refl => exact refl_of Turn.Trades s
  | tail _ hc ih => exact trans_of Turn.Trades ih hc.trades

theorem Leads.trades {α : Type} {x : Exec α} {s : Turn} (h : Leads Changes x s) :
    Leads Turn.Trades x s := trades_of_changes h

namespace Exec

variable {s : Turn}

/-! ## Wakings -/

/-- A task is woken while an operation on a channel goes on at which its waiter has stood. -/
structure Rouses (ws : List Waiter) (s s' : Turn) : Prop where
  tended : s'.crew.Tended
  task : s'.task = s.task
  live : ∀ w, s'.crew.live w = true → s.crew.live w = true
  channels : s'.heap.channels = s.heap.channels
  acts : ∃ acts, s'.acts = s.acts ++ acts ∧
    ∀ a ∈ acts, ∃ w r, a = .woken w r ∧ w ∈ ws ∧ s.crew.live w = true

theorem Rouses.trans {ws ws' : List Waiter} {s s' s'' : Turn} (h : Rouses ws s s')
    (h' : Rouses ws' s' s'') : Rouses (ws ++ ws') s s'' where
  tended := h'.tended
  task := h'.task.trans h.task
  live w hw := h.live w (h'.live w hw)
  channels := h'.channels.trans h.channels
  acts := by
    obtain ⟨acts, ha, hw⟩ := h.acts
    obtain ⟨acts', ha', hw'⟩ := h'.acts
    refine ⟨acts ++ acts', by rw [ha', ha, List.append_assoc], fun a hmem => ?_⟩
    rcases List.mem_append.mp hmem with hmem | hmem
    · obtain ⟨w, r, rfl, hin, hlive⟩ := hw a hmem
      exact ⟨w, r, rfl, List.mem_append_left _ hin, hlive⟩
    · obtain ⟨w, r, rfl, hin, hlive⟩ := hw' a hmem
      exact ⟨w, r, rfl, List.mem_append_right _ hin, h.live w hlive⟩

theorem rouses_wake (hs : s.crew.Tended) (w : Waiter) (r : Resume) :
    Rouses [w] s (endState (wake w r) s) := by
  have hcrew := Turn.wake_crew s w r
  have htask : (endState (wake w r) s).task = s.task := by
    rw [endState_ok (wake_apply s w r)]
  cases hw : s.crew.live w with
  | false =>
    rw [Crew.wake_dead hw] at hcrew
    refine ⟨hcrew ▸ hs, htask, fun w hlive => hcrew ▸ hlive, Turn.wake_channels s w r, [], ?_, ?_⟩
    · rw [Turn.wake_acts, if_neg (by simp [hw]), List.append_nil]
    · simp
  | true =>
    have hstep : Crew.Step s.crew [.woken w r] (endState (wake w r) s).crew :=
      hcrew ▸ .wake hw r
    refine ⟨hstep.tended hs, htask, fun w hlive => hstep.live hs hlive,
      Turn.wake_channels s w r, [.woken w r], ?_, ?_⟩
    · rw [Turn.wake_acts, if_pos hw]
    · intro a ha
      rw [List.mem_singleton.mp ha]
      exact ⟨w, r, rfl, List.mem_singleton_self w, hw⟩

theorem rouses_wakeAll (f : Waiter → Resume) : ∀ (ws : List Waiter) (s : Turn), s.crew.Tended →
    ∃ s', ws.forM (fun w => wake w (f w)) s = .ok ⟨⟩ s' ∧ Rouses ws s s'
  | [], s, hs => ⟨s, rfl, hs, rfl, fun _ hw => hw, rfl, [], by simp⟩
  | w :: ws, s, hs => by
    have h₁ := rouses_wake hs w (f w)
    obtain ⟨s', h', hr⟩ := rouses_wakeAll f ws (endState (wake w (f w)) s) h₁.tended
    exact ⟨s', h', h₁.trans hr⟩

/-- Some are taken out of the line of a channel, and woken; others only leave. -/
theorem trading_rouses {id : ChannelId} {c : Channel} {s₁ s' : Turn} (before after : List Act)
    {ws : List Waiter} (hc : ∀ w ∈ c.waiters, w ∈ (s.heap.channel id).waiters)
    (hs₁ : s₁ = { s with heap := s.heap.setChannel id c, acts := s.acts ++ before })
    (hr : Rouses ws s₁ s') (hws : ∀ w ∈ ws, w ∈ (s.heap.channel id).waiters)
    (hlink : ∃ a ∈ before ++ after, a.channel? = some id)
    (hquiet : ∀ a ∈ before ++ after, a.isExchange = true) :
    s.Trading { s' with acts := s'.acts ++ after } := by
  have hcrew : s₁.crew = s.crew := by
    rw [hs₁]
    exact Turn.crew_eq rfl rfl rfl rfl rfl
  have htask : s₁.task = s.task := by rw [hs₁]
  obtain ⟨acts, ha, hwoken⟩ := hr.acts
  -- What is roused has been taken from this channel's line, and the line only gets shorter.
  constructor
  case tended => exact hr.tended
  case id => exact (congrArg Task.id hr.task).trans (congrArg Task.id htask)
  case epoch => exact (congrArg Task.waitEpoch hr.task).trans (congrArg Task.waitEpoch htask)
  case live =>
    intro w hw
    rw [← hcrew]
    exact hr.live w hw
  case lines =>
    intro i w hw
    have hset : w ∈ ((s.heap.setChannel id c).channel i).waiters := by
      rw [Heap.channel, ← show s'.heap.channels = (s.heap.setChannel id c).channels by
        rw [hr.channels, hs₁]]
      exact hw
    rcases Heap.mem_setChannel hset with ⟨rfl, hw⟩ | hw
    · exact hc w hw
    · exact hw
  case acts =>
    have hacts : s'.acts ++ after = s.acts ++ (before ++ acts ++ after) := by
      rw [ha, hs₁]
      simp
    have hcases : ∀ a ∈ before ++ acts ++ after, a ∈ before ++ after ∨ a ∈ acts := by
      intro a hmem
      simp only [List.mem_append] at hmem ⊢
      tauto
    refine ⟨_, hacts, fun a hmem => ?_, fun t op hmem => ?_, fun w r hmem => ?_⟩
    · rcases hcases a hmem with hmem | hmem
      · exact Act.isPark_of_isExchange (hquiet a hmem)
      · obtain ⟨w, r, rfl, -⟩ := hwoken a hmem
        rfl
    · rcases hcases _ hmem with hmem | hmem
      · cases hquiet _ hmem
      · obtain ⟨w, r, h, -⟩ := hwoken _ hmem
        cases h
    · rcases hcases _ hmem with hmem | hmem
      · cases hquiet _ hmem
      · obtain ⟨w', r', h, hin, hlive⟩ := hwoken _ hmem
        cases h
        obtain ⟨a, hin', ha'⟩ := hlink
        refine ⟨hcrew ▸ hlive, id, hws w hin, a, ?_, ha'⟩
        simp only [List.mem_append] at hin' ⊢
        tauto

/-! ## Operations on channels -/

theorem trades_begin (op : Operation) (s : Turn) : Leads Turn.Trades (begin op) s := by
  intro hs
  refine .quiet hs rfl (fun i w hw => hw) [.began s.task.id op] rfl ?_ ?_ ?_
  · simp [Act.isPark]
  · intro t op' hmem
    cases List.mem_singleton.mp hmem
    rfl
  · simp

/-- Without anyone being woken. -/
theorem trading_shrink {id : ChannelId} {c : Channel} (hs : s.crew.Tended)
    (hc : ∀ w ∈ c.waiters, w ∈ (s.heap.channel id).waiters) (acts : List Act)
    (hquiet : ∀ a ∈ acts, a.isExchange = true) :
    s.Trading { s with heap := s.heap.setChannel id c, acts := s.acts ++ acts } := by
  refine .quiet hs (Turn.crew_eq rfl rfl rfl rfl rfl) ?_ acts rfl ?_ ?_ ?_
  · intro i w hw
    have hset : w ∈ ((s.heap.setChannel id c).channel i).waiters := hw
    rcases Heap.mem_setChannel hset with ⟨rfl, hin⟩ | hin
    · exact hc w hin
    · exact hin
  · exact fun a ha => Act.isPark_of_isExchange (hquiet a ha)
  · intro t op ha
    cases hquiet _ ha
  · intro w r ha
    cases hquiet _ ha

/-- With one who has stood in the line being woken. -/
theorem trading_pass {id : ChannelId} {c : Channel} (hs : s.crew.Tended)
    (hc : ∀ w ∈ c.waiters, w ∈ (s.heap.channel id).waiters) {w : Waiter}
    (hw : w ∈ (s.heap.channel id).waiters) (r : Resume) (a : Act) (ha : a.channel? = some id)
    (hquiet : a.isExchange = true) :
    s.Trading (endState (wake w r) { s with
      heap := s.heap.setChannel id c, acts := s.acts ++ [a] }) := by
  have hcrew : Turn.crew { s with heap := s.heap.setChannel id c, acts := s.acts ++ [a] } =
      s.crew := Turn.crew_eq rfl rfl rfl rfl rfl
  have hrouses := rouses_wake (s := { s with
    heap := s.heap.setChannel id c, acts := s.acts ++ [a] }) (hcrew ▸ hs) w r
  have htrading := trading_rouses [a] [] hc rfl hrouses (by simpa using hw)
    ⟨a, by simp, ha⟩ (by simpa using hquiet)
  rwa [List.append_nil] at htrading

theorem receivers_sub {c : Channel} {rest : List Waiter} (h : ∀ w ∈ rest, w ∈ c.receivers) :
    ∀ w ∈ ({ c with receivers := rest } : Channel).waiters, w ∈ c.waiters := by
  intro w hw
  rcases List.mem_append.mp hw with hw | hw
  · exact List.mem_append_left _ (h w hw)
  · exact List.mem_append_right _ hw

theorem senders_sub {c : Channel} {buffer : List Value} {rest : List (Waiter × Value)}
    (h : ∀ x ∈ rest, x ∈ c.senders) :
    ∀ w ∈ ({ c with buffer, senders := rest } : Channel).waiters, w ∈ c.waiters :=
  Channel.waiters_of_senders rfl h

theorem mem_of_filter {α : Type} {p : α → Bool} {l rest : List α} {a : α}
    (h : l.filter p = a :: rest) : a ∈ l :=
  (List.mem_filter.mp (h ▸ List.mem_cons_self)).1

theorem trades_trySend (id : ChannelId) (v : Value) (s : Turn) :
    Leads Turn.Trades (trySend id v) s := by
  intro hs
  rcases Channel.trySend_cases (liveness s) (s.heap.channel id) v with
    ⟨-, h⟩ | ⟨-, w, rest, -, hf, hsub, h⟩ | ⟨-, -, -, h⟩ | ⟨-, -, -, h⟩
  · rw [endState_ok (trySend_closed h)]
    exact trading_shrink hs (fun w hw => hw) [.refused id v] (by simp [Act.isExchange])
  · rw [endState_ok (trySend_handed h)]
    exact trading_pass hs (receivers_sub hsub) (List.mem_append_left _ (mem_of_filter hf)) _
      (.sent id v (some w)) rfl rfl
  · rw [endState_ok (trySend_stored h)]
    refine trading_shrink hs (fun w hw => ?_) [.sent id v none] (by simp [Act.isExchange])
    exact List.mem_append_right _ hw
  · rw [endState_ok (trySend_blocked h)]
    have hshrink := trading_shrink hs
      (Channel.waiters_no_receivers (c := s.heap.channel id)) [] (by simp)
    rwa [List.append_nil] at hshrink

theorem trades_tryReceive (id : ChannelId) (s : Turn) : Leads Turn.Trades (tryReceive id) s := by
  intro hs
  have hsender : ∀ {w : Waiter} {u : Value} {rest : List (Waiter × Value)},
      (s.heap.channel id).senders.filter (fun x => liveness s x.1) = (w, u) :: rest →
      w ∈ (s.heap.channel id).waiters := fun hf =>
    List.mem_append_right _ (List.mem_map_of_mem (f := (·.1)) (mem_of_filter hf))
  rcases Channel.tryReceive_cases (liveness s) (s.heap.channel id) with
    ⟨v, buffer, -, -, h⟩ | ⟨v, buffer, w, u, rest, -, -, hf, hsub, h⟩ |
    ⟨w, v, rest, -, -, hf, hsub, h⟩ | ⟨-, -, -, h⟩ | ⟨-, -, -, h⟩
  · rw [endState_ok (tryReceive_taken h)]
    exact trading_shrink hs (senders_sub (by simp)) [.received id v none]
      (by simp [Act.isExchange])
  · rw [endState_ok (tryReceive_handed h)]
    exact trading_pass hs (senders_sub hsub) (hsender hf) _ (.received id v (some w)) rfl rfl
  · rw [endState_ok (tryReceive_handed h)]
    exact trading_pass hs (senders_sub hsub) (hsender hf) _ (.received id v (some w)) rfl rfl
  · rw [endState_ok (tryReceive_closed h)]
    exact trading_shrink hs (senders_sub (by simp)) [.drained id] (by simp [Act.isExchange])
  · rw [endState_ok (tryReceive_blocked h)]
    have hshrink := trading_shrink hs
      (Channel.waiters_no_senders (c := s.heap.channel id)) [] (by simp)
    rwa [List.append_nil] at hshrink

theorem trades_channelClose (id : ChannelId) (s : Turn) :
    Leads Turn.Trades (channelClose id) s := by
  intro hs
  cases hclosed : (s.heap.channel id).closed with
  | true =>
    have he : channelClose id s = .error (.raised .channelClosed) s := by
      rw [channelClose, get_bind_apply, Channel.close?_eq_none.mpr hclosed]
      rfl
    rw [endState_error he]
    exact .refl hs
  | false =>
    let c : Channel := { s.heap.channel id with closed := true, receivers := [], senders := [] }
    let s₁ : Turn := { s with heap := s.heap.setChannel id c, acts := s.acts ++ [] }
    have hcrew : s₁.crew = s.crew := Turn.crew_eq rfl rfl rfl rfl rfl
    obtain ⟨s₂, h₂, hr₂⟩ := rouses_wakeAll (Scheduler.resumeOf · .nil)
      (s.heap.channel id).receivers s₁ (hcrew ▸ hs)
    obtain ⟨s₃, h₃, hr₃⟩ := rouses_wakeAll (fun _ => .error .channelClosed)
      ((s.heap.channel id).senders.map (·.1)) s₂ hr₂.tended
    have hclose : (s.heap.channel id).close? = some ((s.heap.channel id).receivers,
        (s.heap.channel id).senders.map (·.1), c) := by
      rw [Channel.close?, if_neg (by simp [hclosed])]
    have hok : channelClose id s = .ok ⟨⟩ { s₃ with acts := s₃.acts ++ [.closed id] } := by
      rw [channelClose, get_bind_apply, hclose]
      dsimp only
      have hset : setChannel id c s = .ok ⟨⟩ s₁ := by
        simp only [s₁, List.append_nil]
        rfl
      rw [bind_ok hset]
      exact (bind_ok h₂).trans ((bind_ok h₃).trans rfl)
    rw [endState_ok hok]
    refine trading_rouses [] [.closed id] ?_ rfl (hr₂.trans hr₃) (fun w hw => hw)
      ⟨.closed id, ?_, rfl⟩ ?_
    · intro w hw
      cases hw
    · simp
    · simp [Act.isExchange]

theorem trySend_wouldBlock {id : ChannelId} {v u : Value} {s' : Turn}
    (h : trySend id v s = .ok (.wouldBlock u) s') : u = v ∧
      ∃ c, (∀ w ∈ c.waiters, w ∈ (s.heap.channel id).waiters) ∧
        s' = { s with heap := s.heap.setChannel id c } := by
  rcases Channel.trySend_cases (liveness s) (s.heap.channel id) v with
    ⟨-, h'⟩ | ⟨-, w, rest, -, -, -, h'⟩ | ⟨-, -, -, h'⟩ | ⟨-, -, -, h'⟩
  · cases (trySend_closed h').symm.trans h
  · cases (trySend_handed h').symm.trans h
  · cases (trySend_stored h').symm.trans h
  · cases (trySend_blocked h').symm.trans h
    exact ⟨rfl, _, Channel.waiters_no_receivers, rfl⟩

theorem tryReceive_wouldBlock {id : ChannelId} {s' : Turn}
    (h : tryReceive id s = .ok .wouldBlock s') :
    ∃ c, (∀ w ∈ c.waiters, w ∈ (s.heap.channel id).waiters) ∧
      s' = { s with heap := s.heap.setChannel id c } := by
  rcases Channel.tryReceive_cases (liveness s) (s.heap.channel id) with
    ⟨v, buffer, -, -, h'⟩ | ⟨v, buffer, w, u, rest, -, -, -, -, h'⟩ |
    ⟨w, v, rest, -, -, -, -, h'⟩ | ⟨-, -, -, h'⟩ | ⟨-, -, -, h'⟩
  · cases (tryReceive_taken h').symm.trans h
  · cases (tryReceive_handed h').symm.trans h
  · cases (tryReceive_handed h').symm.trans h
  · cases (tryReceive_closed h').symm.trans h
  · cases (tryReceive_blocked h').symm.trans h
    exact ⟨_, Channel.waiters_no_senders, rfl⟩

end Exec

/-! ## Turns in which the task lines up -/

namespace Turn

variable {s s' s'' : Turn}

/-- The running task gets into the lines it has claims on. -/
structure Joins (claims : List Claim) (s s' : Turn) : Prop where
  crew : s'.crew = s.crew
  task : s'.task = s.task
  acts : s'.acts = s.acts ++ claims.map (Claim.act s.task.id s.task.waitEpoch)
  lines : ∀ i, ∀ w ∈ (s'.heap.channel i).waiters, w ∈ (s.heap.channel i).waiters ∨
    ∃ k ∈ claims, k.channel = i ∧ k.waiter s.task.id s.task.waitEpoch = w

theorem Joins.trans {claims claims' : List Claim} (h : s.Joins claims s')
    (h' : s'.Joins claims' s'') : s.Joins (claims ++ claims') s'' where
  crew := h'.crew.trans h.crew
  task := h'.task.trans h.task
  acts := by rw [h'.acts, h.acts, h.task, List.map_append, List.append_assoc]
  lines i w hw := by
    rcases h'.lines i w hw with hw | ⟨k, hk, hi, hkw⟩
    · rcases h.lines i w hw with hw | ⟨k, hk, hi, hkw⟩
      · exact .inl hw
      · exact .inr ⟨k, List.mem_append_left _ hk, hi, hkw⟩
    · rw [h.task] at hkw
      exact .inr ⟨k, List.mem_append_right _ hk, hi, hkw⟩

/-- The running task begins an operation, and all it does about it is to line up. -/
structure LinesUp (op : Operation) (s s' : Turn) : Prop where
  crew : s'.crew = s.crew
  task : s'.task = s.task
  acts : s'.acts = s.acts ++
    .began s.task.id op :: op.claims.map (Claim.act s.task.id s.task.waitEpoch)
  lines : ∀ i, ∀ w ∈ (s'.heap.channel i).waiters, w ∈ (s.heap.channel i).waiters ∨
    ∃ k ∈ op.claims, k.channel = i ∧ k.waiter s.task.id s.task.waitEpoch = w

/-- It may have looked in vain before, at the channel it lines up at. -/
theorem Joins.linesUp {op : Operation} {id : ChannelId} {c : Channel}
    (hc : ∀ w ∈ c.waiters, w ∈ (s.heap.channel id).waiters)
    (h : Turn.Joins op.claims { s with
      heap := s.heap.setChannel id c, acts := s.acts ++ [.began s.task.id op] } s') :
    s.LinesUp op s' where
  crew := h.crew.trans (Turn.crew_eq rfl rfl rfl rfl rfl)
  task := h.task
  acts := by
    rw [h.acts]
    exact (List.append_cons _ _ _).symm
  lines i w hw := by
    rcases h.lines i w hw with hw | hk
    · have hset : w ∈ ((s.heap.setChannel id c).channel i).waiters := hw
      rcases Heap.mem_setChannel hset with ⟨rfl, hin⟩ | hin
      · exact .inl (hc w hin)
      · exact .inl hin
    · exact .inr hk

end Turn

namespace Exec

variable {s : Turn}

theorem mem_parkReceiver {live : Waiter → Bool} {c : Channel} {w w' : Waiter}
    (h : w' ∈ (c.parkReceiver live w).waiters) : w' ∈ c.waiters ∨ w = w' := by
  simp only [Channel.parkReceiver, Channel.waiters, List.mem_append, List.mem_filter,
    List.mem_singleton] at h ⊢
  tauto

theorem mem_parkSender {live : Waiter → Bool} {c : Channel} {w w' : Waiter} {v : Value}
    (h : w' ∈ (c.parkSender live w v).waiters) : w' ∈ c.waiters ∨ w = w' := by
  simp only [Channel.parkSender, Channel.waiters, List.map_append, List.mem_append,
    List.map_cons, List.map_nil, List.mem_singleton] at h
  rcases h with h | h | rfl
  · exact .inl (List.mem_append_left _ h)
  · obtain ⟨x, hx, rfl⟩ := List.mem_map.mp h
    exact .inl (List.mem_append_right _ (List.mem_map_of_mem (List.mem_filter.mp hx).1))
  · exact .inr rfl

theorem joins_park (live : Waiter → Bool) (k : Claim) (s : Turn) :
    s.Joins [k] (endState
      (park live k.channel (k.waiter s.task.id s.task.waitEpoch) k.offer) s) where
  crew := Turn.crew_eq rfl rfl rfl rfl rfl
  task := rfl
  acts := rfl
  lines i w hw := by
    obtain ⟨ch, case, offer⟩ := k
    cases offer with
    | none =>
      have hset : w ∈ ((s.heap.setChannel ch ((s.heap.channel ch).parkReceiver live
          ⟨s.task.id, s.task.waitEpoch, case⟩)).channel i).waiters := hw
      rcases Heap.mem_setChannel hset with ⟨rfl, hin⟩ | hin
      · rcases mem_parkReceiver hin with hin | rfl
        · exact .inl hin
        · exact .inr ⟨_, List.mem_singleton_self _, rfl, rfl⟩
      · exact .inl hin
    | some v =>
      have hset : w ∈ ((s.heap.setChannel ch ((s.heap.channel ch).parkSender live
          ⟨s.task.id, s.task.waitEpoch, case⟩ v)).channel i).waiters := hw
      rcases Heap.mem_setChannel hset with ⟨rfl, hin⟩ | hin
      · rcases mem_parkSender hin with hin | rfl
        · exact .inl hin
        · exact .inr ⟨_, List.mem_singleton_self _, rfl, rfl⟩
      · exact .inl hin

/-- Lining up for one case after the other. -/
theorem joins_parkCases : ∀ (cases : List (SelectCase × Nat)) (s : Turn),
    ∃ s', parkCases cases s = .ok ⟨⟩ s' ∧ s.Joins (cases.map Claim.ofCase) s'
  | [], s => ⟨s, rfl, rfl, rfl, by simp, fun _ _ hw => .inl hw⟩
  | (case, index) :: rest, s => by
    let live : Waiter → Bool := fun w =>
      w.task == s.task.id && w.epoch == s.task.waitEpoch || liveness s w
    let k := Claim.ofCase (case, index)
    let s₁ := endState (park live k.channel (k.waiter s.task.id s.task.waitEpoch) k.offer) s
    obtain ⟨s', h', hj⟩ := joins_parkCases rest s₁
    refine ⟨s', ?_, (joins_park live k s).trans hj⟩
    rw [← h', parkCases, get_bind_apply]
    cases case <;> rfl

/-- What an instruction comes to: it goes on, or leaves its task in line. -/
inductive Shapes (x : Exec Flow) (s : Turn) : Prop where
  | goes (h : Leads Turn.Trades x s) (hb : ∀ s', x s ≠ .ok .block s')
  | waits {s₁ s' : Turn} {op : Operation} (h : s.Trades s₁) (hx : x s = .ok .block s')
      (hl : s₁.LinesUp op s')

theorem shapes_bind {α : Type} {x : Exec α} {f : α → Exec Flow} (hx : Leads Turn.Trades x s)
    (hf : ∀ a s', x s = .ok a s' → Shapes (f a) s') : Shapes (x >>= f) s := by
  cases h : x s with
  | error e s' =>
    refine .goes (leads_bind hx fun a s'' h' => ?_) fun s'' hb => ?_
    · cases h.symm.trans h'
    · cases (bind_error h).symm.trans hb
  | ok a s₁ =>
    have hlead := hx.of_ok h
    cases hf a s₁ h with
    | goes hg hb =>
      refine .goes (leads_bind hx fun b s'' h' => ?_) fun s'' => ?_
      · cases h.symm.trans h'
        exact hg
      · rw [bind_ok h]
        exact hb s''
    | waits ht hw hl => exact .waits (trans_of Turn.Trades hlead ht) ((bind_ok h).trans hw) hl

theorem Shapes.of_ok {x : Exec Flow} {flow : Flow} {s' : Turn} (h : x s = .ok flow s')
    (hne : flow ≠ .block) (ht : s.Trades s') : Shapes x s :=
  .goes (leads_of_ok h ht) fun s'' hb => by
    cases h.symm.trans hb
    exact hne rfl

theorem Shapes.of_error {x : Exec Flow} {e : Fault} {s' : Turn} (h : x s = .error e s')
    (ht : s.Trades s') : Shapes x s := by
  refine .goes ?_ fun s'' hb => ?_
  · rw [Leads, endState_error h]
    exact ht
  · cases h.symm.trans hb

theorem Shapes.of_never {x : Exec Flow} (h : Leads Turn.Trades x s) (hb : NeverBlocks x) :
    Shapes x s := .goes h (hb s)

/-! ## Instructions on channels -/

theorem shapes_channelSend (id : ChannelId) (v : Value) (s : Turn) :
    Shapes (channelSend id v) s := by
  let s₁ : Turn := { s with acts := s.acts ++ [.began s.task.id (.send id v)] }
  have hx : channelSend id v s = (trySend id v >>= _) s₁ := bind_ok (begin_apply s _)
  have hbegin : s.Trades s₁ := trades_begin _ s
  have hsend := trades_trySend id v s₁
  cases h : trySend id v s₁ with
  | error e s₂ =>
    rw [Leads, endState_error h] at hsend
    exact .of_error (hx.trans (bind_error h)) (trans_of Turn.Trades hbegin hsend)
  | ok o s₂ =>
    have hs₂ : s.Trades s₂ := trans_of Turn.Trades hbegin (hsend.of_ok h)
    cases o with
    | sent o =>
      have hpush : s₂.Trades { s₂ with task := s₂.task.push .nil } := (ChangeIn.push .nil).trades
      exact .of_ok (hx.trans (bind_ok h)) (by simp) (trans_of Turn.Trades hs₂ hpush)
    | closed u => exact .of_error (hx.trans (bind_ok h)) hs₂
    | wouldBlock u =>
      obtain ⟨rfl, c, hc, rfl⟩ := trySend_wouldBlock h
      let s₂ : Turn := { s₁ with heap := s₁.heap.setChannel id c }
      have hl : s.LinesUp (.send id u) (endState (park (liveness s₂) id _ (some u)) s₂) :=
        Turn.Joins.linesUp hc (joins_park (liveness s₂) ⟨id, none, some u⟩ s₂)
      exact .waits (refl_of Turn.Trades s) (hx.trans (bind_ok h)) hl

theorem shapes_channelReceive (id : ChannelId) (s : Turn) : Shapes (channelReceive id) s := by
  let s₁ : Turn := { s with acts := s.acts ++ [.began s.task.id (.receive id)] }
  have hx : channelReceive id s = (tryReceive id >>= _) s₁ := bind_ok (begin_apply s _)
  have hbegin : s.Trades s₁ := trades_begin _ s
  have hreceive := trades_tryReceive id s₁
  cases h : tryReceive id s₁ with
  | error e s₂ =>
    rw [Leads, endState_error h] at hreceive
    exact .of_error (hx.trans (bind_error h)) (trans_of Turn.Trades hbegin hreceive)
  | ok o s₂ =>
    have hs₂ : s.Trades s₂ := trans_of Turn.Trades hbegin (hreceive.of_ok h)
    have hpush : ∀ v, s.Trades { s₂ with task := s₂.task.push v } := fun v =>
      trans_of Turn.Trades hs₂ (ChangeIn.push v).trades
    cases o with
    | received v w => exact .of_ok (hx.trans (bind_ok h)) (by simp) (hpush v)
    | closed => exact .of_ok (hx.trans (bind_ok h)) (by simp) (hpush .nil)
    | wouldBlock =>
      obtain ⟨c, hc, rfl⟩ := tryReceive_wouldBlock h
      let s₂ : Turn := { s₁ with heap := s₁.heap.setChannel id c }
      have hl : s.LinesUp (.receive id) (endState (park (liveness s₂) id _ none) s₂) :=
        Turn.Joins.linesUp hc (joins_park (liveness s₂) ⟨id, none, none⟩ s₂)
      exact .waits (refl_of Turn.Trades s) (hx.trans (bind_ok h)) hl

theorem trades_tryCase (case : SelectCase) (s : Turn) : Leads Turn.Trades (tryCase case) s := by
  unfold tryCase
  split
  · refine leads_bind (trades_tryReceive _ s) fun _ s _ => ?_
    split <;> exact leads_pure _ s
  · refine leads_bind (trades_trySend _ _ s) fun _ s _ => ?_
    split
    · exact leads_pure _ s
    · exact leads_throw _ s
    · exact leads_pure _ s

theorem shapes_select (cases : List SelectCase) (hasDefault : Bool) (s : Turn) :
    Shapes (select cases hasDefault) s := by
  have hbegin : s.Trades
      { s with acts := s.acts ++ [.began s.task.id (.select cases hasDefault)] } :=
    trades_begin _ s
  have hpush : ∀ {s₁ : Turn} (v : Value) (i : Int), s.Trades s₁ →
      s.Trades { s₁ with task := (s₁.task.push v).push (.ofInt i) } := fun v i h =>
    trans_of Turn.Trades h
      (trades_of_changes ((ChangeIn.push v).changes.tail (.push (.ofInt i))))
  rcases select_cases s cases hasDefault with ⟨-, hx⟩ | ⟨case, dice, -, -, htry⟩
  · cases hasDefault with
    | true => exact .of_ok hx (by simp) (hpush .nil (-1) hbegin)
    | false =>
      obtain ⟨s', h', hj⟩ := joins_parkCases cases.zipIdx
        { s with acts := s.acts ++ [.began s.task.id (.select cases false)] }
      have hl : s.LinesUp (.select cases false) s' := by
        refine ⟨hj.crew.trans (Turn.crew_eq rfl rfl rfl rfl rfl), hj.task, ?_, hj.lines⟩
        rw [hj.acts]
        exact (List.append_cons _ _ _).symm
      exact .waits (refl_of Turn.Trades s) (hx.trans (bind_ok h')) hl
  · let s₂ : Turn := { s with
      acts := s.acts ++ [.began s.task.id (.select cases hasDefault)]
      vm := { s.vm with dice } }
    have hs₂ : s.Trades s₂ := trans_of Turn.Trades hbegin
      (ChangeIn.vm (.count s.vm.profiler s.vm.instructions dice)).trades
    have hcase := trades_tryCase case s₂
    rcases htry with ⟨v, s₃, ht, hx⟩ | ⟨e, s₃, ht, hx⟩
    · exact .of_ok hx (by simp) (hpush v _ (trans_of Turn.Trades hs₂ (hcase.of_ok ht)))
    · rw [Leads, endState_error ht] at hcase
      exact .of_error hx (trans_of Turn.Trades hs₂ hcase)

/-- **What an instruction comes to.** -/
theorem shapes_instruction (ht : ∀ f ∈ s.hosts, f.Tame) : Shapes instruction s := by
  refine shapes_bind (leads_fetch s).trades fun op s₁ h₁ => ?_
  have ht₁ := (hosts_of_changes ((leads_fetch (K := Heap.Extends) s).of_ok h₁)) ▸ ht
  refine shapes_bind (leads_countInstruction s₁ op).trades fun _ s₂ h₂ => ?_
  have ht₂ := (hosts_of_changes ((leads_countInstruction (K := Heap.Extends) s₁ op).of_ok h₂)) ▸ ht₁
  cases hop : isChannelOp op with
  | false => exact .of_never (leads_execute s₂ ht₂ hop).trades (neverBlocks_execute hop)
  | true =>
    cases op
    case channelSend =>
      refine shapes_bind (leads_pop s₂).trades fun v s _ => ?_
      exact shapes_bind (leads_popChannel s).trades fun id s _ => shapes_channelSend id v s
    case channelRecv =>
      exact shapes_bind (leads_popChannel s₂).trades fun id s _ => shapes_channelReceive id s
    case channelClose =>
      refine shapes_bind (leads_popChannel s₂).trades fun id s _ => ?_
      refine shapes_bind (trades_channelClose id s) fun _ s _ => ?_
      refine shapes_bind (leads_push s _).trades fun _ s _ => ?_
      exact .of_ok rfl (by simp) (refl_of Turn.Trades s)
    case select =>
      exact shapes_bind (leads_selectOperands s₂).trades fun operands s _ =>
        shapes_select operands.1 operands.2 s
    all_goals nomatch hop

end Exec

/-! ## Turns -/

namespace Turn

variable {s : Turn}

theorem unwind_trades (s : Turn) (v : Value) : s.Trades (s.unwind v).2 := by
  intro hs
  cases hh : s.task.handlers with
  | nil =>
    unfold unwind
    rw [hh]
    exact .refl hs
  | cons hd rest =>
    obtain ⟨left, ha⟩ := unwind_acts hh v
    obtain ⟨acts, events, cells, frames, openUpvalues, iterations, stack, hs'⟩ :=
      unwind_frame hh v
    refine .quiet hs ?_ ?_ [.left s.task.id left] ha ?_ ?_ ?_
    · rw [hs']
      exact crew_eq rfl rfl rfl rfl rfl
    · intro i w hw
      rw [hs'] at hw
      exact hw
    · simp [Act.isPark]
    · simp
    · simp

theorem follow_trades (s : Turn) {flow : Flow} (h : flow ≠ .block) :
    s.Trades (s.follow flow).2 ∧ (s.follow flow).1 ≠ some .blocked := by
  cases flow with
  | block => exact absurd rfl h
  | thrown v => exact ⟨s.unwind_trades v, (s.unwind_follows v).2⟩
  | next | yield | done result => exact ⟨refl_of Trades s, by simp [follow]⟩

theorem recover_trades (s : Turn) (e : Fault) :
    s.Trades (s.recover e).2 ∧ (s.recover e).1 ≠ some .blocked := by
  refine ⟨?_, (s.recover_follows e).2⟩
  cases e with
  | endless => exact refl_of Trades s
  | raised e =>
    have htell : s.Trades { s with events := s.events ++ [.raised s.task.id e] } :=
      (ChangeIn.tell [.raised s.task.id e]).trades
    unfold recover
    dsimp only
    split
    · exact htell
    · exact trans_of Trades htell (unwind_trades _ _)

theorem perform_trades {x : Exec Flow} (h : Leads Trades x s) (hb : ∀ s', x s ≠ .ok .block s') :
    s.Trades (s.perform x).2 ∧ (s.perform x).1 ≠ some .blocked := by
  unfold perform
  cases hx : x s with
  | ok flow s' =>
    have hne : flow ≠ .block := fun he => hb s' (he ▸ hx)
    obtain ⟨ht, ho⟩ := s'.follow_trades hne
    exact ⟨trans_of Trades (h.of_ok hx) ht, ho⟩
  | error e s' =>
    rw [Leads, endState_error hx] at h
    obtain ⟨ht, ho⟩ := s'.recover_trades e
    exact ⟨trans_of Trades h ht, ho⟩

/-- What the running task does when it has the turn. -/
inductive Does (s : Turn) : Option TurnEnd → Turn → Prop where
  | goes {o : Option TurnEnd} {s' : Turn} (h : s.Trades s') (hb : o ≠ some .blocked) : Does s o s'
  /-- It waits. -/
  | waits {s₁ s' : Turn} {op : Operation} (h : s.Trades s₁) (hl : s₁.LinesUp op s') :
      Does s (some .blocked) s'
  /-- It has lined up and comes to its end. -/
  | fails {s₁ s₂ : Turn} {op : Operation} (h : s.Trades s₁) (hl : s₁.LinesUp op s₂)
      (events : List Event) (failure : Failure) :
      Does s (some (.failed failure)) { s₂ with events }
  /-- It has lined up in vain, and goes on. -/
  | strands {s₁ s₂ s' : Turn} {op : Operation} {o : Option TurnEnd} (h : s.Trades s₁)
      (hl : s₁.LinesUp op s₂) (h' : s₂.Trades s') (ho : o ≠ some .blocked)
      (hs : s.strands = true) : Does s o s'

/-- The next instruction, with the check that its operands have room. -/
theorem step_does (ht : ∀ f ∈ s.hosts, f.Tame) (hnone : s.task.resume = none) :
    s.Does (s.perform step).1 (s.perform step).2 := by
  cases shapes_instruction ht with
  | goes h hb =>
    have hstep : Leads Trades step s := leads_bind h fun flow s' _ => leads_get_bind (by
      split
      · exact leads_throw _ s'
      · exact leads_pure _ s')
    obtain ⟨ht, hb⟩ := perform_trades hstep fun s' hstep => by
      obtain ⟨flow, s₁, h₁, hstep⟩ := bind_eq_ok.mp hstep
      rw [get_bind_apply] at hstep
      split at hstep
      · cases hstep
      · injection hstep with hflow hs'
        exact hb s₁ (hflow ▸ h₁)
    exact .goes ht hb
  | @waits s₁ s' op h hx hl =>
    -- The check comes after the task has lined up, so an overflow finds it in the line.
    by_cases hfull : s'.vm.config.stackCapacity < s'.task.stack.size
    · have hfail : step s = .error (.raised (.stackOverflow s'.task.frames.length)) s' := by
        rw [step, bind_ok hx, get_bind_apply, if_pos hfull]
        rfl
      cases hh : s'.task.handlers with
      | nil =>
        unfold perform
        rw [hfail]
        unfold recover unwind
        dsimp only
        rw [hh, if_neg (by simp [RuntimeError.isFatal])]
        exact .fails h hl _ _
      | cons hd rest =>
        obtain ⟨htrades, hb⟩ := s'.recover_trades (.raised (.stackOverflow s'.task.frames.length))
        have hp : s.perform step = s'.recover (.raised (.stackOverflow s'.task.frames.length)) := by
          rw [perform, hfail]
        rw [hp]
        refine .strands h hl htrades hb ?_
        rw [strands, hnone, hx]
        simp [hfull, hh]
    · have hok : step s = .ok .block s' := by
        rw [step, bind_ok hx, get_bind_apply, if_neg hfull]
        rfl
      unfold perform
      rw [hok]
      exact .waits h hl

theorem resume_trades {r : Resume} : s.Trades { s with
    acts := s.acts ++ [.resumed s.task.id r], task := { s.task with resume := none } } := by
  intro hs
  have hstep : Crew.Step s.crew [] (s.crew.resume s.task.badge) := .resume (b := s.task.badge) rfl
  refine ⟨hstep.tended hs, rfl, rfl, fun w hw => hstep.live hs hw, fun i w hw => hw,
    [.resumed s.task.id r], rfl, ?_, ?_, ?_⟩
  · simp [Act.isPark]
  · simp
  · simp

theorem resumeWith_trades (r : Resume) (s : Turn) : Leads Trades (resumeWith r) s := by
  cases r with
  | value v => exact leads_bind (leads_push s v).trades fun _ s _ => leads_pure _ s
  | selected index v =>
    refine leads_bind (leads_bind (leads_push s v).trades fun _ s _ => ?_) fun _ s _ => ?_
    · exact (leads_push s _).trades
    · exact leads_pure _ s
  | error e => exact leads_pure _ s

/-- **What the running task does**: nobody lines up, or the task does and that is the end of its
turn, unless it is stranded. -/
theorem advance_does (ht : ∀ f ∈ s.hosts, f.Tame) : s.Does s.advance.1 s.advance.2 := by
  unfold advance
  split
  · rename_i r hr
    obtain ⟨h, hb⟩ := perform_trades (resumeWith_trades r _) (resumeWith_neverBlocks r _)
    exact .goes (trans_of Trades resume_trades h) hb
  · rename_i hnone
    split
    · exact .goes (refl_of Trades s) (by simp)
    · split
      · obtain ⟨h, hb⟩ := perform_trades (leads_leaveFrame s .nil).trades
          (neverBlocks_leaveFrame .nil s)
        exact .goes h hb
      · exact step_does ht hnone

end Turn

end TaskVm
