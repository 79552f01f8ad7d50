import TaskVm.Proofs.Deadlock
import TaskVm.Proofs.Executing

/-!
# Selecting

A select takes effect once, by one of its cases. If one is ready when the select is executed
it takes place there and then. Otherwise the task waits with all cases, and the first to be
met is the only one: with the end of the wait all others are dead, whatever channels they are
for and whatever the task waits for later.
-/

namespace TaskVm

open Exec Relation

/-- A case takes place: what becomes of its channel, what goes on record, and the value that
the task sees. -/
inductive SelectCase.Effect (live : Waiter → Bool) (c : Channel) :
    SelectCase → Channel → List Act → Value → Prop where
  | stored {ch : ChannelId} {v : Value} {c' : Channel}
      (h : c.trySend live v = (.sent none, c')) :
      Effect live c (.send ch v) c' [.sent ch v none] .nil
  | handed {ch : ChannelId} {v : Value} {w : Waiter} {c' : Channel}
      (h : c.trySend live v = (.sent (some (w, v)), c')) :
      Effect live c (.send ch v) c'
        [.sent ch v (some w), .woken w (Scheduler.resumeOf w v)] .nil
  | taken {ch : ChannelId} {v : Value} {c' : Channel}
      (h : c.tryReceive live = (.received v none, c')) :
      Effect live c (.receive ch) c' [.received ch v none] v
  | released {ch : ChannelId} {v : Value} {w : Waiter} {c' : Channel}
      (h : c.tryReceive live = (.received v (some w), c')) :
      Effect live c (.receive ch) c'
        [.received ch v (some w), .woken w (Scheduler.resumeOf w .nil)] v
  | drained {ch : ChannelId} {c' : Channel} (h : c.tryReceive live = (.closed, c')) :
      Effect live c (.receive ch) c' [.drained ch] .nil

/-- What a select comes to when it is executed. -/
inductive Selected (cases : List SelectCase) (hasDefault : Bool) (s : Turn) :
    EStateM.Result Fault Turn Flow → Prop where
  /-- A case takes place. -/
  | fired {index : Nat} {case : SelectCase} {c' : Channel} {acts : List Act} {v : Value}
      {s' : Turn} (hcase : cases[index]? = some case)
      (he : case.Effect (liveness s) (s.heap.channel case.channel) c' acts v)
      (hch : s'.heap.channels = s.heap.channels.setIfInBounds case.channel c')
      (ha : s'.acts = s.acts ++ .began s.task.id (.select cases hasDefault) :: acts)
      (ht : s'.task = { s.task with stack := (s.task.stack.push v).push (.ofInt index) }) :
      Selected cases hasDefault s (.ok .next s')
  /-- No case is ready, and there is a default. -/
  | default {s' : Turn} (hd : hasDefault = true)
      (hnone : ∀ case ∈ cases, case.isReady s.heap (liveness s) = false)
      (hch : s'.heap.channels = s.heap.channels)
      (ha : s'.acts = s.acts ++ [.began s.task.id (.select cases hasDefault)])
      (ht : s'.task = { s.task with stack := (s.task.stack.push .nil).push (.ofInt (-1)) }) :
      Selected cases hasDefault s (.ok .next s')
  /-- The case is a send, and its channel is closed. -/
  | refused {index : Nat} {ch : ChannelId} {v : Value} {s' : Turn}
      (hcase : cases[index]? = some (.send ch v)) (hclosed : (s.heap.channel ch).closed = true)
      (hch : s'.heap.channels = s.heap.channels)
      (ha : s'.acts = s.acts ++ [.began s.task.id (.select cases hasDefault), .refused ch v]) :
      Selected cases hasDefault s (.error (.raised .channelClosed) s')
  /-- No case is ready, and the task waits for all of them. -/
  | parked {s' : Turn} (hd : hasDefault = false)
      (hnone : ∀ case ∈ cases, case.isReady s.heap (liveness s) = false)
      (hw : Waits (.select cases false) s s') : Selected cases hasDefault s (.ok .block s')

/-- What a select comes to when some case is ready: the case that is drawn takes place, or it is a
send that fails because its channel is closed. -/
inductive Completed (cases : List SelectCase) (hasDefault : Bool) (s : Turn) :
    EStateM.Result Fault Turn Flow → Prop where
  | fired {case : SelectCase} {c' : Channel} {acts : List Act} {v : Value} {s' : Turn}
      (hcase : cases[drawn s cases]? = some case)
      (he : case.Effect (liveness s) (s.heap.channel case.channel) c' acts v)
      (hch : s'.heap.channels = s.heap.channels.setIfInBounds case.channel c')
      (ha : s'.acts = s.acts ++ .began s.task.id (.select cases hasDefault) :: acts)
      (ht : s'.task = { s.task with
        stack := (s.task.stack.push v).push (.ofInt (drawn s cases)) }) :
      Completed cases hasDefault s (.ok .next s')
  | refused {ch : ChannelId} {v : Value} {s' : Turn}
      (hcase : cases[drawn s cases]? = some (.send ch v))
      (hclosed : (s.heap.channel ch).closed = true) (hch : s'.heap.channels = s.heap.channels)
      (ha : s'.acts = s.acts ++ [.began s.task.id (.select cases hasDefault), .refused ch v]) :
      Completed cases hasDefault s (.error (.raised .channelClosed) s')

theorem Completed.selected {cases : List SelectCase} {hasDefault : Bool} {s : Turn}
    {r : EStateM.Result Fault Turn Flow} (h : Completed cases hasDefault s r) :
    Selected cases hasDefault s r := by
  cases h with
  | fired hcase he hch ha ht => exact .fired hcase he hch ha ht
  | refused hcase hclosed hch ha => exact .refused hcase hclosed hch ha

/-! ## Ready cases -/

variable {s : Turn}

/-- A channel gets a new state and somebody goes on because of it. -/
theorem wake_after (s : Turn) (id : ChannelId) (c : Channel) (a : Act) {w : Waiter}
    (hw : s.crew.live w = true) (r : Resume) :
    let s' := endState (wake w r)
      { s with heap := s.heap.setChannel id c, acts := s.acts ++ [a] }
    s'.heap.channels = s.heap.channels.setIfInBounds id c ∧
    s'.acts = s.acts ++ [a, .woken w r] ∧ s'.task = s.task := by
  intro s'
  let s₁ : Turn := { s with heap := s.heap.setChannel id c, acts := s.acts ++ [a] }
  have hcrew : s₁.crew = s.crew := Turn.crew_eq rfl rfl rfl rfl rfl
  refine ⟨s₁.wake_channels w r, ?_, ?_⟩
  · show (endState (wake w r) s₁).acts = _
    rw [s₁.wake_acts, hcrew, if_pos hw, List.append_assoc]
    rfl
  · show (endState (wake w r) s₁).task = _
    rw [endState_ok (wake_apply s₁ w r)]

/-- A receive that is ready takes place. -/
theorem tryReceive_effect {ch : ChannelId}
    (hready : (SelectCase.receive ch).isReady s.heap s.crew.live = true) :
    ∃ v s' c' acts, tryCase (.receive ch) s = .ok (some v) s' ∧
      (SelectCase.receive ch).Effect (liveness s) (s.heap.channel ch) c' acts v ∧
      s'.heap.channels = s.heap.channels.setIfInBounds ch c' ∧
      s'.acts = s.acts ++ acts ∧ s'.task = s.task := by
  have hlive := s.liveness_eq
  rcases Channel.tryReceive_cases (liveness s) (s.heap.channel ch) with
    ⟨v, buffer, -, -, h⟩ | ⟨v, buffer, w, u, rest, -, hw, -, -, h⟩ |
    ⟨w, v, rest, -, hw, -, -, h⟩ | ⟨-, -, -, h⟩ | ⟨-, -, -, h⟩
  · refine ⟨v, { s with
      heap := s.heap.setChannel ch { s.heap.channel ch with buffer, senders := [] }
      acts := s.acts ++ [.received ch v none] }, _, _, ?_, .taken h, rfl, rfl, rfl⟩
    rw [tryCase, bind_ok (tryReceive_taken h)]
    rfl
  · obtain ⟨hch, ha, ht⟩ := wake_after s ch { s.heap.channel ch with
      buffer := buffer ++ [u], senders := rest } (.received ch v (some w)) (hlive ▸ hw)
      (Scheduler.resumeOf w .nil)
    refine ⟨v, _, _, _, ?_, .released h, hch, ha, ht⟩
    rw [tryCase, bind_ok (tryReceive_handed h)]
    rfl
  · obtain ⟨hch, ha, ht⟩ := wake_after s ch { s.heap.channel ch with senders := rest }
      (.received ch v (some w)) (hlive ▸ hw) (Scheduler.resumeOf w .nil)
    refine ⟨v, _, _, _, ?_, .released h, hch, ha, ht⟩
    rw [tryCase, bind_ok (tryReceive_handed h)]
    rfl
  · refine ⟨.nil, { s with
      heap := s.heap.setChannel ch { s.heap.channel ch with senders := [] }
      acts := s.acts ++ [.drained ch] }, _, _, ?_, .drained h, rfl, rfl, rfl⟩
    rw [tryCase, bind_ok (tryReceive_closed h)]
    rfl
  -- An attempt that would block contradicts that the case is ready.
  · refine absurd ?_ (tryCase_ready hready
      { s with heap := s.heap.setChannel ch { s.heap.channel ch with senders := [] } })
    rw [tryCase, bind_ok (tryReceive_blocked h)]
    rfl

/-- A send that is ready takes place, unless the channel is closed. -/
theorem trySend_effect {ch : ChannelId} {v : Value} (hid : ch < s.heap.channels.size)
    (hready : (SelectCase.send ch v).isReady s.heap s.crew.live = true) :
    (∃ s' c' acts, tryCase (.send ch v) s = .ok (some .nil) s' ∧
      (SelectCase.send ch v).Effect (liveness s) (s.heap.channel ch) c' acts .nil ∧
      s'.heap.channels = s.heap.channels.setIfInBounds ch c' ∧
      s'.acts = s.acts ++ acts ∧ s'.task = s.task) ∨
    ∃ s', (s.heap.channel ch).closed = true ∧
      tryCase (.send ch v) s = .error (.raised .channelClosed) s' ∧
      s'.heap.channels = s.heap.channels ∧ s'.acts = s.acts ++ [.refused ch v] := by
  have hlive := s.liveness_eq
  rcases Channel.trySend_cases (liveness s) (s.heap.channel ch) v with
    ⟨hclosed, h⟩ | ⟨-, w, rest, hw, -, -, h⟩ | ⟨-, -, -, h⟩ | ⟨-, -, -, h⟩
  · refine .inr ⟨{ s with
      heap := s.heap.setChannel ch (s.heap.channel ch)
      acts := s.acts ++ [.refused ch v] }, hclosed, ?_, ?_, rfl⟩
    · rw [tryCase, bind_ok (trySend_closed h)]
      rfl
    · exact setIfInBounds_self (Turn.channel_getElem? hid)
  · obtain ⟨hch, ha, ht⟩ := wake_after s ch { s.heap.channel ch with receivers := rest }
      (.sent ch v (some w)) (hlive ▸ hw) (Scheduler.resumeOf w v)
    refine .inl ⟨_, _, _, ?_, .handed h, hch, ha, ht⟩
    rw [tryCase, bind_ok (trySend_handed h)]
    rfl
  · refine .inl ⟨{ s with
      heap := s.heap.setChannel ch
        { s.heap.channel ch with receivers := [], buffer := (s.heap.channel ch).buffer ++ [v] }
      acts := s.acts ++ [.sent ch v none] }, _, _, ?_, .stored h, rfl, rfl, rfl⟩
    rw [tryCase, bind_ok (trySend_stored h)]
    rfl
  · refine absurd ?_ (tryCase_ready hready
      { s with heap := s.heap.setChannel ch { s.heap.channel ch with receivers := [] } })
    rw [tryCase, bind_ok (trySend_blocked h)]
    rfl

/-- A case that is ready takes place, unless it is a send on a closed channel. -/
theorem tryCase_effect {case : SelectCase} (hid : case.channel < s.heap.channels.size)
    (hready : case.isReady s.heap s.crew.live = true) :
    (∃ v s' c' acts, tryCase case s = .ok (some v) s' ∧
      case.Effect (liveness s) (s.heap.channel case.channel) c' acts v ∧
      s'.heap.channels = s.heap.channels.setIfInBounds case.channel c' ∧
      s'.acts = s.acts ++ acts ∧ s'.task = s.task) ∨
    ∃ ch v s', case = .send ch v ∧ (s.heap.channel ch).closed = true ∧
      tryCase case s = .error (.raised .channelClosed) s' ∧
      s'.heap.channels = s.heap.channels ∧ s'.acts = s.acts ++ [.refused ch v] := by
  cases case with
  | receive ch => exact .inl (tryReceive_effect hready)
  | send ch v =>
    exact (trySend_effect hid hready).imp (fun h => ⟨.nil, h⟩) fun ⟨s', h⟩ => ⟨ch, v, s', rfl, h⟩

/-- **A select whose cases are not all idle** completes by the case that it draws. -/
theorem select_completed (s : Turn) {cases : List SelectCase}
    (hids : ∀ case ∈ cases, case.channel < s.heap.channels.size) (hasDefault : Bool)
    (hready : ∃ case ∈ cases, case.isReady s.heap s.crew.live = true) :
    Completed cases hasDefault s (select cases hasDefault s) := by
  rcases select_cases s cases hasDefault with ⟨hnone, -⟩ | ⟨case, dice, hcase, hready, htry⟩
  · obtain ⟨case, hmem, hready⟩ := hready
    exact absurd hready (Bool.eq_false_iff.mp (hnone case hmem))
  · let s₂ : Turn := { s with
      acts := s.acts ++ [.began s.task.id (.select cases hasDefault)]
      vm := { s.vm with dice } }
    have hready' : case.isReady s₂.heap s₂.crew.live = true := by
      rw [show s₂.crew = s.crew from Turn.crew_eq rfl rfl rfl rfl rfl]
      exact hready
    have heffect := tryCase_effect (s := s₂) (hids case (List.mem_of_getElem? hcase)) hready'
    rcases htry with ⟨v, s₃, ht, hx⟩ | ⟨e, s₃, ht, hx⟩
    · rw [hx]
      rcases heffect with ⟨v', s', c', acts, ht', he, hch, ha, htask⟩ | ⟨ch, u, s', -, -, ht', -⟩
      · obtain ⟨hv, rfl⟩ := EStateM.Result.ok.inj (ht.symm.trans ht')
        obtain rfl := Option.some.inj hv
        refine .fired hcase he hch ?_ ?_
        · rw [← List.append_cons] at ha
          exact ha
        · show { s₃.task with
            stack := (s₃.task.stack.push v).push (.ofInt (drawn s cases)) } = _
          rw [htask]
      · rw [ht] at ht'
        cases ht'
    · rw [hx]
      rcases heffect with ⟨v', s', c', acts, ht', -⟩ | ⟨ch, u, s', hsend, hclosed, ht', hch, ha⟩
      · rw [ht] at ht'
        cases ht'
      · obtain ⟨rfl, rfl⟩ := EStateM.Result.error.inj (ht.symm.trans ht')
        refine .refused (hsend ▸ hcase) hclosed hch ?_
        rw [List.append_assoc] at ha
        exact ha

/-- **What a select comes to**, one of four things. -/
theorem select_selected (s : Turn) {cases : List SelectCase}
    (hids : ∀ case ∈ cases, case.channel < s.heap.channels.size) (hasDefault : Bool) :
    Selected cases hasDefault s (select cases hasDefault s) := by
  have hlive := s.liveness_eq
  rcases select_cases s cases hasDefault with
    ⟨hnone, hx⟩ | ⟨case, -, hcase, hready, -⟩
  · cases hasDefault with
    | true =>
      rw [hx]
      exact .default rfl (hlive ▸ hnone) rfl rfl rfl
    | false =>
      obtain ⟨s', hx', hw⟩ := select_waits hids hnone hx
      rw [hx']
      exact .parked rfl (hlive ▸ hnone) hw
  · exact (select_completed s hids hasDefault
      ⟨case, List.mem_of_getElem? hcase, hready⟩).selected

/-! ## Cases that wait -/

/-- The case of a parked select that is met, how, and what the task goes on with. -/
inductive Chosen (cases : List SelectCase) (t : TaskId) (epoch : Nat) :
    List Act → Resume → Prop where
  /-- Somebody sends what the case receives. -/
  | sent {index : Nat} {ch : ChannelId} (hcase : cases[index]? = some (.receive ch)) (v : Value) :
      Chosen cases t epoch
        [.sent ch v (some ⟨t, epoch, some index⟩),
          .woken ⟨t, epoch, some index⟩ (.selected index v)]
        (.selected index v)
  /-- Somebody receives from the channel, and what the case sends is accepted. -/
  | received {index : Nat} {ch : ChannelId} {v : Value}
      (hcase : cases[index]? = some (.send ch v)) (u : Value) :
      Chosen cases t epoch
        [.received ch u (some ⟨t, epoch, some index⟩),
          .woken ⟨t, epoch, some index⟩ (.selected index .nil)]
        (.selected index .nil)
  /-- The channel is closed, which gives the case nil. Others in line may be told after it. -/
  | dismissed {index : Nat} {ch : ChannelId} (hcase : cases[index]? = some (.receive ch))
      {others : List Act} (hothers : ∀ a ∈ others, a.isOther t epoch) :
      Chosen cases t epoch
        (.woken ⟨t, epoch, some index⟩ (.selected index .nil) :: (others ++ [.closed ch]))
        (.selected index .nil)
  /-- The channel is closed, and the case fails. -/
  | rejected {index : Nat} {ch : ChannelId} {v : Value}
      (hcase : cases[index]? = some (.send ch v))
      {others : List Act} (hothers : ∀ a ∈ others, a.isOther t epoch) :
      Chosen cases t epoch
        (.woken ⟨t, epoch, some index⟩ (.error .channelClosed) :: (others ++ [.closed ch]))
        (.error .channelClosed)

theorem mem_claims_select {cases : List SelectCase} {hasDefault : Bool} {k : Claim}
    (hk : k ∈ (Operation.select cases hasDefault).claims) :
    ∃ index case, cases[index]? = some case ∧ k = Claim.ofCase (case, index) := by
  obtain ⟨⟨case, index⟩, hmem, rfl⟩ := List.mem_map.mp hk
  exact ⟨index, case, List.mem_zipIdx_iff_getElem?.mp hmem, rfl⟩

/-- A claim of a select is met as one of its cases. -/
theorem Meets.chosen {cases : List SelectCase} {hasDefault : Bool} {t : TaskId} {epoch : Nat}
    {acts : List Act} {r : Resume}
    (h : Meets (Operation.select cases hasDefault).claims t epoch acts r) :
    Chosen cases t epoch acts r := by
  cases h with
  | sent hk ho v =>
    obtain ⟨index, case, hcase, rfl⟩ := mem_claims_select hk
    cases case with
    | send ch u => nomatch ho
    | receive ch => exact .sent hcase v
  | received hk ho u =>
    obtain ⟨index, case, hcase, rfl⟩ := mem_claims_select hk
    cases case with
    | send ch v => exact .received hcase u
    | receive ch => nomatch ho
  | dismissed hk ho hothers =>
    obtain ⟨index, case, hcase, rfl⟩ := mem_claims_select hk
    cases case with
    | send ch u => nomatch ho
    | receive ch => exact .dismissed hcase hothers
  | rejected hk ho hothers =>
    obtain ⟨index, case, hcase, rfl⟩ := mem_claims_select hk
    cases case with
    | send ch v => exact .rejected hcase hothers
    | receive ch => nomatch ho

namespace Machine

variable {hosts : Array HostFunction} {h : Heap} {id : VmId} {config : VmConfig} {dice : Dice}
  {hist : List Act} {m m' : Machine} {task : Task} {cases : List SelectCase} {hasDefault : Bool}
  {s : Turn} {t : TaskId} {epoch : Nat}

/-- What has become of a parked select. -/
inductive Decided (m : Machine) (cases : List SelectCase) (t : TaskId) (epoch : Nat) :
    List Act → Prop where
  /-- Its task waits with all cases, and nothing has been about any of them. -/
  | notYet {acts : List Act} (hw : m.net.Waiting t epoch (.select cases false))
      (ha : ∀ a ∈ acts, a.isOf t epoch = false) : Decided m cases t epoch acts
  /-- Its task is gone, and nothing has been about any case. -/
  | dropped {acts : List Act} (hm : .ended t ∈ acts) (ha : ∀ a ∈ acts, a.isOf t epoch = false)
      (hdead : ∀ w, w.isOf t epoch = true → m.live w = false) : Decided m cases t epoch acts
  /-- One case has been met, and nothing else has been about any case, before or since. If it
  was by a channel that closed, the channel is closed. -/
  | met {before effect after : List Act} {r : Resume} (hm : Chosen cases t epoch effect r)
      (hb : ∀ a ∈ before, a.isOf t epoch = false) (ha : ∀ a ∈ after, a.isOf t epoch = false)
      (hshut : ∀ ch, .closed ch ∈ effect → (m.heap.channel ch).closed = true)
      (hp : m.net.PicksUp t r after)
      (hdead : ∀ w, w.isOf t epoch = true → m.live w = false) :
      Decided m cases t epoch (before ++ effect ++ after)

/-- Nobody is live for a wait that is over. -/
theorem dead_of_over (hg : m.Good) (ho : m.net.Over t epoch) {w : Waiter}
    (hw : w.isOf t epoch = true) : m.live w = false := by
  refine Bool.eq_false_iff.mpr fun hl => ?_
  rw [live_eq, Crew.live_iff hg.tended] at hl
  obtain ⟨x, hx, -, hn⟩ := hl
  obtain ⟨ht, he⟩ := Bool.and_eq_true_iff.mp hw
  rw [beq_iff_eq.mp ht] at hx
  exact Nat.ne_of_gt (ho.past x hx) (hn ▸ beq_iff_eq.mp he)

/-- What is closed to the net is closed. -/
theorem closed_of_shut {ch : ChannelId} (h : m.net.Shut ch) :
    (m.heap.channel ch).closed = true := by
  obtain ⟨c, hc, hclosed⟩ := h
  rw [Machine.net, Crew.net, Array.getElem?_map, Option.map_eq_some_iff] at hc
  obtain ⟨d, hd, rfl⟩ := hc
  rw [Heap.channel, Array.getD_eq_getD_getElem?, hd]
  exact hclosed

theorem decided_of_fate (hg : m.Good) {acts : List Act}
    (hf : m.net.Fate t epoch (.select cases false) acts)
    (hshut : ∀ ch, .closed ch ∈ acts → m.net.Shut ch) : m.Decided cases t epoch acts := by
  cases hf with
  | pending hw ha => exact .notYet hw ha
  | dropped ho hm ha => exact .dropped hm ha fun _ => dead_of_over hg ho
  | met ho hm hb ha hp =>
    refine .met hm.chosen hb ha (fun ch hch => closed_of_shut (hshut ch ?_)) hp
      fun _ => dead_of_over hg ho
    exact List.mem_append_left _ (List.mem_append_right _ hch)

/-! ## Executing a select -/

/-- The task that has the turn executes a select. The instruction has been read and its
operands taken off when the turn is `s`. -/
structure Selects (m : Machine) (task : Task) (cases : List SelectCase) (hasDefault : Bool)
    (s : Turn) : Prop where
  running : m.running = some task
  ready : task.resume = none
  read : ∃ s₁ s₂, fetch (m.turn task) = .ok .select s₁ ∧
    countInstruction .select s₁ = .ok ⟨⟩ s₂ ∧ selectOperands s₂ = .ok (cases, hasDefault) s

/-- The select that the next tick executes, if it executes one. -/
def select? (m : Machine) : Option (Task × List SelectCase × Bool × Turn) :=
  match m.running with
  | none => none
  | some task =>
    if task.resume.isSome then none
    else
      match fetch (m.turn task) with
      | .ok .select s₁ =>
        match countInstruction .select s₁ with
        | .ok ⟨⟩ s₂ =>
          match selectOperands s₂ with
          | .ok (cases, hasDefault) s => some (task, cases, hasDefault, s)
          | .error _ _ => none
        | .error _ _ => none
      | _ => none

theorem selects_of_select? (h : m.select? = some (task, cases, hasDefault, s)) :
    m.Selects task cases hasDefault s := by
  unfold select? at h
  split at h
  · cases h
  · rename_i hrunning
    split at h
    · cases h
    · rename_i hready
      split at h
      · rename_i s₁ h₁
        split at h
        · rename_i s₂ h₂
          split at h
          · rename_i h₃
            cases h
            exact ⟨hrunning, by simpa using hready, s₁, s₂, h₁, h₂, h₃⟩
          · cases h
        · cases h
      · cases h

/-- There is room for the operands that the next instruction leaves. -/
def fits (m : Machine) : Bool := m.running.all fun task => task.resume.isSome ||
  match instruction (m.turn task) with
  | .ok _ s => s.task.stack.size ≤ s.vm.config.stackCapacity
  | .error _ _ => true

/-- Where there is room for all operands no task is lined up in vain. -/
theorem roomy_of_fits (h : m.fits = true) : m.roomy = true := by
  unfold fits at h
  unfold roomy strands
  cases hr : m.running with
  | none => rfl
  | some task =>
    rw [hr, Option.all_some] at h
    rw [Option.any_some, Turn.strands, Bool.not_eq_true', Bool.and_eq_false_iff]
    cases hres : task.resume with
    | some r => exact .inl (show task.resume.isNone = false by rw [hres]; rfl)
    | none =>
      right
      rw [hres] at h
      split
      · rename_i s' hi
        rw [hi] at h
        have hle : s'.task.stack.size ≤ s'.vm.config.stackCapacity := by simpa using h
        rw [decide_eq_false (Nat.not_lt.mpr hle), Bool.false_and]
      · rfl

namespace Selects

theorem reads (h : m.Selects task cases hasDefault s) : Reads (m.turn task) s := by
  obtain ⟨s₁, s₂, h₁, h₂, h₃⟩ := h.read
  exact trans_of Reads ((reads_fetch _).of_ok h₁)
    (trans_of Reads ((reads_countInstruction _ _).of_ok h₂) ((reads_selectOperands _).of_ok h₃))

theorem changes (h : m.Selects task cases hasDefault s) : Changes (m.turn task) s := by
  obtain ⟨s₁, s₂, h₁, h₂, h₃⟩ := h.read
  exact (((leads_fetch _).of_ok h₁).trans ((leads_countInstruction _ _).of_ok h₂)).trans
    ((leads_selectOperands _).of_ok h₃)

theorem channels (h : m.Selects task cases hasDefault s) :
    ∀ case ∈ cases, case.channel < s.heap.channels.size := by
  obtain ⟨s₁, s₂, h₁, h₂, h₃⟩ := h.read
  rw [((reads_selectOperands s₂).of_ok h₃).heap]
  exact selectOperands_ok h₃

theorem instruction_eq (h : m.Selects task cases hasDefault s) :
    instruction (m.turn task) = select cases hasDefault s := by
  obtain ⟨s₁, s₂, h₁, h₂, h₃⟩ := h.read
  rw [instruction, bind_ok h₁, bind_ok h₂]
  exact bind_ok h₃

theorem step_eq (h : m.Selects task cases hasDefault s) (hfit : m.fits = true) :
    step (m.turn task) = select cases hasDefault s := by
  rw [fits, h.running] at hfit
  simp only [Option.all_some, h.ready, Option.isSome_none, Bool.false_or] at hfit
  rw [← h.instruction_eq, step]
  cases hi : instruction (m.turn task) with
  | error e s' => exact bind_error hi
  | ok flow s' =>
    rw [hi] at hfit
    rw [bind_ok hi, get_bind_apply, if_neg (Nat.not_lt.mpr (of_decide_eq_true hfit))]
    rfl

/-- The turn goes on with the instruction. -/
theorem advance_eq (h : m.Selects task cases hasDefault s) :
    (m.turn task).advance = (m.turn task).perform step := by
  obtain ⟨s₁, -, h₁, -⟩ := h.read
  exact Turn.advance_action (action_of_fetch h.ready h₁)

theorem selected (h : m.Selects task cases hasDefault s) (hfit : m.fits = true) :
    Selected cases hasDefault s (step (m.turn task)) := by
  rw [h.step_eq hfit]
  exact select_selected s h.channels hasDefault

/-- A select that parks its task leaves it waiting with all cases. -/
theorem parked (h : m.Selects task cases hasDefault s) (hg : m.Good) (hs : m.net.Sound)
    {s' : Turn} (hblock : step (m.turn task) = .ok .block s')
    (hw : Waits (.select cases false) s s') :
    m.tick.machine.Good ∧ m.tick.machine.net.Sound ∧
      m.tick.machine.net.Waiting task.id task.waitEpoch (.select cases false) := by
  have hturn : (m.turn task).Good := by
    have hgood := hg
    rw [← ofTurn_turn h.running] at hgood
    exact hgood
  have hsound : (m.turn task).net.Sound := by
    rw [← ofTurn_turn h.running] at hs
    exact hs
  obtain ⟨hgood, acts, -, hrun⟩ := follows_of_changes h.changes hturn
  have hbadge := badge_of_changes h.changes hturn
  have hid : s.task.id = task.id := congrArg Badge.id hbadge
  have hepoch : s.task.waitEpoch = task.waitEpoch := congrArg Badge.epoch hbadge
  have hnone : s.task.resume = none := (congrArg Badge.resume hbadge).trans h.ready
  have htick : m.tick.machine = s'.park := by
    have hadv : (m.turn task).advance = (some .blocked, s') := by
      rw [h.advance_eq, Turn.perform, hblock]
      rfl
    rw [tick_ends h.running hadv]
    rfl
  -- The operands have been popped by now, which is nothing to the net.
  have hsound' := hrun.sound hsound
  obtain ⟨hpark, hnet⟩ := hw.parked hgood hnone
  rw [htick, ← hid, ← hepoch]
  refine ⟨hpark, (hw.step hgood hnone).sound hsound', ?_⟩
  rw [hnet]
  refine Net.Waiting.of_park hsound' (hnone ▸ s.wait_task) fun k hk => ?_
  obtain ⟨c, hc, -⟩ := hw.idle k hk
  exact (Array.getElem?_eq_some_iff.mp hc).1

end Selects

/-- Picking up what a select has come to leaves it on the stack. -/
theorem tick_selected {index : Nat} {v : Value} (hr : m.running = some task)
    (h : task.resume = some (.selected index v)) : m.tick =
      { machine := { m with running := some { task with
          resume := none, stack := (task.stack.push v).push (.ofInt index) } }
        acts := [.resumed task.id (.selected index v)] } := by
  unfold tick Turn.advance
  rw [hr]
  dsimp only
  rw [show (m.turn task).task.resume = some (.selected index v) from h]
  rfl

/-- Picking up a failure throws it. -/
theorem advance_error {e : RuntimeError} (h : task.resume = some (.error e)) :
    (m.turn task).advance = Turn.unwind { m.turn task with
      acts := [.resumed task.id (.error e)], task := { task with resume := none } } (.error e) := by
  rw [Turn.advance_action (Turn.action_resume (s := m.turn task) h)]
  rfl

/-- **A select takes effect once.** When it is executed, one case takes place and its value and
index are on the stack, or the default's are and no channel has changed, or the case is a send
that fails because its channel is closed, or the task is parked with all cases. From then on it
is one case, if any, that is met, which decides the index. With that all others are dead,
whatever happens, and what the task goes on with is what this case has come to: a value sent or
received, or that the channel of the case is closed. -/
theorem Run.selects_once (ht : ∀ f ∈ hosts, f.Tame)
    (hc : ∀ c ∈ h.channels, ∃ n, c = Channel.ofCapacity n)
    (hr : Run (roomy · = true) (create hosts h id config dice) hist m)
    (hs : m.Selects task cases hasDefault s) (hfit : m.fits = true) :
    s.heap = m.heap ∧ s.acts = [] ∧ Selected cases hasDefault s (step (m.turn task)) ∧
    ∀ s', step (m.turn task) = .ok .block s' →
      ∀ hist' m', Run (roomy · = true) m.tick.machine hist' m' →
        m'.Decided cases task.id task.waitEpoch hist' ∧
        ∀ task', m'.running = some task' →
          (∀ index v, task'.resume = some (.selected index v) →
            m'.tick.machine.running = some { task' with
              resume := none, stack := (task'.stack.push v).push (.ofInt index) } ∧
            m'.tick.acts = [.resumed task'.id (.selected index v)]) ∧
          ∀ e, task'.resume = some (.error e) →
            (m'.turn task').advance = Turn.unwind { m'.turn task' with
              acts := [.resumed task'.id (.error e)]
              task := { task' with resume := none } } (.error e) := by
  obtain ⟨hgood, hsound, -⟩ := hr.reached ht hc
  refine ⟨hs.reads.heap, hs.reads.acts, hs.selected hfit, fun s' hblock hist' m' hr' => ⟨?_, ?_⟩⟩
  · have hsel := hs.selected hfit
    rw [hblock] at hsel
    cases hsel with
    | parked hd hnone hw =>
      obtain ⟨hgood', hsound', hwait⟩ := hs.parked hgood hsound hblock hw
      obtain ⟨hgood'', hrun⟩ := hr'.good hgood'
      exact decided_of_fate hgood'' (hrun.fate hsound' hwait) fun ch hch => hrun.shut (.inr hch)
  · intro task' hrunning
    refine ⟨fun index v hres => ?_, fun e hres => advance_error hres⟩
    rw [tick_selected hrunning hres]
    exact ⟨rfl, rfl⟩

/-- The main task waits to receive from a channel or to send on it, and another receives. -/
def either : Heap where
  channels := #[.ofCapacity 0]
  closures := #[{ template := 0 }]
  templates := #[{ name := "other", chunk := 1 }]
  chunks := #[
    { code := assemble [(.constant, [0, 0]), (.spawn, [0]), (.pop, []), (.constant, [0, 1]),
        (.constant, [0, 1]), (.pushTrue, []), (.select, [2, 0, 0, 1]), (.ret, [])]
      constants := #[.closure 0, .channel 0] },
    { code := assemble [(.constant, [0, 0]), (.channelRecv, []), (.ret, [])]
      constants := #[.channel 0] }]

/-- It is the send that takes effect. -/
theorem either_sends : ∃ hist m task s s' hist' m',
    Run (roomy · = true) (create #[] either 0 {} {}) hist m ∧
    m.Selects task [.receive 0, .send 0 (.bool true)] false s ∧
    step (m.turn task) = .ok .block s' ∧
    Run (roomy · = true) m.tick.machine hist' m' ∧
    m'.Decided [.receive 0, .send 0 (.bool true)] task.id task.waitEpoch hist' ∧
    .resumed task.id (.selected 1 .nil) ∈ hist' := by
  have hrun : ((tickFor roomy 7 ((create #[] either 0 {} {}).load 0).2 []).any fun r =>
      r.2.fits && r.2.select?.any fun x =>
        decide (x.2.1 = [.receive 0, .send 0 (.bool true)] ∧ x.2.2.1 = false ∧
          (r.2.turn x.1).advance.1 = some .blocked) &&
        (tickFor roomy 6 r.2.tick.machine []).any fun r' =>
          decide (.resumed x.1.id (.selected 1 .nil) ∈ r'.1)) = true := by
    decide +kernel
  obtain ⟨⟨hist, m⟩, hticks, hp⟩ := (Option.any_eq_true _ _).mp hrun
  obtain ⟨hfit, hp⟩ := Bool.and_eq_true_iff.mp hp
  obtain ⟨⟨task, cases, hasDefault, s⟩, hsel, hp⟩ := (Option.any_eq_true _ _).mp hp
  obtain ⟨hknown, hp⟩ := Bool.and_eq_true_iff.mp hp
  obtain ⟨rfl, rfl, hblock⟩ := of_decide_eq_true hknown
  obtain ⟨⟨hist', m'⟩, hticks', hmem⟩ := (Option.any_eq_true _ _).mp hp
  have hs := selects_of_select? hsel
  rw [hs.advance_eq] at hblock
  obtain ⟨s', hstep⟩ := Turn.perform_blocked hblock
  have hr := run_of_tickFor (Run.refl.tail (.load rfl 0)) hticks
  have hr' := run_of_tickFor .refl hticks'
  have hfresh : ∀ c ∈ either.channels, ∃ n, c = Channel.ofCapacity n := by
    intro c hc
    exact ⟨0, by simpa [either] using hc⟩
  obtain ⟨-, -, -, hdecided⟩ := Run.selects_once (by simp) hfresh hr hs hfit
  exact ⟨hist, m, task, s, s', hist', m', hr, hs, hstep, hr', (hdecided s' hstep hist' m' hr').1,
    of_decide_eq_true hmem⟩

end Machine

end TaskVm
