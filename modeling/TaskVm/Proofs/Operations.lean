import TaskVm.Proofs.Parking

/-!
# Operations on channels

Every instruction either leads on, followed by the net, or leaves its task waiting for all
that it asked for. Which of the two it is cannot be told from the outcome alone: an operation
that has lined up may still fail, for want of room on the operand stack.
-/

namespace TaskVm

open Exec Relation

/-- A computation leads on, or its task waits. -/
inductive Settles (x : Exec Flow) (s : Turn) : Prop where
  | goes (h : Leads Follows x s) (hb : ∀ s', x s ≠ .ok .block s')
  | waits {s₁ s' : Turn} {op : Operation} (h : Changes s s₁) (hx : x s = .ok .block s')
      (hw : Waits op s₁ s')

theorem settles_bind {α : Type} {x : Exec α} {f : α → Exec Flow} {s : Turn}
    (hx : Leads Changes x s) (hf : ∀ a s', x s = .ok a s' → Settles (f a) s') :
    Settles (x >>= f) s := by
  cases h : x s with
  | error e s' =>
    refine .goes ?_ fun s'' hb => ?_
    · rw [Leads, endState_error (bind_error h)]
      have hx' := hx.follows
      rwa [Leads, endState_error h] at hx'
    · rw [bind_error h] at hb
      cases hb
  | ok a s' =>
    have hxs : Changes s s' := hx.of_ok h
    cases hf a s' h with
    | goes hf hb =>
      refine .goes ?_ fun s'' h' => ?_
      · rw [Leads, endState_bind_ok h]
        exact trans_of Follows (follows_of_changes hxs) hf
      · rw [bind_ok h] at h'
        exact hb s'' h'
    | waits h' hx' hw => exact .waits (hxs.trans h') ((bind_ok h).trans hx') hw

namespace Settles

variable {x : Exec Flow} {s s' : Turn}

theorem of_ok {flow : Flow} (h : x s = .ok flow s') (hne : flow ≠ .block) (hf : Follows s s') :
    Settles x s := by
  refine .goes ?_ fun s'' hb => ?_
  · rw [Leads, endState_ok h]
    exact hf
  · rw [h] at hb
    injection hb with hflow
    exact hne hflow

theorem of_error {e : Fault} (h : x s = .error e s') (hf : Follows s s') : Settles x s := by
  refine .goes ?_ fun s'' hb => ?_
  · rw [Leads, endState_error h]
    exact hf
  · rw [h] at hb
    cases hb

end Settles

variable {s : Turn}

/-- The running task is not in a wait. -/
theorem Turn.begin_follows (s : Turn) (op : Operation) :
    Follows s { s with acts := s.acts ++ [.began s.task.id op] } :=
  fun hs => ⟨hs, _, rfl, (Net.Step.begin s.wait_task rfl op).run⟩

theorem Exec.begin_apply (s : Turn) (op : Operation) :
    begin op s = .ok ⟨⟩ { s with acts := s.acts ++ [.began s.task.id op] } := rfl

/-! ## Sending and receiving -/

namespace Exec

variable {id : ChannelId} {v : Value}

/-- A channel with nobody in line to receive, as an operation that has looked leaves it. -/
theorem net_idle (hid : id < s.heap.channels.size) {k : Claim} (hk : k.channel = id)
    (hopen : (s.heap.channel id).closed = false)
    (hlines : match k.offer with
      | none => (s.heap.channel id).buffer = [] ∧
          (s.heap.channel id).senders.filter (fun x => s.crew.live x.1) = []
      | some _ => (s.heap.channel id).capacity ≤ (s.heap.channel id).buffer.length ∧
          (s.heap.channel id).receivers.filter s.crew.live = []) :
    ∃ c, s.net.channels[k.channel]? = some c ∧ k.Idle c := by
  subst hk
  refine ⟨_, Turn.net_channel hid, hopen, ?_⟩
  cases h : k.offer with
  | none =>
    rw [h] at hlines
    exact hlines
  | some v =>
    rw [h] at hlines
    exact hlines

/-- Lining up at a channel after having looked in vain. -/
theorem waits_single (hs : s.Good) (op : Operation) {k : Claim} (hop : op.claims = [k])
    (hid : k.channel < s.heap.channels.size) {c : Channel}
    (hlook : c.prune s.crew.live = (s.heap.channel k.channel).prune s.crew.live)
    (hsub : ∀ w ∈ c.waiters, w ∈ (s.heap.channel k.channel).waiters)
    (hidle : ∃ c, s.net.channels[k.channel]? = some c ∧ k.Idle c)
    (hcase : k.case = none) :
    let s₂ : Turn := { s with
      heap := s.heap.setChannel k.channel c
      acts := s.acts ++ [.began s.task.id op] }
    Waits op s (endState (park s.crew.live k.channel (s.task.waiter none) k.offer) s₂) := by
  intro s₂
  have hc := Turn.channel_getElem? hid
  have hown : s.task.waiter none = k.waiter s.task.id s.task.waitEpoch := by
    rw [Claim.waiter, hcase]
    rfl
  have hlive : ∀ w ∈ (s.heap.channel k.channel).waiters,
      s.crew.live w = (w.isOf s.task.id s.task.waitEpoch || s.crew.live w) :=
    fun w hw => (Turn.live_own hs (Turn.channel_mem hid) hw).symm
  refine ⟨?_, ?_, ?_⟩
  · rw [hop]
    simp only [List.map_cons, List.map_nil, Claim.act, ← hown]
    show endState (park _ _ _ _) s₂ = { s with
      heap := { s.heap with channels := _ }
      acts := s.acts ++ [.began s.task.id op, .parked k.channel (s.task.waiter none) k.offer] }
    rw [List.append_cons]
    rfl
  · rw [hop]
    intro k' hk'
    rw [List.mem_singleton.mp hk']
    exact hidle
  · have hsame : c.prune (fun w => w.isOf s.task.id s.task.waitEpoch || s.crew.live w) =
        (s.heap.channel k.channel).prune
          fun w => w.isOf s.task.id s.task.waitEpoch || s.crew.live w := by
      rw [← Channel.prune_congr hlive, ← hlook]
      exact (Channel.prune_congr fun w hw => hlive w (hsub w hw)).symm
    have hclear : Lined _ s.task.id s.task.waitEpoch [] s.heap.channels _ :=
      Lined.cleared hc hsame hsub
    have hc' : (s.heap.channels.setIfInBounds k.channel c)[k.channel]? = some c :=
      Array.getElem?_setIfInBounds_self_of_lt hid
    have hline := Channel.line_up (fun w hw => hlive w (hsub w hw)) s.task.id s.task.waitEpoch k
      (by simp [Waiter.isOf, Claim.waiter])
    -- The dead are dropped by looking and again by lining up, which makes no difference.
    have hboth := hclear.trans (Lined.single hc' hline.1 hline.2)
    rw [List.nil_append] at hboth
    rw [hop]
    have hchannel : s₂.heap.channel k.channel = c := by
      show (s.heap.channels.setIfInBounds k.channel c).getD k.channel _ = c
      rw [Array.getD_eq_getD_getElem?, hc']
      rfl
    have hend :
        (endState (park s.crew.live k.channel (s.task.waiter none) k.offer) s₂).heap.channels =
        s₂.heap.channels.setIfInBounds k.channel (match k.offer with
          | none => (s₂.heap.channel k.channel).parkReceiver s.crew.live (s.task.waiter none)
          | some v => (s₂.heap.channel k.channel).parkSender s.crew.live (s.task.waiter none) v) :=
      rfl
    rw [hend, hchannel, hown]
    exact hboth

/-- A send that is not ready lines up. -/
theorem channelSend_waits (hs : s.Good) (hid : id < s.heap.channels.size)
    (hidle : (s.heap.channel id).sendReady s.crew.live = false) :
    ∃ s', channelSend id v s = .ok .block s' ∧ Waits (.send id v) s s' := by
  let s₁ : Turn := { s with acts := s.acts ++ [.began s.task.id (.send id v)] }
  obtain ⟨ho, hfull, hf⟩ := Channel.sendReady_eq_false.mp hidle
  have hlive : liveness s₁ = s.crew.live := s.liveness_eq
  have h₂ := trySend_blocked (s := s₁) (by rw [hlive]; exact Channel.trySend_idle hidle v)
  refine ⟨_, ?_, waits_single hs (.send id v) (k := ⟨id, none, some v⟩)
    (c := { s.heap.channel id with receivers := [] }) rfl hid
    (Channel.prune_no_receivers hf) Channel.waiters_no_receivers
    (net_idle hid rfl ho ⟨hfull, hf⟩) rfl⟩
  rw [channelSend, bind_ok (begin_apply s _), bind_ok h₂]
  dsimp only
  rw [get_bind_apply, Turn.liveness_eq]
  rfl

theorem channelSend_settles (hs : s.Good) (hid : id < s.heap.channels.size) (v : Value) :
    Settles (channelSend id v) s := by
  let s₁ : Turn := { s with acts := s.acts ++ [.began s.task.id (.send id v)] }
  have hsend := leads_trySend (s := s₁) hid v
  have hbegin : Follows s s₁ := s.begin_follows _
  have hsent : ∀ {o : Option (Waiter × Value)} {s₂ : Turn}, trySend id v s₁ = .ok (.sent o) s₂ →
      Settles (channelSend id v) s := by
    intro o s₂ h₂
    have h : channelSend id v s = .ok .next { s₂ with task := s₂.task.push .nil } := by
      rw [channelSend, bind_ok (begin_apply s _), bind_ok h₂]
      rfl
    refine .of_ok h (by simp) (trans_of Follows hbegin (trans_of Follows (hsend.of_ok h₂) ?_))
    exact (ChangeIn.push .nil).follows
  -- A closed channel refuses, a receiver in line or room in the buffer takes the value at once, and
  -- otherwise the task lines up.
  rcases Channel.trySend_cases (liveness s₁) (s₁.heap.channel id) v with
    ⟨-, h⟩ | ⟨-, w, rest, -, -, -, h⟩ | ⟨-, -, -, h⟩ | ⟨ho, hf, hfull, h⟩
  · have h₂ := trySend_closed h
    refine .of_error (e := .raised .channelClosed) ?_ (trans_of Follows hbegin (hsend.of_ok h₂))
    rw [channelSend, bind_ok (begin_apply s _), bind_ok h₂]
    rfl
  · exact hsent (trySend_handed h)
  · exact hsent (trySend_stored h)
  · rw [Turn.liveness_eq] at hf
    obtain ⟨s', hx, hw⟩ := channelSend_waits hs hid (Channel.sendReady_eq_false.mpr ⟨ho, hfull, hf⟩)
    exact .waits .refl hx hw

/-- A receive that is not ready lines up. -/
theorem channelReceive_waits (hs : s.Good) (hid : id < s.heap.channels.size)
    (hidle : (s.heap.channel id).receiveReady s.crew.live = false) :
    ∃ s', channelReceive id s = .ok .block s' ∧ Waits (.receive id) s s' := by
  let s₁ : Turn := { s with acts := s.acts ++ [.began s.task.id (.receive id)] }
  obtain ⟨ho, hb, hf⟩ := Channel.receiveReady_eq_false.mp hidle
  have hlive : liveness s₁ = s.crew.live := s.liveness_eq
  have h₂ := tryReceive_blocked (s := s₁) (by rw [hlive]; exact Channel.tryReceive_idle hidle)
  refine ⟨_, ?_, waits_single hs (.receive id) (k := ⟨id, none, none⟩)
    (c := { s.heap.channel id with senders := [] }) rfl hid
    (Channel.prune_no_senders hf) Channel.waiters_no_senders
    (net_idle hid rfl ho ⟨hb, hf⟩) rfl⟩
  rw [channelReceive, bind_ok (begin_apply s _), bind_ok h₂]
  dsimp only
  rw [get_bind_apply, Turn.liveness_eq]
  rfl

theorem channelReceive_settles (hs : s.Good) (hid : id < s.heap.channels.size) :
    Settles (channelReceive id) s := by
  let s₁ : Turn := { s with acts := s.acts ++ [.began s.task.id (.receive id)] }
  have hreceive := leads_tryReceive (s := s₁) hid
  have hbegin : Follows s s₁ := s.begin_follows _
  have hpush : ∀ {o : ReceiveOutcome} {s₂ : Turn} {v : Value}, tryReceive id s₁ = .ok o s₂ →
      channelReceive id s = .ok .next { s₂ with task := s₂.task.push v } →
      Settles (channelReceive id) s := by
    intro o s₂ v h₂ h
    refine .of_ok h (by simp) (trans_of Follows hbegin (trans_of Follows (hreceive.of_ok h₂) ?_))
    exact (ChangeIn.push v).follows
  have hreceived : ∀ {v : Value} {w : Option Waiter} {s₂ : Turn},
      tryReceive id s₁ = .ok (.received v w) s₂ → Settles (channelReceive id) s := by
    intro v w s₂ h₂
    refine hpush (v := v) h₂ ?_
    rw [channelReceive, bind_ok (begin_apply s _), bind_ok h₂]
    rfl
  -- Four of the five outcomes are over at once; the last lines the task up, with those in line no
  -- longer waiting pruned away.
  rcases Channel.tryReceive_cases (liveness s₁) (s₁.heap.channel id) with
    ⟨v, buffer, -, -, h⟩ | ⟨v, buffer, w, u, rest, -, -, -, -, h⟩ |
    ⟨w, v, rest, -, -, -, -, h⟩ | ⟨-, -, -, h⟩ | ⟨hb, hf, ho, h⟩
  · exact hreceived (tryReceive_taken h)
  · exact hreceived (tryReceive_handed h)
  · exact hreceived (tryReceive_handed h)
  · have h₂ := tryReceive_closed h
    refine hpush (v := .nil) h₂ ?_
    rw [channelReceive, bind_ok (begin_apply s _), bind_ok h₂]
    rfl
  · rw [Turn.liveness_eq] at hf
    obtain ⟨s', hx, hw⟩ := channelReceive_waits hs hid
      (Channel.receiveReady_eq_false.mpr ⟨ho, hb, hf⟩)
    exact .waits .refl hx hw

/-! ## Selecting -/

/-- The index that a select draws among those of the cases that are ready. -/
def drawn (s : Turn) (cases : List SelectCase) : Nat :=
  let ready := SelectCase.readyIndices s.heap (liveness s) cases
  ready.getD (s.vm.dice.roll ready.length).1 0

/-- The case drawn takes place, if there is one that is ready. -/
theorem selectReady_cases (s : Turn) (cases : List SelectCase) :
    ((∀ case ∈ cases, case.isReady s.heap s.crew.live = false) ∧
      selectReady cases s = .ok none s) ∨
    ∃ case dice, cases[drawn s cases]? = some case ∧
      case.isReady s.heap s.crew.live = true ∧
      selectReady cases s = (do
        match ← tryCase case with
        | some v => pure (some (v, drawn s cases))
        | none => pure none) { s with vm := { s.vm with dice } } := by
  have hready : ∀ i, i ∈ SelectCase.readyIndices s.heap s.crew.live cases ↔
      ∃ case, cases[i]? = some case ∧ case.isReady s.heap s.crew.live = true := by
    intro i
    simp only [SelectCase.readyIndices, List.mem_map, List.mem_filter, Prod.exists,
      exists_eq_right, List.mem_zipIdx_iff_getElem?]
  unfold drawn
  rw [← Turn.liveness_eq] at hready ⊢
  cases hr : SelectCase.readyIndices s.heap (liveness s) cases with
  | nil =>
    refine .inl ⟨fun case hcase => ?_, ?_⟩
    · obtain ⟨i, hi⟩ := List.mem_iff_getElem?.mp hcase
      cases hcr : case.isReady s.heap (liveness s) with
      | false => rfl
      | true =>
        have := (hready i).mpr ⟨case, hi, hcr⟩
        rw [hr] at this
        cases this
    · rw [selectReady, get_bind_apply, hr]
      rfl
  | cons i rest =>
    -- Whatever the dice say, what is drawn is one of the cases that are ready.
    let drawn := s.vm.dice.roll (i :: rest).length
    have hlt : drawn.1 < (i :: rest).length := Dice.roll_lt _ (Nat.succ_pos _)
    have hmem : (i :: rest).getD drawn.1 0 ∈ SelectCase.readyIndices s.heap (liveness s) cases := by
      rw [hr, List.getD_eq_getElem?_getD, List.getElem?_eq_getElem hlt]
      exact List.getElem_mem hlt
    obtain ⟨case, hcase, hcr⟩ := (hready _).mp hmem
    refine .inr ⟨case, drawn.2, hcase, hcr, ?_⟩
    have hdraw : drawCase (i :: rest) s = .ok ((i :: rest).getD drawn.1 0)
        { s with vm := { s.vm with dice := drawn.2 } } := rfl
    rw [selectReady, get_bind_apply]
    dsimp only
    rw [hr]
    dsimp only [List.isEmpty_cons]
    rw [if_neg Bool.false_ne_true, bind_ok hdraw]
    revert hcase
    generalize cases[(i :: rest).getD drawn.1 0]? = drawnCase
    rintro rfl
    rfl

theorem leads_tryCase {case : SelectCase} (hid : case.channel < s.heap.channels.size) :
    Leads Follows (tryCase case) s := by
  unfold tryCase
  cases case with
  | receive id =>
    refine leads_bind (leads_tryReceive hid) fun o s _ => ?_
    cases o <;> exact leads_pure _ s
  | send id v =>
    refine leads_bind (leads_trySend hid v) fun o s _ => ?_
    cases o
    case closed => exact leads_throw _ s
    all_goals exact leads_pure _ s

/-- An attempt to receive that would block was made where the channel was not ready. -/
theorem receiveReady_of_wouldBlock {id : ChannelId} {s' : Turn}
    (h : tryReceive id s = .ok .wouldBlock s') :
    (s.heap.channel id).receiveReady (liveness s) = false := by
  rcases Channel.tryReceive_cases (liveness s) (s.heap.channel id) with
    ⟨v, buffer, -, -, h'⟩ | ⟨v, buffer, w, u, rest, -, -, -, -, h'⟩ |
    ⟨w, v, rest, -, -, -, -, h'⟩ | ⟨-, -, -, h'⟩ | ⟨hb, hf, ho, -⟩
  · cases (tryReceive_taken h').symm.trans h
  · cases (tryReceive_handed h').symm.trans h
  · cases (tryReceive_handed h').symm.trans h
  · cases (tryReceive_closed h').symm.trans h
  · exact Channel.receiveReady_eq_false.mpr ⟨ho, hb, hf⟩

/-- So it is for an attempt to send. -/
theorem sendReady_of_wouldBlock {id : ChannelId} {v u : Value} {s' : Turn}
    (h : trySend id v s = .ok (.wouldBlock u) s') :
    (s.heap.channel id).sendReady (liveness s) = false := by
  rcases Channel.trySend_cases (liveness s) (s.heap.channel id) v with
    ⟨-, h'⟩ | ⟨-, w, rest, -, -, -, h'⟩ | ⟨-, -, -, h'⟩ | ⟨ho, hf, hfull, -⟩
  · cases (trySend_closed h').symm.trans h
  · cases (trySend_handed h').symm.trans h
  · cases (trySend_stored h').symm.trans h
  · exact Channel.sendReady_eq_false.mpr ⟨ho, hfull, hf⟩

/-- A case that is ready takes place, or it fails. -/
theorem tryCase_ready {case : SelectCase} (h : case.isReady s.heap s.crew.live = true)
    (s' : Turn) : tryCase case s ≠ .ok none s' := by
  rw [← Turn.liveness_eq] at h
  intro hnone
  cases case with
  | receive id =>
    obtain ⟨o, s₁, h₁, h₂⟩ := bind_eq_ok.mp hnone
    cases o with
    | received | closed => cases h₂
    | wouldBlock => exact Bool.false_ne_true ((receiveReady_of_wouldBlock h₁).symm.trans h)
  | send id v =>
    obtain ⟨o, s₁, h₁, h₂⟩ := bind_eq_ok.mp hnone
    cases o with
    | sent | closed => cases h₂
    | wouldBlock => exact Bool.false_ne_true ((sendReady_of_wouldBlock h₁).symm.trans h)

/-- A case that is not ready cannot be met. -/
theorem idle_of_not_ready {case : SelectCase} (index : Nat)
    (hid : case.channel < s.heap.channels.size)
    (h : case.isReady s.heap s.crew.live = false) :
    ∃ c, s.net.channels[(Claim.ofCase (case, index)).channel]? = some c ∧
      (Claim.ofCase (case, index)).Idle c := by
  cases case with
  | receive id =>
    obtain ⟨ho, hb, hf⟩ := Channel.receiveReady_eq_false.mp h
    exact net_idle hid rfl ho ⟨hb, hf⟩
  | send id v =>
    obtain ⟨ho, hfull, hf⟩ := Channel.sendReady_eq_false.mp h
    exact net_idle hid rfl ho ⟨hfull, hf⟩

/-- Lining up for one case after the other. -/
theorem parkCases_lined : ∀ (cases : List (SelectCase × Nat)) (s : Turn),
    (∀ case ∈ cases, case.1.channel < s.heap.channels.size) →
    let s' := endState (parkCases cases) s
    parkCases cases s = .ok ⟨⟩ s' ∧
    s' = { s with
      heap := { s.heap with channels := s'.heap.channels }
      acts := s.acts ++
        cases.map fun case => (Claim.ofCase case).act s.task.id s.task.waitEpoch } ∧
    Lined (fun w => w.isOf s.task.id s.task.waitEpoch || s.crew.live w) s.task.id
      s.task.waitEpoch (cases.map Claim.ofCase) s.heap.channels s'.heap.channels
  | [], s, _ => by
    refine ⟨rfl, ?_, Lined.refl⟩
    rw [List.map_nil, List.append_nil]
    rfl
  | (case, index) :: rest, s, hids => by
    -- The waiters that the task has lined up so far count as live, though it is not parked yet.
    let live : Waiter → Bool := fun w => w.isOf s.task.id s.task.waitEpoch || s.crew.live w
    let k := Claim.ofCase (case, index)
    have hid : k.channel < s.heap.channels.size := by
      have := hids _ List.mem_cons_self
      cases case <;> exact this
    let s₁ : Turn := { s with
      heap := s.heap.setChannel k.channel (match k.offer with
        | none => (s.heap.channel k.channel).parkReceiver live (k.waiter s.task.id s.task.waitEpoch)
        | some v =>
          (s.heap.channel k.channel).parkSender live (k.waiter s.task.id s.task.waitEpoch) v)
      acts := s.acts ++ [k.act s.task.id s.task.waitEpoch] }
    have hsize : s₁.heap.channels.size = s.heap.channels.size := Array.size_setIfInBounds
    -- Who counts as live is the same for each case, though the lines change.
    have hcrew : s₁.crew = s.crew := Turn.crew_eq rfl rfl rfl rfl rfl
    have hstep : parkCases ((case, index) :: rest) s = parkCases rest s₁ := by
      have hown : (fun w : Waiter => w.task == s.task.id && w.epoch == s.task.waitEpoch ||
          liveness s w) = live := by
        funext w
        rw [Turn.liveness_eq]
        rfl
      cases case <;>
      · rw [parkCases, get_bind_apply]
        dsimp only
        rw [hown]
        rfl
    obtain ⟨hok, hframe, hlined⟩ := parkCases_lined rest s₁ fun c hc => by
      rw [hsize]
      exact hids c (List.mem_cons_of_mem _ hc)
    have hend : endState (parkCases ((case, index) :: rest)) s = endState (parkCases rest) s₁ := by
      rw [endState, hstep, endState]
    rw [hcrew] at hlined
    refine ⟨?_, ?_, ?_⟩
    · rw [hend, hstep, hok]
    · rw [hend, hframe, List.map_cons, List.append_cons]
      rfl
    · rw [hend]
      have hsame : ∀ w ∈ (s.heap.channel k.channel).waiters, live w = live w := fun _ _ => rfl
      have hline := Channel.line_up hsame s.task.id s.task.waitEpoch k
        (by simp [live, Waiter.isOf, Claim.waiter])
      exact (Lined.single (Turn.channel_getElem? hid) hline.1 hline.2).trans hlined

/-- A select with no case that is ready lines up with all of them. -/
theorem select_waits {cases : List SelectCase}
    (hids : ∀ case ∈ cases, case.channel < s.heap.channels.size)
    (hnone : ∀ case ∈ cases, case.isReady s.heap s.crew.live = false)
    (hx : select cases false s = (do parkCases cases.zipIdx; pure Flow.block)
      { s with acts := s.acts ++ [Act.began s.task.id (.select cases false)] }) :
    ∃ s', select cases false s = .ok .block s' ∧ Waits (.select cases false) s s' := by
  let s₁ : Turn := { s with acts := s.acts ++ [.began s.task.id (.select cases false)] }
  have hcrew : s₁.crew = s.crew := Turn.crew_eq rfl rfl rfl rfl rfl
  obtain ⟨hok, hframe, hlined⟩ := parkCases_lined cases.zipIdx s₁ fun c hc =>
    hids c.1 (List.fst_mem_of_mem_zipIdx hc)
  refine ⟨endState (parkCases cases.zipIdx) s₁, ?_, ?_, fun k hk => ?_, ?_⟩
  · rw [hx, bind_ok hok]
    rfl
  · rw [hframe, Operation.claims, List.map_map, List.append_cons]
    rfl
  · obtain ⟨⟨case, index⟩, hmem, rfl⟩ := List.mem_map.mp hk
    have hcase := List.fst_mem_of_mem_zipIdx hmem
    exact idle_of_not_ready index (hids case hcase) (hnone case hcase)
  · rw [hcrew] at hlined
    exact hlined

/-- What a select does, by whether there is a case that is ready. -/
theorem select_cases (s : Turn) (cases : List SelectCase) (hasDefault : Bool) :
    let s₁ : Turn := { s with acts := s.acts ++ [.began s.task.id (.select cases hasDefault)] }
    ((∀ case ∈ cases, case.isReady s.heap s.crew.live = false) ∧
      select cases hasDefault s = if hasDefault
        then .ok .next { s₁ with task := (s.task.push .nil).push (.ofInt (-1)) }
        else (do parkCases cases.zipIdx; pure Flow.block) s₁) ∨
    ∃ (case : SelectCase) (dice : Dice),
      cases[drawn s cases]? = some case ∧ case.isReady s.heap s.crew.live = true ∧
      let s₂ : Turn := { s₁ with vm := { s.vm with dice } }
      (∃ v s₃, tryCase case s₂ = .ok (some v) s₃ ∧ select cases hasDefault s =
        .ok .next { s₃ with task := (s₃.task.push v).push (.ofInt (drawn s cases)) }) ∨
      ∃ e s₃, tryCase case s₂ = .error e s₃ ∧ select cases hasDefault s = .error e s₃ := by
  intro s₁
  have hcrew : s₁.crew = s.crew := Turn.crew_eq rfl rfl rfl rfl rfl
  -- Readiness is asked after the act is recorded, which changes neither a channel nor who is
  -- waiting.
  rcases selectReady_cases s₁ cases with ⟨hnone, hx⟩ | ⟨case, dice, hcase, hready, hx⟩
  · rw [hcrew] at hnone
    refine .inl ⟨hnone, ?_⟩
    rw [select, bind_ok (begin_apply s _), bind_ok hx]
    cases hasDefault <;> rfl
  · let s₂ : Turn := { s₁ with vm := { s.vm with dice } }
    rw [hcrew] at hready
    have hready' : case.isReady s₂.heap s₂.crew.live = true := by
      rw [show s₂.crew = s.crew from Turn.crew_eq rfl rfl rfl rfl rfl]
      exact hready
    refine .inr ⟨case, dice, hcase, hready, ?_⟩
    cases ht : tryCase case s₂ with
    | ok r s₃ =>
      cases r with
      | none => exact absurd ht (tryCase_ready hready' s₃)
      | some v =>
        have hsel : selectReady cases s₁ = .ok (some (v, drawn s cases)) s₃ := by
          rw [hx, bind_ok ht]
          rfl
        refine .inl ⟨v, s₃, ht, ?_⟩
        rw [select, bind_ok (begin_apply s _), bind_ok hsel]
        rfl
    | error e s₃ =>
      have hsel : selectReady cases s₁ = .error e s₃ := by
        rw [hx, bind_error ht]
      refine .inr ⟨e, s₃, ht, ?_⟩
      rw [select, bind_ok (begin_apply s _), bind_error hsel]

theorem select_settles {cases : List SelectCase}
    (hids : ∀ case ∈ cases, case.channel < s.heap.channels.size) (hasDefault : Bool) :
    Settles (select cases hasDefault) s := by
  have hbegin := s.begin_follows (.select cases hasDefault)
  have hpush : ∀ {s₂ : Turn} (v : Value) (i : Int), Follows s s₂ →
      Follows s { s₂ with task := (s₂.task.push v).push (.ofInt i) } := fun v i hf =>
    trans_of Follows hf
      (follows_of_changes ((ChangeIn.push v).changes.tail (.push (.ofInt i))))
  rcases select_cases s cases hasDefault with
    ⟨hnone, hx⟩ | ⟨case, dice, hcase, -, htry⟩
  · cases hasDefault with
    | true => exact .of_ok hx (by simp) (hpush .nil (-1) hbegin)
    | false =>
      obtain ⟨s', hx', hw⟩ := select_waits hids hnone hx
      exact .waits .refl hx' hw
  · let s₂ : Turn := { s with
      acts := s.acts ++ [.began s.task.id (.select cases hasDefault)]
      vm := { s.vm with dice } }
    have hdice : Follows s s₂ :=
      trans_of Follows hbegin (ChangeIn.vm (.count _ _ _)).follows
    have hlead : Leads Follows (tryCase case) s₂ :=
      leads_tryCase (hids case (List.mem_of_getElem? hcase))
    rcases htry with ⟨v, s₃, ht, hx⟩ | ⟨e, s₃, ht, hx⟩
    · exact .of_ok hx (by simp) (hpush v _ (trans_of Follows hdice (hlead.of_ok ht)))
    · rw [Leads, endState_error ht] at hlead
      exact .of_error hx (trans_of Follows hdice hlead)

/-! ## Operands -/

/-- Nothing but the task itself and the counters of the machine has changed. -/
structure Reads (s s' : Turn) : Prop where
  heap : s'.heap = s.heap
  acts : s'.acts = s.acts

instance : IsPreorder Turn Reads where
  refl _ := ⟨rfl, rfl⟩
  trans _ _ _ hab hbc := ⟨hbc.heap.trans hab.heap, hbc.acts.trans hab.acts⟩

theorem reads_ofExcept {α : Type} (x : Except RuntimeError α) (s : Turn) :
    Leads Reads (Exec.ofExcept x) s := by
  cases x with
  | ok a => exact leads_pure a s
  | error e => exact leads_throw _ s

theorem reads_pop (s : Turn) : Leads Reads pop s := by
  cases hv : s.task.stack.back? with
  | none =>
    have he : onTask Task.pop s = .error (.raised s.task.underflow) s :=
      onTask_error s (by rw [Task.pop, hv])
    exact leads_of_error (bind_error he)
  | some v => exact leads_of_ok (pop_ok s hv) ⟨rfl, rfl⟩

theorem reads_popChannel (s : Turn) : Leads Reads popChannel s :=
  leads_bind (reads_pop s) fun _ s _ => leads_get_bind (reads_ofExcept _ s)

theorem reads_popCases : ∀ (kinds : List Nat) (s : Turn), Leads Reads (popCases kinds) s
  | [], s => leads_pure _ s
  | kind :: kinds, s => by
    unfold popCases
    dsimp only
    split
    · refine leads_bind (reads_pop s) fun _ s _ => leads_bind (reads_popChannel s) fun _ s _ => ?_
      refine leads_bind (leads_pure _ s) fun _ s _ => ?_
      exact leads_bind (reads_popCases kinds s) fun _ s _ => leads_pure _ s
    · refine leads_bind (reads_popChannel s) fun _ s _ => ?_
      refine leads_bind (leads_pure _ s) fun _ s _ => ?_
      exact leads_bind (reads_popCases kinds s) fun _ s _ => leads_pure _ s

theorem reads_modifyTask (f : Task → Task) (s : Turn) : Leads Reads (modifyTask f) s :=
  (⟨rfl, rfl⟩ : Reads s { s with task := f s.task })

theorem reads_readByte (s : Turn) : Leads Reads readByte s := by
  unfold readByte
  refine leads_bind (reads_ofExcept _ s) fun f s _ => leads_get_bind ?_
  refine leads_bind (reads_ofExcept _ s) fun r s _ => ?_
  exact leads_bind (reads_modifyTask _ s) fun _ s _ => leads_pure _ s

theorem reads_readBytes : ∀ (n : Nat) (s : Turn), Leads Reads (readBytes n) s
  | 0, s => leads_pure _ s
  | n + 1, s => leads_bind (reads_readByte s) fun _ s _ =>
      leads_bind (reads_readBytes n s) fun _ s _ => leads_pure _ s

theorem reads_selectOperands (s : Turn) : Leads Reads selectOperands s :=
  leads_bind (reads_readByte s) fun _ s _ => leads_bind (reads_readByte s) fun _ s _ =>
    leads_bind (reads_readBytes _ s) fun _ s _ => leads_bind (reads_popCases _ s) fun _ s _ =>
      leads_pure _ s

theorem reads_fetch (s : Turn) : Leads Reads fetch s := by
  unfold fetch
  refine leads_bind (reads_ofExcept _ s) fun f s _ => leads_get_bind ?_
  split
  · exact leads_throw _ s
  · split
    · exact leads_throw _ s
    · exact leads_bind (reads_modifyTask _ s) fun _ s _ => leads_pure _ s

theorem reads_countInstruction (op : Opcode) (s : Turn) :
    Leads Reads (countInstruction op) s := by
  unfold countInstruction
  refine leads_bind (leads_modify ?_) fun _ s _ => leads_get_bind ?_
  · exact ⟨rfl, rfl⟩
  · dsimp only
    split
    · split
      · exact leads_throw _ s
      · exact leads_pure _ s
    · exact leads_pure _ s

/-- What is popped as a channel is one. -/
theorem popChannel_ok {s' : Turn} {id : ChannelId} (h : popChannel s = .ok id s') :
    id < s.heap.channels.size := by
  obtain ⟨v, s₁, h₁, h₂⟩ := bind_eq_ok.mp h
  rw [get_bind_apply] at h₂
  obtain ⟨hid, rfl⟩ := ofExcept_eq_ok _ h₂
  rw [← ((reads_pop s).of_ok h₁).heap]
  unfold channelOf at hid
  dsimp only at hid
  split at hid
  · split at hid
    · cases hid
      assumption
    · cases hid
  · cases hid

theorem popCases_ok : ∀ {kinds : List Nat} {s s' : Turn} {cases : List SelectCase},
    popCases kinds s = .ok cases s' → ∀ case ∈ cases, case.channel < s.heap.channels.size
  | [], s, s', cases, h => by
    cases h
    simp
  | kind :: kinds, s, s', cases, h => by
    have hrest : ∀ {case : SelectCase} {s₁ : Turn}, Reads s s₁ →
        case.channel < s.heap.channels.size →
        (do let before ← popCases kinds; pure (before ++ [case])) s₁ = .ok cases s' →
        ∀ case ∈ cases, case.channel < s.heap.channels.size := by
      intro case s₁ hs hcase h
      obtain ⟨before, s₂, h₂, h⟩ := bind_eq_ok.mp h
      cases h
      intro c hc
      rcases List.mem_append.mp hc with hc | hc
      · rw [← hs.heap]
        exact popCases_ok h₂ c hc
      · rwa [List.mem_singleton.mp hc]
    unfold popCases at h
    dsimp only at h
    split at h
    · obtain ⟨v, s₁, h₁, h⟩ := bind_eq_ok.mp h
      obtain ⟨id, s₂, h₂, h⟩ := bind_eq_ok.mp h
      have hs₁ := (reads_pop s).of_ok h₁
      have hid := popChannel_ok h₂
      rw [hs₁.heap] at hid
      exact hrest (trans_of Reads hs₁ ((reads_popChannel s₁).of_ok h₂))
        (show (SelectCase.send id v).channel < _ from hid) h
    · obtain ⟨id, s₁, h₁, h⟩ := bind_eq_ok.mp h
      exact hrest ((reads_popChannel s).of_ok h₁)
        (show (SelectCase.receive id).channel < _ from popChannel_ok h₁) h

theorem selectOperands_ok {s' : Turn} {cases : List SelectCase} {hasDefault : Bool}
    (h : selectOperands s = .ok (cases, hasDefault) s') :
    ∀ case ∈ cases, case.channel < s.heap.channels.size := by
  obtain ⟨count, s₁, h₁, h⟩ := bind_eq_ok.mp h
  obtain ⟨flags, s₂, h₂, h⟩ := bind_eq_ok.mp h
  obtain ⟨kinds, s₃, h₃, h⟩ := bind_eq_ok.mp h
  obtain ⟨cases', s₄, h₄, h⟩ := bind_eq_ok.mp h
  cases h
  have hs₃ : Reads s s₃ := trans_of Reads ((reads_readByte s).of_ok h₁)
    (trans_of Reads ((reads_readByte s₁).of_ok h₂) ((reads_readBytes count s₂).of_ok h₃))
  rw [← hs₃.heap]
  exact popCases_ok h₄

/-! ## Instructions -/

/-- A computation that is not how a task parks. -/
def NeverBlocks (x : Exec Flow) : Prop := ∀ s s', x s ≠ .ok .block s'

theorem neverBlocks_bind {α : Type} {x : Exec α} {f : α → Exec Flow}
    (hf : ∀ a, NeverBlocks (f a)) : NeverBlocks (x >>= f) := by
  intro s s' h
  obtain ⟨a, s₁, -, h⟩ := bind_eq_ok.mp h
  exact hf a s₁ s' h

theorem neverBlocks_pure {flow : Flow} (h : flow ≠ .block) : NeverBlocks (pure flow) := by
  intro s s' hb
  injection hb with hflow
  exact h hflow

theorem neverBlocks_leaveFrame (result : Value) : NeverBlocks (leaveFrame result) := by
  refine neverBlocks_bind fun s => ?_
  split
  · exact neverBlocks_pure (by simp)
  · refine neverBlocks_bind fun _ => neverBlocks_bind fun _ => neverBlocks_bind fun _ => ?_
    split
    · exact neverBlocks_pure (by simp)
    · exact neverBlocks_bind fun _ => neverBlocks_pure (by simp)

/-- Only the operations on channels park a task. -/
theorem neverBlocks_execute {op : Opcode} (hop : isChannelOp op = false) :
    NeverBlocks (execute op) := by
  cases op
  case channelSend | channelRecv | channelClose | select => nomatch hop
  all_goals
    unfold execute
    dsimp only
    repeat' first
      | with_reducible exact neverBlocks_pure (by simp)
      | with_reducible exact neverBlocks_leaveFrame _
      | with_reducible refine neverBlocks_bind fun _ => ?_
      | split

theorem goes_of_never {x : Exec Flow} (h : Leads Follows x s) (hb : NeverBlocks x) :
    Settles x s := .goes h (hb s)

/-- **What an instruction on channels comes to.** -/
theorem channelOp_settles (hs : s.Good) {op : Opcode} (hop : isChannelOp op = true) :
    Settles (execute op) s := by
  have hgood : ∀ {s' : Turn}, Changes s s' → s'.Good := fun h => (follows_of_changes h hs).1
  cases op
  case channelSend =>
    refine settles_bind (leads_pop s) fun v s₁ h₁ => ?_
    refine settles_bind (leads_popChannel s₁) fun id s₂ h₂ => ?_
    have hc : Changes s s₂ := ((leads_pop s).of_ok h₁).trans ((leads_popChannel s₁).of_ok h₂)
    have hid := popChannel_ok h₂
    rw [← ((reads_popChannel s₁).of_ok h₂).heap] at hid
    exact channelSend_settles (hgood hc) hid v
  case channelRecv =>
    refine settles_bind (leads_popChannel s) fun id s₁ h₁ => ?_
    have hid := popChannel_ok h₁
    rw [← ((reads_popChannel s).of_ok h₁).heap] at hid
    exact channelReceive_settles (hgood ((leads_popChannel s).of_ok h₁)) hid
  case channelClose =>
    refine settles_bind (leads_popChannel s) fun id s₁ h₁ => ?_
    have hid := popChannel_ok h₁
    rw [← ((reads_popChannel s).of_ok h₁).heap] at hid
    refine goes_of_never ?_ ?_
    · refine leads_bind (leads_channelClose hid) fun _ s₂ _ => ?_
      exact leads_bind (leads_push s₂ _).follows fun _ s₃ _ => leads_pure _ s₃
    · exact neverBlocks_bind fun _ => neverBlocks_bind fun _ => neverBlocks_pure (by simp)
  case select =>
    refine settles_bind (leads_selectOperands s) fun operands s₁ h₁ => ?_
    have hids := selectOperands_ok h₁
    rw [← ((reads_selectOperands s).of_ok h₁).heap] at hids
    exact select_settles hids operands.2
  all_goals nomatch hop

/-- **What an instruction comes to.** It leads on, followed by the net, or it has lined up
and leaves its task waiting. -/
theorem instruction_settles (hs : s.Good) : Settles instruction s := by
  refine settles_bind (leads_fetch s) fun op s₁ h₁ => ?_
  refine settles_bind (leads_countInstruction s₁ op) fun _ s₂ h₂ => ?_
  have hc : Changes s s₂ :=
    ((leads_fetch s).of_ok h₁).trans ((leads_countInstruction s₁ op).of_ok h₂)
  have hs₂ : s₂.Good := (follows_of_changes hc hs).1
  cases hop : isChannelOp op with
  | true => exact channelOp_settles hs₂ hop
  | false => exact goes_of_never (leads_execute s₂ hs₂.tame hop).follows (neverBlocks_execute hop)

end Exec

end TaskVm
