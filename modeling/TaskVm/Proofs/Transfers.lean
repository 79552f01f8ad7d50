import TaskVm.Proofs.Selection

/-!
# Values on their way

The ledger of a channel is about what is on record. This is what the record says about tasks: an
operation takes what it sends off the stack of its task, what a receive gets is what it leaves
there, and whoever is handed a value while it waits finds that value on its stack when it goes on.
So the order in which values are handed out is the order in which tasks get them.
-/

namespace TaskVm

open Exec Relation

/-! ## Operations and their operands -/

/-- What a case takes off the stack. -/
def SelectCase.operands : SelectCase → List Value
  | receive ch => [.channel ch]
  | send ch v => [.channel ch, v]

namespace Operation

/-- What an operation may come to. One that is not a select has a single case. -/
def cases : Operation → List SelectCase
  | send ch v => [.send ch v]
  | receive ch => [.receive ch]
  | select cases _ => cases

def operands (op : Operation) : List Value := op.cases.flatMap SelectCase.operands

/-- The stack with the value of a case on it, and in a select with its index. -/
def leave (op : Operation) (stack : Array Value) (v : Value) (index : Nat) : Array Value :=
  match op with
  | select _ _ => (stack.push v).push (.ofInt index)
  | _ => stack.push v

def exec : Operation → Exec Flow
  | send ch v => channelSend ch v
  | receive ch => channelReceive ch
  | select cases hasDefault => Exec.select cases hasDefault

/-- What an operation comes to when it is executed. -/
inductive ComesTo (op : Operation) (s : Turn) : EStateM.Result Fault Turn Flow → Prop where
  /-- A case takes place. -/
  | fired {index : Nat} {case : SelectCase} {c' : Channel} {acts : List Act} {v : Value}
      {s' : Turn} (hcase : op.cases[index]? = some case)
      (he : case.Effect (liveness s) (s.heap.channel case.channel) c' acts v)
      (hch : s'.heap.channels = s.heap.channels.setIfInBounds case.channel c')
      (ha : s'.acts = s.acts ++ .began s.task.id op :: acts)
      (ht : s'.task = { s.task with stack := op.leave s.task.stack v index }) :
      ComesTo op s (.ok .next s')
  /-- No case of a select is ready, and there is a default. -/
  | default {cases : List SelectCase} {s' : Turn} (hop : op = select cases true)
      (hnone : ∀ case ∈ cases, case.isReady s.heap (liveness s) = false)
      (hch : s'.heap.channels = s.heap.channels)
      (ha : s'.acts = s.acts ++ [.began s.task.id op])
      (ht : s'.task = { s.task with stack := (s.task.stack.push .nil).push (.ofInt (-1)) }) :
      ComesTo op s (.ok .next s')
  /-- The case is a send, and its channel is closed. -/
  | refused {ch : ChannelId} {v : Value} {s' : Turn} (hcase : .send ch v ∈ op.cases)
      (hclosed : (s.heap.channel ch).closed = true) (hch : s'.heap.channels = s.heap.channels)
      (ha : s'.acts = s.acts ++ [.began s.task.id op, .refused ch v]) :
      ComesTo op s (.error (.raised .channelClosed) s')
  /-- No case is ready, and the task waits for all of them. -/
  | parked {s' : Turn} (hnone : ∀ case ∈ op.cases, case.isReady s.heap (liveness s) = false)
      (hw : Waits op s s') : ComesTo op s (.ok .block s')

end Operation

theorem Selected.comesTo {cases : List SelectCase} {hasDefault : Bool} {s : Turn}
    {r : EStateM.Result Fault Turn Flow} (h : Selected cases hasDefault s r) :
    (Operation.select cases hasDefault).ComesTo s r := by
  cases h with
  | fired hcase he hch ha ht => exact .fired hcase he hch ha ht
  | default hd hnone hch ha ht =>
    subst hd
    exact .default rfl hnone hch ha ht
  | refused hcase hclosed hch ha => exact .refused (List.mem_of_getElem? hcase) hclosed hch ha
  | parked hd hnone hw =>
    subst hd
    exact .parked hnone hw

/-! ## What operations come to -/

namespace Exec

variable {s s' : Turn} {ch : ChannelId} {v : Value}

/-- What is on record when an operation has begun. -/
theorem began_append (s : Turn) (op : Operation) {acts : List Act}
    (ha : s'.acts = (s.acts ++ [.began s.task.id op]) ++ acts) :
    s'.acts = s.acts ++ .began s.task.id op :: acts := by
  rw [ha, List.append_assoc]
  rfl

theorem channelSend_comesTo (hs : s.Good) (hid : ch < s.heap.channels.size) :
    (Operation.send ch v).ComesTo s (channelSend ch v s) := by
  let s₁ : Turn := { s with acts := s.acts ++ [.began s.task.id (.send ch v)] }
  have hcrew : s₁.crew = s.crew := Turn.crew_eq rfl rfl rfl rfl rfl
  cases hready : (s.heap.channel ch).sendReady s.crew.live with
  | false =>
    obtain ⟨s', hx, hw⟩ := channelSend_waits (v := v) hs hid hready
    rw [hx]
    refine .parked (fun case hcase => ?_) hw
    rw [List.mem_singleton.mp hcase, s.liveness_eq]
    exact hready
  | true =>
    rcases trySend_effect (s := s₁) (v := v) hid (by rw [hcrew]; exact hready) with
      ⟨s', c', acts, htry, he, hch, ha, ht⟩ | ⟨s', hclosed, htry, hch, ha⟩
    · have hx : channelSend ch v s = .ok .next { s' with task := s'.task.push .nil } := by
        rw [channelSend, bind_ok (begin_apply s _)]
        obtain ⟨o, s₂, ho, hrest⟩ := bind_eq_ok.mp htry
        cases o with
        | sent =>
          cases hrest
          exact bind_ok ho
        | closed | wouldBlock => cases hrest
      have hfirst : (Operation.send ch v).cases[0]? = some (.send ch v) := rfl
      rw [hx]
      refine .fired hfirst he hch (began_append s _ ha) ?_
      show { s'.task with stack := s'.task.stack.push .nil } = _
      rw [ht]
      rfl
    · have hx : channelSend ch v s = .error (.raised .channelClosed) s' := by
        rw [channelSend, bind_ok (begin_apply s _)]
        rcases bind_eq_error.mp htry with he | ⟨o, s₂, ho, hrest⟩
        · exact bind_error he
        · cases o with
          | closed =>
            cases hrest
            exact bind_ok ho
          | sent | wouldBlock => cases hrest
      rw [hx]
      exact .refused List.mem_cons_self hclosed hch (began_append s _ ha)

theorem channelReceive_comesTo (hs : s.Good) (hid : ch < s.heap.channels.size) :
    (Operation.receive ch).ComesTo s (channelReceive ch s) := by
  let s₁ : Turn := { s with acts := s.acts ++ [.began s.task.id (.receive ch)] }
  have hcrew : s₁.crew = s.crew := Turn.crew_eq rfl rfl rfl rfl rfl
  cases hready : (s.heap.channel ch).receiveReady s.crew.live with
  | false =>
    obtain ⟨s', hx, hw⟩ := channelReceive_waits hs hid hready
    rw [hx]
    refine .parked (fun case hcase => ?_) hw
    rw [List.mem_singleton.mp hcase, s.liveness_eq]
    exact hready
  | true =>
    obtain ⟨v, s', c', acts, htry, he, hch, ha, ht⟩ :=
      tryReceive_effect (by rw [hcrew]; exact hready : (SelectCase.receive ch).isReady s₁.heap _)
    have hx : channelReceive ch s = .ok .next { s' with task := s'.task.push v } := by
      rw [channelReceive, bind_ok (begin_apply s _)]
      obtain ⟨o, s₂, ho, hrest⟩ := bind_eq_ok.mp htry
      cases o with
      | received | closed =>
        cases hrest
        exact bind_ok ho
      | wouldBlock => cases hrest
    have hfirst : (Operation.receive ch).cases[0]? = some (.receive ch) := rfl
    rw [hx]
    refine .fired hfirst he hch (began_append s _ ha) ?_
    show { s'.task with stack := s'.task.stack.push v } = _
    rw [ht]
    rfl

/-- **What an operation comes to**, one of four things. -/
theorem exec_comesTo (hs : s.Good) {op : Operation}
    (hids : ∀ case ∈ op.cases, case.channel < s.heap.channels.size) :
    op.ComesTo s (op.exec s) := by
  cases op with
  | send ch v => exact channelSend_comesTo hs (hids _ List.mem_cons_self)
  | receive ch => exact channelReceive_comesTo hs (hids _ List.mem_cons_self)
  | select cases hasDefault => exact (select_selected s hids hasDefault).comesTo

/-! ## Operands -/

theorem pop_stack (h : pop s = .ok v s') : s.task.stack.toList = s'.task.stack.toList ++ [v] := by
  obtain ⟨hback, rfl⟩ := pop_eq_ok h
  obtain ⟨rest, hrest⟩ := Array.back?_eq_some_iff.mp hback
  simp [hrest]

theorem popChannel_stack (h : popChannel s = .ok ch s') :
    s.task.stack.toList = s'.task.stack.toList ++ [.channel ch] := by
  obtain ⟨v, s₁, h₁, h₂⟩ := bind_eq_ok.mp h
  rw [get_bind_apply] at h₂
  obtain ⟨hid, rfl⟩ := ofExcept_eq_ok _ h₂
  have hv : v = .channel ch := by
    unfold channelOf at hid
    dsimp only at hid
    split at hid
    · split at hid
      · cases hid
        rfl
      · cases hid
    · cases hid
  rw [pop_stack h₁, hv]

theorem popCases_stack : ∀ {kinds : List Nat} {s s' : Turn} {cases : List SelectCase},
    popCases kinds s = .ok cases s' →
    s.task.stack.toList = s'.task.stack.toList ++ cases.flatMap SelectCase.operands
  | [], s, s', cases, h => by
    cases h
    simp
  | kind :: kinds, s, s', cases, h => by
    -- The cases are given last case first, and so are their operands.
    have hrest : ∀ {case : SelectCase} {s₁ : Turn},
        s.task.stack.toList = s₁.task.stack.toList ++ case.operands →
        (do let before ← popCases kinds; pure (before ++ [case])) s₁ = .ok cases s' →
        s.task.stack.toList = s'.task.stack.toList ++ cases.flatMap SelectCase.operands := by
      intro case s₁ hs h
      obtain ⟨before, s₂, h₂, h⟩ := bind_eq_ok.mp h
      cases h
      rw [hs, popCases_stack h₂]
      simp
    unfold popCases at h
    dsimp only at h
    split at h
    · obtain ⟨v, s₁, h₁, h⟩ := bind_eq_ok.mp h
      obtain ⟨id, s₂, h₂, h⟩ := bind_eq_ok.mp h
      have hs : s.task.stack.toList = s₂.task.stack.toList ++ (SelectCase.send id v).operands := by
        rw [pop_stack h₁, popChannel_stack h₂]
        simp [SelectCase.operands]
      exact hrest hs h
    · obtain ⟨id, s₁, h₁, h⟩ := bind_eq_ok.mp h
      have hs : s.task.stack.toList = s₁.task.stack.toList ++ (SelectCase.receive id).operands :=
        popChannel_stack h₁
      exact hrest hs h

theorem readBytes_stack : ∀ {n : Nat} {s s' : Turn} {bytes : List Nat},
    readBytes n s = .ok bytes s' → s'.task.stack = s.task.stack
  | 0, s, s', bytes, h => by
    cases h
    rfl
  | n + 1, s, s', bytes, h => by
    obtain ⟨b, s₁, h₁, h⟩ := bind_eq_ok.mp h
    obtain ⟨rest, s₂, h₂, h⟩ := bind_eq_ok.mp h
    cases h
    rw [readBytes_stack h₂, (scans_readByte h₁).stack]

theorem selectOperands_stack {cases : List SelectCase} {hasDefault : Bool}
    (h : selectOperands s = .ok (cases, hasDefault) s') :
    s.task.stack.toList = s'.task.stack.toList ++ cases.flatMap SelectCase.operands := by
  obtain ⟨count, s₁, h₁, h⟩ := bind_eq_ok.mp h
  obtain ⟨flags, s₂, h₂, h⟩ := bind_eq_ok.mp h
  obtain ⟨kinds, s₃, h₃, h⟩ := bind_eq_ok.mp h
  obtain ⟨cases', s₄, h₄, h⟩ := bind_eq_ok.mp h
  cases h
  rw [← popCases_stack h₄, readBytes_stack h₃, (scans_readByte h₂).stack, (scans_readByte h₁).stack]

end Exec

/-! ## What goes on record of values -/

/-- The act is about a value on its way through a channel, up to where it is picked up. -/
def Act.carries : Act → Bool
  | .sent _ _ _ | .received _ _ _ | .parked _ _ _ | .resumed _ _ => true
  | _ => false

theorem Act.not_carries_of_isPrivate {a : Act} (h : a.isPrivate = true) : a.carries = false := by
  cases a <;> first | rfl | cases h

theorem Act.mem_of_mem_began {a : Act} {acts : List Act} {t : TaskId} {op : Operation}
    (ha : a ∈ .began t op :: acts) (hc : a.carries = true) : a ∈ acts := by
  rcases List.mem_cons.mp ha with rfl | ha
  · cases hc
  · exact ha

/-- What goes on record of values when a case takes place: a send has its own value there, and a
receive the one that it gets. -/
theorem SelectCase.Effect.carried {live : Waiter → Bool} {case : SelectCase} {c c' : Channel}
    {acts : List Act} {v : Value} (he : case.Effect live c c' acts v) {a : Act} (ha : a ∈ acts)
    (hc : a.carries = true) :
    match case with
    | .send ch u => ∃ receiver, a = .sent ch u receiver
    | .receive ch => ∃ sender, a = .received ch v sender := by
  have hwoken : ∀ {w : Waiter} {r : Resume}, a ∉ [.woken w r] := fun hmem => by
    rw [List.mem_singleton.mp hmem] at hc
    cases hc
  cases he with
  | stored | taken => exact ⟨none, List.mem_singleton.mp ha⟩
  | @handed ch v w | @released ch v w =>
    exact ⟨some w, (List.mem_cons.mp ha).resolve_right hwoken⟩
  | drained =>
    rw [List.mem_singleton.mp ha] at hc
    cases hc

namespace Turn

/-- Nothing has gone on record about values on their way. -/
def Silent (s s' : Turn) : Prop :=
  ∃ acts, s'.acts = s.acts ++ acts ∧ ∀ a ∈ acts, a.carries = false

instance : IsPreorder Turn Silent where
  refl s := ⟨[], (List.append_nil _).symm, by simp⟩
  trans := by
    rintro s s' s'' ⟨acts, ha, hn⟩ ⟨acts', ha', hn'⟩
    refine ⟨acts ++ acts', by rw [ha', ha, List.append_assoc], fun a hmem => ?_⟩
    exact (List.mem_append.mp hmem).elim (hn a) (hn' a)

variable {s s' : Turn}

theorem Silent.of_eq (h : s'.acts = s.acts) : s.Silent s' :=
  ⟨[], h.trans (List.append_nil _).symm, by simp⟩

/-- What is on record by then about values was so before. -/
theorem Silent.mem (h : s.Silent s') {a : Act} (ha : a ∈ s'.acts) (hc : a.carries = true) :
    a ∈ s.acts := by
  obtain ⟨acts, hacts, hn⟩ := h
  rw [hacts] at ha
  rcases List.mem_append.mp ha with ha | ha
  · exact ha
  · rw [hn a ha] at hc
    cases hc

theorem silent_of_changes (h : Changes s s') : s.Silent s' := by
  induction h with
  | refl => exact refl_of Silent s
  | tail _ hc ih =>
    obtain ⟨-, acts, ha, hp⟩ := hc.channels
    exact trans_of Silent ih ⟨acts, ha, fun a hmem => Act.not_carries_of_isPrivate (hp a hmem)⟩

theorem silent_note {a : Act} (ha : a.carries = false) (s : Turn) : Leads Silent (note a) s :=
  ⟨[a], rfl, fun b hb => by rw [List.mem_singleton.mp hb, ha]⟩

theorem silent_wake (w : Waiter) (r : Resume) (s : Turn) : Leads Silent (wake w r) s := by
  have hacts := s.wake_acts w r
  split at hacts
  · exact ⟨[.woken w r], hacts, by simp [Act.carries]⟩
  · exact .of_eq hacts

theorem silent_wakeAll {f : Waiter → Resume} : ∀ (ws : List Waiter) (s : Turn),
    Leads Silent (ws.forM fun w => wake w (f w)) s
  | [], s => leads_pure _ s
  | w :: ws, s => by
    show Leads Silent (do wake w (f w); ws.forM fun w => wake w (f w)) s
    exact leads_bind (silent_wake _ _ s) fun _ s _ => silent_wakeAll ws s

theorem silent_channelClose (id : ChannelId) (s : Turn) : Leads Silent (channelClose id) s := by
  unfold channelClose
  refine leads_get_bind ?_
  split
  · exact leads_throw _ s
  · refine leads_bind (leads_modify (.of_eq rfl)) fun _ s _ => ?_
    refine leads_bind (silent_wakeAll _ s) fun _ s _ => ?_
    exact leads_bind (silent_wakeAll _ s) fun _ s _ => silent_note rfl s

theorem silent_unwind (s : Turn) (v : Value) : s.Silent (s.unwind v).2 := by
  cases hh : s.task.handlers with
  | nil =>
    unfold unwind
    rw [hh]
    exact refl_of Silent s
  | cons hd rest =>
    obtain ⟨left, ha⟩ := unwind_acts hh v
    exact ⟨_, ha, by simp [Act.carries]⟩

theorem silent_recover (s : Turn) (e : Fault) : s.Silent (s.recover e).2 := by
  cases e with
  | endless => exact refl_of Silent s
  | raised e =>
    unfold recover
    dsimp only
    split
    · exact .of_eq rfl
    · exact trans_of Silent (.of_eq rfl) (silent_unwind _ _)

/-- What a computation leads to is not on record as more than what it has done. -/
theorem silent_perform (x : Exec Flow) (s : Turn) : (endState x s).Silent (s.perform x).2 := by
  unfold perform
  cases hx : x s with
  | ok flow s' =>
    rw [endState_ok hx]
    cases flow with
    | thrown v => exact silent_unwind s' v
    | _ => exact refl_of Silent s'
  | error e s' =>
    rw [endState_error hx]
    exact silent_recover s' e

theorem silent_resumeWith (r : Resume) (s : Turn) : Leads Silent (resumeWith r) s := by
  refine silent_of_changes ?_
  show Leads Changes (resumeWith r) s
  cases r with
  | value v => exact leads_bind (leads_push s v) fun _ s _ => leads_pure _ s
  | selected index v =>
    refine leads_bind ?_ fun _ s _ => leads_pure _ s
    exact leads_bind (leads_push s v) fun _ s _ => leads_push s _
  | error e => exact leads_pure _ s

end Turn

namespace Exec

variable {a : Act} {s : Turn}

/-- What a computation has on record of values, but not what it begins with, is of what comes
after the beginning. -/
theorem carried_later {α β : Type} {x : Exec α} {f : α → Exec β} (hx : Leads Changes x s)
    (hc : a.carries = true) (hs : a ∉ s.acts) (ha : a ∈ (endState (x >>= f) s).acts) :
    ∃ b s', x s = .ok b s' ∧ a ∉ s'.acts ∧ a ∈ (endState (f b) s').acts := by
  have hnone : a ∉ (endState x s).acts := fun h => hs ((Turn.silent_of_changes hx).mem h hc)
  cases h : x s with
  | ok b s' =>
    rw [endState_ok h] at hnone
    rw [endState_bind_ok h] at ha
    exact ⟨b, s', rfl, hnone, ha⟩
  | error e s' =>
    rw [endState_error h] at hnone
    rw [endState_error (bind_error h)] at ha
    exact absurd ha hnone

/-- The check of the stack puts nothing on record. -/
theorem silent_step (s : Turn) : (endState instruction s).Silent (endState step s) := by
  cases h : instruction s with
  | error e s' =>
    rw [endState_error h, step, endState_error (bind_error h)]
    exact refl_of Turn.Silent s'
  | ok flow s' =>
    rw [endState_ok h, step, endState_bind_ok h]
    show Leads Turn.Silent _ s'
    refine leads_get_bind ?_
    split
    · exact leads_throw _ s'
    · exact leads_pure _ s'

end Exec

/-- A claim is for one of the cases. -/
theorem Operation.case_of_claim {op : Operation} {k : Claim} (hk : k ∈ op.claims) :
    match k.offer with
    | none => .receive k.channel ∈ op.cases
    | some v => .send k.channel v ∈ op.cases := by
  cases op with
  | send | receive =>
    cases List.mem_singleton.mp hk
    exact List.mem_cons_self
  | select cases hasDefault =>
    obtain ⟨index, case, hcase, rfl⟩ := mem_claims_select hk
    cases case <;> exact List.mem_of_getElem? hcase

/-- What is on the stack when the result of a wait has been picked up. -/
def Resume.onto (stack : Array Value) : Resume → Array Value
  | .value v => stack.push v
  | .selected index v => (stack.push v).push (.ofInt index)
  | .error _ => stack

namespace Machine

variable {m : Machine} {task : Task} {op : Operation} {s : Turn}

/-- The next tick executes an operation. Its operands have been taken off when the turn is `s`. -/
inductive Begins (m : Machine) (task : Task) : Operation → Turn → Prop where
  | send {s₁ s₂ s : Turn} {ch : ChannelId} {v : Value} (h : m.Executes task .channelSend s₁)
      (hv : pop s₁ = .ok v s₂) (hch : popChannel s₂ = .ok ch s) : Begins m task (.send ch v) s
  | receive {s₁ s : Turn} {ch : ChannelId} (h : m.Executes task .channelRecv s₁)
      (hch : popChannel s₁ = .ok ch s) : Begins m task (.receive ch) s
  | select {s₁ s : Turn} {cases : List SelectCase} {hasDefault : Bool}
      (h : m.Executes task .select s₁) (hcases : selectOperands s₁ = .ok (cases, hasDefault) s) :
      Begins m task (.select cases hasDefault) s

namespace Begins

/-- An opcode has been read, and operands have been popped. -/
theorem executes (h : m.Begins task op s) : ∃ code s₁, m.Executes task code s₁ ∧
    execute code s₁ = op.exec s ∧ Reads s₁ s ∧ Changes s₁ s ∧
    s₁.task.stack.toList = s.task.stack.toList ++ op.operands ∧
    ∀ case ∈ op.cases, case.channel < s.heap.channels.size := by
  cases h with
  | @send s₁ s₂ s ch v h hv hch =>
    have hreads := (reads_popChannel s₂).of_ok hch
    refine ⟨_, s₁, h, (bind_ok hv).trans (bind_ok hch),
      trans_of Reads ((reads_pop s₁).of_ok hv) hreads,
      ((leads_pop s₁).of_ok hv).trans ((leads_popChannel s₂).of_ok hch), ?_, fun case hcase => ?_⟩
    · rw [pop_stack hv, popChannel_stack hch]
      simp [Operation.operands, Operation.cases, SelectCase.operands]
    · rw [List.mem_singleton.mp hcase, hreads.heap]
      exact popChannel_ok hch
  | @receive s₁ s ch h hch =>
    have hreads := (reads_popChannel s₁).of_ok hch
    refine ⟨_, s₁, h, bind_ok hch, hreads, (leads_popChannel s₁).of_ok hch, ?_,
      fun case hcase => ?_⟩
    · rw [popChannel_stack hch]
      simp [Operation.operands, Operation.cases, SelectCase.operands]
    · rw [List.mem_singleton.mp hcase, hreads.heap]
      exact popChannel_ok hch
  | @select s₁ s cases hasDefault h hcases =>
    have hreads := (reads_selectOperands s₁).of_ok hcases
    refine ⟨_, s₁, h, bind_ok hcases, hreads, (leads_selectOperands s₁).of_ok hcases,
      selectOperands_stack hcases, fun case hcase => ?_⟩
    rw [hreads.heap]
    exact selectOperands_ok hcases case hcase

theorem instruction_eq (h : m.Begins task op s) : instruction (m.turn task) = op.exec s := by
  obtain ⟨code, s₁, hexec, hop, -⟩ := h.executes
  rw [hexec.instruction_eq, hop]

theorem comesTo (h : m.Begins task op s) (hg : m.Good) : s.heap = m.heap ∧ s.acts = [] ∧
    task.stack.toList = s.task.stack.toList ++ op.operands ∧
    op.ComesTo s (instruction (m.turn task)) := by
  have hcomes := h.instruction_eq
  obtain ⟨code, s₁, hexec, -, hreads, hchanges, hstack, hids⟩ := h.executes
  have hturn : (m.turn task).Good := by
    rw [← ofTurn_turn hexec.running] at hg
    exact hg
  have hgood := (follows_of_changes (hexec.changes.trans hchanges) hturn).1
  refine ⟨hreads.heap.trans hexec.scans.heap, hreads.acts.trans hexec.scans.acts, ?_, ?_⟩
  · rw [← hstack, hexec.scans.stack]
    rfl
  · rw [hcomes]
    exact exec_comesTo hgood hids

end Begins

theorem begins_of_execute {code : Opcode} {s₁ : Turn} (h : m.Executes task code s₁)
    (ht : ∀ f ∈ m.hosts, f.Tame) {a : Act} (hc : a.carries = true) (hs : a ∉ s₁.acts)
    (ha : a ∈ (endState (execute code) s₁).acts) :
    ∃ op s, m.Begins task op s ∧ a ∈ (endState op.exec s).acts := by
  have ht₁ : ∀ f ∈ s₁.hosts, f.Tame := by
    rw [h.scans.hosts]
    exact ht
  cases hop : isChannelOp code with
  | false => exact absurd ((Turn.silent_of_changes (leads_execute s₁ ht₁ hop)).mem ha hc) hs
  | true =>
    cases code
    case channelSend =>
      obtain ⟨v, s₂, hv, hs₂, ha⟩ := carried_later (leads_pop s₁) hc hs ha
      obtain ⟨ch, s, hch, -, ha⟩ := carried_later (leads_popChannel s₂) hc hs₂ ha
      exact ⟨_, s, .send h hv hch, ha⟩
    case channelRecv =>
      obtain ⟨ch, s, hch, -, ha⟩ := carried_later (leads_popChannel s₁) hc hs ha
      exact ⟨_, s, .receive h hch, ha⟩
    case channelClose =>
      obtain ⟨ch, s, -, hs, ha⟩ := carried_later (leads_popChannel s₁) hc hs ha
      refine absurd (Turn.Silent.mem ?_ ha hc) hs
      show Leads Turn.Silent _ s
      refine leads_bind (Turn.silent_channelClose ch s) fun _ s _ => ?_
      exact leads_bind (Turn.silent_of_changes (leads_push s .nil)) fun _ s _ => leads_pure _ s
    case select =>
      obtain ⟨⟨cases, hasDefault⟩, s, hcases, -, ha⟩ :=
        carried_later (leads_selectOperands s₁) hc hs ha
      exact ⟨_, s, .select h hcases, ha⟩
    all_goals nomatch hop

/-- What the running task does with a value on its way. -/
inductive Carries (m : Machine) (task : Task) : Act → Prop where
  /-- The value that it receives is what the operation leaves on the stack. -/
  | received {op : Operation} {s s' : Turn} {index : Nat} {ch : ChannelId} {v : Value}
      (h : m.Begins task op s) (hcase : op.cases[index]? = some (.receive ch))
      (hx : instruction (m.turn task) = .ok .next s')
      (ht : s'.task = { s.task with stack := op.leave s.task.stack v index })
      (hfits : s'.task.stack.size ≤ s'.vm.config.stackCapacity →
        m.tick.machine.running = some s'.task) (sender : Option Waiter) :
      Carries m task (.received ch v sender)
  /-- The value that it sends is an operand. -/
  | sent {op : Operation} {s : Turn} {ch : ChannelId} {v : Value} (h : m.Begins task op s)
      (hcase : .send ch v ∈ op.cases) (receiver : Option Waiter) :
      Carries m task (.sent ch v receiver)
  /-- The value that it lines up with is an operand. -/
  | offers {op : Operation} {s : Turn} {ch : ChannelId} {v : Value} (h : m.Begins task op s)
      (hcase : .send ch v ∈ op.cases) (w : Waiter) : Carries m task (.parked ch w (some v))
  | asks {op : Operation} {s : Turn} {ch : ChannelId} (h : m.Begins task op s)
      (hcase : .receive ch ∈ op.cases) (w : Waiter) : Carries m task (.parked ch w none)
  | picksUp {r : Resume} (hr : task.resume = some r) : Carries m task (.resumed task.id r)

/-- What an operation has on record of values. -/
theorem Begins.carries (h : m.Begins task op s) (hg : m.Good) {a : Act}
    (ha : a ∈ (endState op.exec s).acts) (hc : a.carries = true) : m.Carries task a := by
  obtain ⟨-, hs, -, hcomes⟩ := h.comesTo hg
  obtain ⟨code, s₁, hexec, hop, -⟩ := h.executes
  generalize hx : instruction (m.turn task) = r at hcomes
  have hend : op.exec s = r := h.instruction_eq.symm.trans hx
  cases hcomes with
  | @fired index case c' acts v s' hcase he hch hacts ht =>
    have hfits := fun hfits => congrArg Machine.running (hexec.tick_next (hop.trans hend) hfits)
    rw [endState_ok hend, hacts, hs, List.nil_append] at ha
    have hcarried := he.carried (Act.mem_of_mem_began ha hc) hc
    cases case with
    | send ch u =>
      obtain ⟨receiver, rfl⟩ := hcarried
      exact .sent h (List.mem_of_getElem? hcase) receiver
    | receive ch =>
      obtain ⟨sender, rfl⟩ := hcarried
      exact .received h hcase hx ht hfits sender
  | default hop hnone hch hacts ht =>
    rw [endState_ok hend, hacts, hs, List.nil_append] at ha
    cases Act.mem_of_mem_began ha hc
  | refused hcase hclosed hch hacts =>
    rw [endState_error hend, hacts, hs, List.nil_append] at ha
    rw [List.mem_singleton.mp (Act.mem_of_mem_began ha hc)] at hc
    cases hc
  | parked hnone hw =>
    rw [endState_ok hend, hw.acts, hs, List.nil_append] at ha
    obtain ⟨k, hk, rfl⟩ := List.mem_map.mp (Act.mem_of_mem_began ha hc)
    have hcase := Operation.case_of_claim hk
    unfold Claim.act
    cases ho : k.offer with
    | none => exact .asks h (by rwa [ho] at hcase) _
    | some v => exact .offers h (by rwa [ho] at hcase) _

/-- **What is on record of values** in a tick is what its task does with them. -/
theorem carried (hg : m.Good) {a : Act} (ha : a ∈ m.tick.acts) (hc : a.carries = true) :
    ∃ task, m.running = some task ∧ m.Carries task a := by
  obtain ⟨task, hr⟩ : ∃ task, m.running = some task := by
    refine Option.ne_none_iff_exists'.mp fun hnone => ?_
    rw [tick_between hnone, dispatch_acts] at ha
    cases ha
  refine ⟨task, hr, ?_⟩
  rw [tick_acts hr] at ha
  cases haction : (m.turn task).action with
  | none =>
    rw [Turn.advance_done haction] at ha
    cases ha
  | some next =>
    obtain ⟨s, x⟩ := next
    rw [Turn.advance_action haction] at ha
    replace ha := (Turn.silent_perform x s).mem ha hc
    obtain ⟨r, hr, rfl, rfl⟩ | ⟨rfl, hready, -, -, -, ⟨-, rfl⟩ | ⟨-, rfl⟩⟩ :=
      Turn.action_cases haction
    · rw [List.mem_singleton.mp ((Turn.silent_resumeWith r _).mem ha hc)]
      exact .picksUp hr
    · cases (Turn.silent_of_changes (leads_leaveFrame _ .nil)).mem ha hc
    · obtain ⟨op, s₁, hf, hs₁, ha⟩ := carried_later (leads_fetch _) hc (List.not_mem_nil)
        ((silent_step _).mem ha hc)
      obtain ⟨_, s₂, hcount, hs₂, ha⟩ := carried_later (leads_countInstruction s₁ op) hc hs₁ ha
      have hexec : m.Executes task op s₂ := ⟨hr, hready, s₁, hf, hcount⟩
      obtain ⟨op, s, hbegins, ha⟩ := begins_of_execute hexec hg.tame hc hs₂ ha
      exact hbegins.carries hg ha hc

/-- What goes on record in the next tick about values on their way is what its task sees of it. -/
structure Transfers (m : Machine) : Prop where
  /-- An operation takes its operands, and comes to what is on record and on the stack. -/
  performs {task : Task} {op : Operation} {s : Turn} : m.Begins task op s →
    s.heap = m.heap ∧ s.acts = [] ∧ task.stack.toList = s.task.stack.toList ++ op.operands ∧
      op.ComesTo s (instruction (m.turn task))
  /-- There is nothing else on record of values. -/
  carried {a : Act} : a ∈ m.tick.acts → a.carries = true →
    ∃ task, m.running = some task ∧ m.Carries task a
  /-- A task that picks up a value has it on its stack. -/
  picksUp {task : Task} {r : Resume} : m.running = some task → task.resume = some r →
    (∀ e, r ≠ .error e) → m.tick =
      { machine := { m with running := some { task with
          resume := none, stack := r.onto task.stack } }
        acts := [.resumed task.id r] }

theorem transfers (hg : m.Good) : m.Transfers where
  performs h := h.comesTo hg
  carried := carried hg
  picksUp {task r} hr hresume hne := by
    cases r with
    | error e => exact absurd rfl (hne e)
    | selected index v => exact tick_selected hr hresume
    | value v =>
      unfold tick Turn.advance
      rw [hr]
      dsimp only
      rw [show (m.turn task).task.resume = some (.value v) from hresume]
      rfl

/-! ## Every run -/

variable {hosts : Array HostFunction} {h : Heap} {id : VmId} {config : VmConfig} {dice : Dice}
  {hist : List Act}

/-- **Delivery is first come, first served, and exactly once.** As long as no task is lined up
in vain, what receives have got from a channel, what is in its buffer and what live senders are
parked with are, in this order, the values of the sends that were started and that count. A
buffer never holds more than it has room for. What a send gives and what a receive gets are
operands of the tasks that execute them, and a value that is handed to a task in line is what
this task has on its stack when it goes on. -/
theorem Run.delivers_in_order (ht : ∀ f ∈ hosts, f.Tame)
    (hc : ∀ c ∈ h.channels, ∃ n, c = Channel.ofCapacity n)
    (hr : Run (roomy · = true) (create hosts h id config dice) hist m) :
    (∀ ch c, m.heap.channels[ch]? = some c →
      handedOut ch hist ++ c.buffer ++ (c.senders.filter fun x => m.live x.1).map (·.2) =
        accepted ch hist ∧
      c.buffer.length ≤ c.capacity) ∧
    m.Transfers ∧
    ∀ before after ch v w, hist = before ++ .sent ch v (some w) :: after →
      m.net.PicksUp w.task (Scheduler.resumeOf w v) after := by
  obtain ⟨hgood, hrun⟩ := hr.good (create_good ht hc id config dice)
  exact ⟨fun _ _ => hr.adds_up ht hc, transfers hgood,
    fun _ _ _ _ _ => hrun.hands (create_sound hc)⟩

/-- The main task starts another that sends two values on a channel without room, and receives
the first from the sender in line. It is in line itself when the second is sent. -/
def relay : Heap where
  channels := #[.ofCapacity 0]
  closures := #[{ template := 0 }]
  templates := #[{ name := "sender", chunk := 1 }]
  chunks := #[
    { code := assemble [(.constant, [0, 0]), (.spawn, [0]), (.yield, []),
        (.constant, [0, 1]), (.channelRecv, []), (.constant, [0, 1]), (.channelRecv, []),
        (.ret, [])]
      constants := #[.closure 0, .channel 0] },
    { code := assemble [(.constant, [0, 0]), (.pushTrue, []), (.channelSend, []),
        (.constant, [0, 0]), (.pushFalse, []), (.channelSend, []), (.ret, [])]
      constants := #[.channel 0] }]

/-- The first value is on the stack with the instruction that receives it, the second when the main
task goes on, and the ledger says so. -/
theorem relay_delivers :
    (∃ hist m task w, Run (roomy · = true) (create #[] relay 0 {} {}) hist m ∧
      m.running = some task ∧ m.Carries task (.received 0 (.bool true) (some w))) ∧
    ∃ hist m c task, Run (roomy · = true) (create #[] relay 0 {} {}) hist m ∧
      m.running = some task ∧ m.heap.channels[0]? = some c ∧
      handedOut 0 hist = [.bool true, .bool false] ∧
      handedOut 0 hist ++ c.buffer ++ (c.senders.filter fun x => m.live x.1).map (·.2) =
        accepted 0 hist ∧
      c.buffer.length ≤ c.capacity ∧
      (∃ before after, hist = before ++ .sent 0 (.bool false) (some ⟨0, 0, none⟩) :: after ∧
        m.net.PicksUp 0 (.value (.bool false)) after) ∧
      m.tick.machine.running =
        some { task with resume := none, stack := task.stack.push (.bool false) } := by
  have hfresh : ∀ c ∈ relay.channels, ∃ n, c = Channel.ofCapacity n := by
    intro c hc
    exact ⟨0, by simpa [relay] using hc⟩
  constructor
  · have hrun : ((tickFor roomy 10 ((create #[] relay 0 {} {}).load 0).2 []).any fun r =>
        decide (.received 0 (.bool true) (some ⟨1, 0, none⟩) ∈ r.2.tick.acts)) = true := by
      decide +kernel
    obtain ⟨⟨hist, m⟩, hticks, hp⟩ := (Option.any_eq_true _ _).mp hrun
    have hr := run_of_tickFor (Run.refl.tail (.load rfl 0)) hticks
    obtain ⟨-, htransfers, -⟩ := Run.delivers_in_order (by simp) hfresh hr
    obtain ⟨task, hrunning, hcarries⟩ := htransfers.carried (of_decide_eq_true hp) rfl
    exact ⟨hist, m, task, _, hr, hrunning, hcarries⟩
  · have hrun : ((tickFor roomy 20 ((create #[] relay 0 {} {}).load 0).2 []).any fun r =>
        decide (handedOut 0 r.1 = [.bool true, .bool false]) && r.2.heap.channels[0]?.isSome &&
        decide (.sent 0 (.bool false) (some ⟨0, 0, none⟩) ∈ r.1) &&
        r.2.running.any fun task => decide (task.resume = some (.value (.bool false)))) = true := by
      decide +kernel
    obtain ⟨⟨hist, m⟩, hticks, hp⟩ := (Option.any_eq_true _ _).mp hrun
    simp only [Bool.and_eq_true, decide_eq_true_eq, Option.any_eq_true] at hp
    obtain ⟨⟨⟨hout, hch⟩, hsent⟩, task, hrunning, hresume⟩ := hp
    obtain ⟨c, hc⟩ := Option.isSome_iff_exists.mp hch
    obtain ⟨before, after, rfl⟩ := List.append_of_mem hsent
    have hr := run_of_tickFor (Run.refl.tail (.load rfl 0)) hticks
    obtain ⟨hbook, htransfers, hhanded⟩ := Run.delivers_in_order (by simp) hfresh hr
    obtain ⟨hledger, hroom⟩ := hbook 0 c hc
    refine ⟨_, m, c, task, hr, hrunning, hc, hout, hledger, hroom,
      ⟨before, after, rfl, hhanded before after 0 _ _ rfl⟩, ?_⟩
    rw [htransfers.picksUp hrunning hresume (by simp)]
    rfl

/-- Two operands are all a task may have. One task comes to have more, by a select that is met
and by errors that it catches, and then sends on two channels nobody receives from. The main
task looks whether there is anything to be had from the first, and receives from the second. -/
def cramped : Heap where
  channels := #[.ofCapacity 0, .ofCapacity 1, .ofCapacity 0, .ofCapacity 0]
  closures := #[{ template := 0 }]
  templates := #[{ name := "p", chunk := 1 }]
  chunks := #[
    { code := assemble [(.constant, [0, 0]), (.spawn, [0]), (.pop, []), (.yield, []),
        (.constant, [0, 1]), (.constant, [0, 2]), (.channelSend, []), (.pop, []), (.yield, []),
        (.constant, [0, 1]), (.constant, [0, 4]), (.channelSend, []), (.pop, []), (.yield, []),
        (.constant, [0, 3]), (.select, [1, 1, 0]), (.pop, []), (.pop, []),
        (.constant, [0, 4]), (.channelRecv, []), (.typeOf, []), (.ret, [])]
      constants := #[.closure 0, .channel 0, .channel 1, .channel 2, .channel 3] },
    { code := assemble [(.pushNil, []), (.constant, [0, 1]), (.select, [1, 0, 0]),
        (.tryBegin, [0, 0]), (.tryBegin, [0, 0]), (.channelSend, []), (.pop, []),
        (.constant, [0, 1]), (.select, [1, 0, 0]), (.constant, [0, 3]), (.ret, [])]
      constants := #[.nil, .channel 0, .channel 1, .channel 2, .channel 3] }]

/-- **Lined up in vain, a send is neither accepted nor withdrawn.** The first of the two sends
is entered in the ledger and fails for want of room on the stack, but its waiter stays in line
without being live. The value it was started with is nowhere. -/
theorem cramped_loses : ∃ hist m c,
    Run (fun _ => True) (create #[] cramped 0 { stackCapacity := 2, selectSeed := some 1 } {})
      hist m ∧
    m.heap.channels[2]? = some c ∧
    handedOut 2 hist ++ c.buffer ++ (c.senders.filter fun x => m.live x.1).map (·.2) ≠
      accepted 2 hist := by
  have hrun : ((tickFor (fun _ => true) 35 ((create #[] cramped 0
      { stackCapacity := 2, selectSeed := some 1 } {}).load 0).2 []).any fun r =>
      decide (2 < r.2.heap.channels.size) &&
      decide (handedOut 2 r.1 ++ (r.2.heap.channel 2).buffer ++
        ((r.2.heap.channel 2).senders.filter fun x => r.2.live x.1).map (·.2) ≠
          accepted 2 r.1)) = true := by
    decide +kernel
  obtain ⟨⟨hist, m⟩, hticks, hp⟩ := (Option.any_eq_true _ _).mp hrun
  obtain ⟨hlt, hne⟩ := Bool.and_eq_true_iff.mp hp
  have hr := run_of_tickFor (Run.refl.tail (.load rfl 0)) hticks
  have hc : m.heap.channels[2]? = some (m.heap.channel 2) := by
    rw [Heap.channel, Array.getD_eq_getD_getElem?,
      Array.getElem?_eq_getElem (of_decide_eq_true hlt)]
    rfl
  exact ⟨hist, m, m.heap.channel 2, hr.mono fun _ _ => trivial, hc, of_decide_eq_true hne⟩

end Machine

end TaskVm
