import TaskVm.Proofs.Runs

/-!
# Everything a turn can do

What instructions do on channels is more than the changes that other instructions make, but
for most purposes not much more: a channel gets other contents, a parked task is woken, and
something goes on record. Together with picking up a result and with unwinding that is all
there is to a turn, whatever the code.

So what each of these deeds preserves is true at any time of any run. The order in the crew is
the first example. Here nothing is left out, not even the runs in which a task is lined up in
vain.
-/

namespace TaskVm

open Exec Relation

/-- The act is about values that go through channels. -/
def Act.isTraffic : Act → Bool
  | .began _ _ | .sent _ _ _ | .refused _ _ | .received _ _ _ | .drained _ | .parked _ _ _
  | .closed _ => true
  | _ => false

/-- One thing that happens in a turn, in which natives may do to the heap what `K` allows. -/
inductive DeedIn (K : Heap → Heap → Prop) (s : Turn) : Turn → Prop where
  | change {s' : Turn} (h : ChangeIn K s s') : DeedIn K s s'
  | channel (id : ChannelId) (c : Channel) : DeedIn K s { s with heap := s.heap.setChannel id c }
  | traffic {a : Act} (ha : a.isTraffic) : DeedIn K s { s with acts := s.acts ++ [a] }
  | wake (w : Waiter) (r : Resume) : DeedIn K s (endState (Exec.wake w r) s)
  /-- The task picks up what its wait has come to. -/
  | resume {r : Resume} (hr : s.task.resume = some r) : DeedIn K s { s with
      acts := s.acts ++ [.resumed s.task.id r], task := { s.task with resume := none } }
  /-- A throw is caught. -/
  | unwind {hd : Handler} {rest : List Handler} (hh : s.task.handlers = hd :: rest) (v : Value) :
      DeedIn K s (s.unwind v).2

/-- One thing that happens in a turn in which natives leave alone what tasks share. -/
abbrev Deed : Turn → Turn → Prop := DeedIn Heap.Extends

/-- Deeds one after the other. -/
abbrev DeedsIn (K : Heap → Heap → Prop) : Turn → Turn → Prop := ReflTransGen (DeedIn K)

abbrev Deeds : Turn → Turn → Prop := DeedsIn Heap.Extends

section

variable {K : Heap → Heap → Prop}

theorem DeedIn.deeds {s s' : Turn} (h : DeedIn K s s') : DeedsIn K s s' := .single h

theorem deeds_of_changes {s s' : Turn} (h : ChangesIn K s s') : DeedsIn K s s' := by
  induction h with
  | refl => exact .refl
  | tail _ hc ih => exact ih.tail (.change hc)

/-- What a computation without channels leads to. -/
theorem Leads.deeds {α : Type} {x : Exec α} {s : Turn} (h : Leads (ChangesIn K) x s) :
    Leads (DeedsIn K) x s := deeds_of_changes h

end

namespace Exec

variable {K : Heap → Heap → Prop}

/-! ## Channels -/

theorem deeds_note {a : Act} (ha : a.isTraffic) (s : Turn) : Leads (DeedsIn K) (note a) s :=
  (DeedIn.traffic ha).deeds

theorem deeds_begin (op : Operation) (s : Turn) : Leads (DeedsIn K) (begin op) s :=
  deeds_note rfl s

theorem deeds_wake (w : Waiter) (r : Resume) (s : Turn) : Leads (DeedsIn K) (wake w r) s :=
  (DeedIn.wake w r).deeds

theorem deeds_setChannel (id : ChannelId) (c : Channel) (s : Turn) :
    Leads (DeedsIn K) (setChannel id c) s := (DeedIn.channel id c).deeds

theorem deeds_trySend (id : ChannelId) (v : Value) (s : Turn) :
    Leads (DeedsIn K) (trySend id v) s := by
  unfold trySend
  refine leads_get_bind ?_
  dsimp only
  refine leads_bind (deeds_setChannel _ _ s) fun _ s _ => ?_
  split
  · refine leads_bind (deeds_note rfl s) fun _ s _ => ?_
    exact leads_bind (deeds_wake _ _ s) fun _ s _ => leads_pure _ s
  · exact leads_bind (deeds_note rfl s) fun _ s _ => leads_pure _ s
  · exact leads_bind (deeds_note rfl s) fun _ s _ => leads_pure _ s
  · exact leads_bind (leads_pure _ s) fun _ s _ => leads_pure _ s

theorem deeds_tryReceive (id : ChannelId) (s : Turn) : Leads (DeedsIn K) (tryReceive id) s := by
  unfold tryReceive
  refine leads_get_bind ?_
  dsimp only
  refine leads_bind (deeds_setChannel _ _ s) fun _ s _ => ?_
  split
  · refine leads_bind (deeds_note rfl s) fun _ s _ => ?_
    exact leads_bind (deeds_wake _ _ s) fun _ s _ => leads_pure _ s
  · exact leads_bind (deeds_note rfl s) fun _ s _ => leads_pure _ s
  · exact leads_bind (deeds_note rfl s) fun _ s _ => leads_pure _ s
  · exact leads_bind (leads_pure _ s) fun _ s _ => leads_pure _ s

theorem deeds_park (live : Waiter → Bool) (id : ChannelId) (w : Waiter) (offer : Option Value)
    (s : Turn) : Leads (DeedsIn K) (park live id w offer) s := by
  unfold park
  refine leads_get_bind ?_
  dsimp only
  exact leads_bind (deeds_setChannel _ _ s) fun _ s _ => deeds_note rfl s

theorem deeds_channelSend (id : ChannelId) (v : Value) (s : Turn) :
    Leads (DeedsIn K) (channelSend id v) s := by
  unfold channelSend
  refine leads_bind (deeds_begin _ s) fun _ s _ => ?_
  refine leads_bind (deeds_trySend id v s) fun _ s _ => ?_
  split
  · exact leads_bind (leads_push s _).deeds fun _ s _ => leads_pure _ s
  · exact leads_throw _ s
  · refine leads_get_bind ?_
    exact leads_bind (deeds_park _ _ _ _ s) fun _ s _ => leads_pure _ s

theorem deeds_channelReceive (id : ChannelId) (s : Turn) :
    Leads (DeedsIn K) (channelReceive id) s := by
  unfold channelReceive
  refine leads_bind (deeds_begin _ s) fun _ s _ => ?_
  refine leads_bind (deeds_tryReceive id s) fun _ s _ => ?_
  split
  · exact leads_bind (leads_push s _).deeds fun _ s _ => leads_pure _ s
  · exact leads_bind (leads_push s _).deeds fun _ s _ => leads_pure _ s
  · refine leads_get_bind ?_
    exact leads_bind (deeds_park _ _ _ _ s) fun _ s _ => leads_pure _ s

/-- One waiter after the other is woken. -/
theorem deeds_wakeAll {f : Waiter → Resume} : ∀ (ws : List Waiter) (s : Turn),
    Leads (DeedsIn K) (ws.forM fun w => wake w (f w)) s
  | [], s => leads_pure _ s
  | w :: ws, s => by
    show Leads (DeedsIn K) (do wake w (f w); ws.forM fun w => wake w (f w)) s
    exact leads_bind (deeds_wake _ _ s) fun _ s _ => deeds_wakeAll ws s

theorem deeds_channelClose (id : ChannelId) (s : Turn) : Leads (DeedsIn K) (channelClose id) s := by
  unfold channelClose
  refine leads_get_bind ?_
  split
  · exact leads_throw _ s
  · refine leads_bind (deeds_setChannel _ _ s) fun _ s _ => ?_
    refine leads_bind (deeds_wakeAll _ s) fun _ s _ => ?_
    refine leads_bind (deeds_wakeAll _ s) fun _ s _ => deeds_note rfl s

theorem deeds_tryCase (case : SelectCase) (s : Turn) : Leads (DeedsIn K) (tryCase case) s := by
  unfold tryCase
  split
  · refine leads_bind (deeds_tryReceive _ s) fun _ s _ => ?_
    split
    · exact leads_pure _ s
    · exact leads_pure _ s
    · exact leads_pure _ s
  · refine leads_bind (deeds_trySend _ _ s) fun _ s _ => ?_
    split
    · exact leads_pure _ s
    · exact leads_throw _ s
    · exact leads_pure _ s

theorem deeds_drawCase (ready : List Nat) (s : Turn) : Leads (DeedsIn K) (drawCase ready) s := by
  have hc : ChangeIn K s { s with vm := { s.vm with dice := (s.vm.dice.roll ready.length).2 } } :=
    ChangeIn.vm (.count _ _ _)
  exact (DeedIn.change hc).deeds

theorem deeds_selectReady (cases : List SelectCase) (s : Turn) :
    Leads (DeedsIn K) (selectReady cases) s := by
  unfold selectReady
  refine leads_get_bind ?_
  dsimp only
  split
  · exact leads_pure _ s
  · refine leads_bind (deeds_drawCase _ s) fun _ s _ => ?_
    split
    · exact leads_pure _ s
    · refine leads_bind (deeds_tryCase _ s) fun _ s _ => ?_
      split
      · exact leads_pure _ s
      · exact leads_pure _ s

theorem deeds_parkCases : ∀ (cases : List (SelectCase × Nat)) (s : Turn),
    Leads (DeedsIn K) (parkCases cases) s
  | [], s => leads_pure _ s
  | (case, index) :: rest, s => by
    unfold parkCases
    refine leads_get_bind ?_
    dsimp only
    cases case with
    | receive id => exact leads_bind (deeds_park _ _ _ _ s) fun _ s _ => deeds_parkCases rest s
    | send id v => exact leads_bind (deeds_park _ _ _ _ s) fun _ s _ => deeds_parkCases rest s

theorem deeds_pushSelected (v : Value) (index : Int) (s : Turn) :
    Leads (DeedsIn K) (pushSelected v index) s :=
  leads_bind (leads_push s v).deeds fun _ s _ => (leads_push s _).deeds

theorem deeds_select (cases : List SelectCase) (hasDefault : Bool) (s : Turn) :
    Leads (DeedsIn K) (select cases hasDefault) s := by
  unfold select
  refine leads_bind (deeds_begin _ s) fun _ s _ => ?_
  refine leads_bind (deeds_selectReady cases s) fun _ s _ => ?_
  split
  · exact leads_bind (deeds_pushSelected _ _ s) fun _ s _ => leads_pure _ s
  · split
    · exact leads_bind (deeds_pushSelected _ _ s) fun _ s _ => leads_pure _ s
    · exact leads_bind (deeds_parkCases _ s) fun _ s _ => leads_pure _ s

/-! ## Instructions -/

theorem deeds_execute [Heap.Permits K] {s : Turn} (ht : ∀ f ∈ s.hosts, f.Respects K) (op : Opcode) :
    Leads (DeedsIn K) (execute op) s := by
  cases hop : isChannelOp op with
  | false => exact (leads_execute s ht hop).deeds
  | true =>
    cases op
    case channelSend =>
      refine leads_bind (leads_pop s).deeds fun _ s _ => ?_
      exact leads_bind (leads_popChannel s).deeds fun _ s _ => deeds_channelSend _ _ s
    case channelRecv =>
      exact leads_bind (leads_popChannel s).deeds fun _ s _ => deeds_channelReceive _ s
    case channelClose =>
      refine leads_bind (leads_popChannel s).deeds fun _ s _ => ?_
      refine leads_bind (deeds_channelClose _ s) fun _ s _ => ?_
      exact leads_bind (leads_push s _).deeds fun _ s _ => leads_pure _ s
    case select =>
      exact leads_bind (leads_selectOperands s).deeds fun _ s _ => deeds_select _ _ s
    all_goals nomatch hop

theorem deeds_instruction [Heap.Permits K] {s : Turn} (ht : ∀ f ∈ s.hosts, f.Respects K) :
    Leads (DeedsIn K) instruction s := by
  unfold instruction
  refine leads_bind (leads_fetch s).deeds fun op s₁ hf => ?_
  have ht₁ := (hosts_of_changes (K := K) ((leads_fetch s).of_ok hf)) ▸ ht
  refine leads_bind (leads_countInstruction s₁ op).deeds fun _ s₂ hs => ?_
  have ht₂ := (hosts_of_changes (K := K) ((leads_countInstruction s₁ op).of_ok hs)) ▸ ht₁
  exact deeds_execute ht₂ op

theorem deeds_step [Heap.Permits K] {s : Turn} (ht : ∀ f ∈ s.hosts, f.Respects K) :
    Leads (DeedsIn K) step s := by
  refine leads_bind (deeds_instruction ht) fun flow s _ => leads_get_bind ?_
  split
  · exact leads_throw _ s
  · exact leads_pure _ s

end Exec

/-! ## Turns -/

namespace Turn

variable {K : Heap → Heap → Prop} {s : Turn}

theorem deeds_unwind (s : Turn) (v : Value) : DeedsIn K s (s.unwind v).2 := by
  cases hh : s.task.handlers with
  | nil =>
    unfold unwind
    rw [hh]
  | cons hd rest => exact (DeedIn.unwind hh v).deeds

theorem deeds_recover (s : Turn) (e : Fault) : DeedsIn K s (s.recover e).2 := by
  cases e with
  | endless => exact .refl
  | raised e =>
    have htell : DeedsIn K s { s with events := s.events ++ [.raised s.task.id e] } :=
      (DeedIn.change (ChangeIn.tell _)).deeds
    unfold recover
    dsimp only
    split
    · exact htell
    · exact htell.trans (deeds_unwind _ _)

theorem deeds_perform {x : Exec Flow} (h : Leads (DeedsIn K) x s) :
    DeedsIn K s (s.perform x).2 := by
  unfold perform
  cases hx : x s with
  | ok flow s' =>
    have hs' : DeedsIn K s s' := h.of_ok hx
    cases flow with
    | thrown v => exact hs'.trans (deeds_unwind s' v)
    | _ => exact hs'
  | error e s' =>
    rw [Leads, endState_error hx] at h
    exact h.trans (deeds_recover s' e)

theorem deeds_resumeWith (r : Resume) (s : Turn) : Leads (DeedsIn K) (resumeWith r) s := by
  cases r with
  | value v => exact leads_bind (leads_push s v).deeds fun _ s _ => leads_pure _ s
  | selected index v => exact leads_bind (deeds_pushSelected v index s) fun _ s _ => leads_pure _ s
  | error e => exact leads_pure _ s

/-- **What the running task does is deeds**, whatever the code and whatever it leads to. -/
theorem deeds_advance [Heap.Permits K] (ht : ∀ f ∈ s.hosts, f.Respects K) :
    DeedsIn K s s.advance.2 := by
  unfold advance
  split
  · rename_i r hr
    exact (DeedIn.resume hr).deeds.trans (deeds_perform (deeds_resumeWith r _))
  · split
    · exact .refl
    · split
      · exact deeds_perform (leads_leaveFrame s .nil).deeds
      · exact deeds_perform (deeds_step ht)

end Turn

/-! ## What deeds leave alone -/

/-- Closing cells concerns cells only. -/
theorem Turn.unwind_frame {s : Turn} {hd : Handler} {rest : List Handler}
    (hh : s.task.handlers = hd :: rest) (v : Value) :
    ∃ acts events cells frames openUpvalues iterations stack, (s.unwind v).2 = { s with
      acts := s.acts ++ acts, events := s.events ++ events, heap := { s.heap with cells }
      task := { s.task with frames, openUpvalues, iterations, stack } } := by
  unfold unwind
  rw [hh]
  dsimp only
  rw [OpenUpvalues.closeFrom_frame]
  split
  · exact ⟨_, _, _, _, _, _, _, rfl⟩
  · exact ⟨_, _, _, _, _, _, _, rfl⟩

theorem Turn.unwind_acts {s : Turn} {hd : Handler} {rest : List Handler}
    (hh : s.task.handlers = hd :: rest) (v : Value) :
    ∃ left, (s.unwind v).2.acts = s.acts ++ [.left s.task.id left] := by
  unfold unwind
  rw [hh]
  dsimp only
  split <;> exact ⟨_, rfl⟩

theorem DeedIn.hosts_eq {K : Heap → Heap → Prop} {s s' : Turn} (h : DeedIn K s s') :
    s'.hosts = s.hosts := by
  cases h with
  | change h => exact h.hosts_eq
  | unwind hh v =>
    obtain ⟨acts, events, cells, frames, openUpvalues, iterations, stack, hs⟩ :=
      Turn.unwind_frame hh v
    rw [hs]
  | _ => rfl

theorem hosts_of_deeds {K : Heap → Heap → Prop} {s s' : Turn} (h : DeedsIn K s s') :
    s'.hosts = s.hosts := by
  induction h with
  | refl => rfl
  | tail _ hd ih => rw [hd.hosts_eq, ih]

/-! ## Order in the crew -/

theorem DeedIn.tended {s s' : Turn} (h : Deed s s') (hs : s.crew.Tended) : s'.crew.Tended := by
  cases h with
  | change h =>
    rcases ChangeIn.crew hs.keyed h with hc | hc | hc
    · exact hc ▸ hs
    · exact hc ▸ hs.reserve
    · exact hc ▸ hs.enlist
  | wake w r => exact s.wake_crew w r ▸ hs.wake w r
  | resume hr => exact hs.resume (rfl : s.crew.running = some s.task.badge)
  | unwind hh v =>
    obtain ⟨acts, events, cells, frames, openUpvalues, iterations, stack, hs'⟩ :=
      Turn.unwind_frame hh v
    rw [hs']
    exact hs
  | _ => exact hs

theorem tended_of_deeds {s s' : Turn} (h : Deeds s s') (hs : s.crew.Tended) :
    s'.crew.Tended := by
  induction h with
  | refl => exact hs
  | tail _ hd ih => exact hd.tended ih

/-- What a wait has come to is picked up once. -/
theorem DeedIn.resume_none {K : Heap → Heap → Prop} {s s' : Turn} (h : DeedIn K s s')
    (hs : s.task.resume = none) : s'.task.resume = none := by
  cases h with
  | change h =>
    cases h with
    | @writeCell cell hc v =>
      obtain ⟨cells, tasks, stack, touched, hs'⟩ := writeCell_frame s cell v
      rwa [hs']
    | _ => exact hs
  | resume hr => rfl
  | unwind hh v =>
    obtain ⟨acts, events, cells, frames, openUpvalues, iterations, stack, hs'⟩ :=
      Turn.unwind_frame hh v
    rwa [hs']
  | _ => exact hs

theorem resume_none_of_deeds {K : Heap → Heap → Prop} {s s' : Turn} (h : DeedsIn K s s')
    (hs : s.task.resume = none) : s'.task.resume = none := by
  induction h with
  | refl => exact hs
  | tail _ hd ih => exact hd.resume_none ih

/-- When a task has had its turn it has picked up all there was. -/
theorem Turn.advance_resume {s : Turn} (ht : ∀ f ∈ s.hosts, f.Tame) :
    s.advance.2.task.resume = none := by
  unfold advance
  split
  · rename_i r hr
    exact resume_none_of_deeds (K := Heap.Extends) (deeds_perform (deeds_resumeWith r _)) rfl
  · rename_i hnone
    split
    · exact hnone
    · split
      · have hleft : Deeds s _ := deeds_perform (leads_leaveFrame s .nil).deeds
        exact resume_none_of_deeds hleft hnone
      · have hstep : Deeds s _ := deeds_perform (deeds_step ht)
        exact resume_none_of_deeds hstep hnone

/-! ## Runs -/

namespace Machine

variable {ok : Machine → Prop} {m m' m₀ : Machine}

/-- The host keeps to its part, and everyone is where they belong. -/
structure Fit (m : Machine) : Prop where
  tame : ∀ f ∈ m.hosts, f.Tame
  tended : m.crew.Tended

theorem Fit.turn (h : m.Fit) {task : Task} (hr : m.running = some task) :
    (m.turn task).crew.Tended := by
  rw [Turn.crew, ofTurn_turn hr]
  exact h.tended

theorem tick_hosts {K : Heap → Heap → Prop} [Heap.Permits K] (ht : ∀ f ∈ m.hosts, f.Respects K) :
    m.tick.machine.hosts = m.hosts := by
  refine tick_induct (P := (·.hosts = m.hosts)) (fun _ => m.dispatch_resettles.hosts) ?_ ?_
  · exact fun task _ => hosts_of_deeds (Turn.deeds_advance (s := m.turn task) ht)
  · exact fun _ _ _ _ _ hover hhosts => hover.resettles.hosts.trans hhosts

theorem tick_fit (h : m.Fit) (hend : m.tick.outcome ≠ some .endless) : m.tick.machine.Fit := by
  refine ⟨(tick_hosts h.tame).symm ▸ h.tame, ?_⟩
  refine tick_induct (P := (·.crew.Tended)) (dispatch_tended h.tended) ?_ ?_
  · exact fun task hr => tended_of_deeds (Turn.deeds_advance h.tame) (h.turn hr)
  · intro task s o hr ha hover htended
    have hnone := Turn.advance_resume (s := m.turn task) h.tame
    rw [ha] at hnone
    exact hover.tended htended hnone (mt hover.endless_iff.mpr hend)

theorem Move.fit {acts : List Act} (h : Move ok m acts m') (hm : m.Fit) : m'.Fit := by
  cases h with
  | tick _ hend => exact tick_fit hm hend
  | pause => exact ⟨m.pause_resettles.hosts ▸ hm.tame, pause_tended hm.tended⟩
  | load hr chunk =>
    have hrunning : m.crew.running = none := by rw [crew, hr]; rfl
    exact ⟨hm.tame, crew_load m chunk ▸ hm.tended.start hrunning⟩
  | prepare hh he hv hr =>
    exact ⟨hh, crew_prepare he hv hr ▸ hm.tended⟩

/-- **There is order at any time of any run.** -/
theorem Run.fit {hist : List Act} (h : Run ok m₀ hist m) (hm : m₀.Fit) : m.Fit := by
  induction h with
  | refl => exact hm
  | tail _ hmove ih => exact hmove.fit ih

theorem create_fit {hosts : Array HostFunction} (ht : ∀ f ∈ hosts, f.Tame) (h : Heap) (id : VmId)
    (config : VmConfig) (dice : Dice) : (create hosts h id config dice).Fit :=
  ⟨ht, create_tended hosts h id config dice⟩

end Machine

end TaskVm
