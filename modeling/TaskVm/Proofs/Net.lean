import TaskVm.Proofs.Scheduling

/-!
# The net of channels

What channels and waits would be if nothing were ever left lying around. In a machine a
waiter stays in its line after its wait is over, until some operation comes by and skips or
removes it. In the net a wait that ends takes all its claims with it, at once and on every
channel. A machine behaves like its net: that is why stale waiters are harmless, and it
leaves statements about channels to be proved where there are none.

Each step of the net does one thing and says what goes on record. That a channel closes and
that those in line are told is one thing.
-/

namespace TaskVm

/-- A waiter of the same wait. -/
def Waiter.alike (w w' : Waiter) : Bool := w'.task == w.task && w'.epoch == w.epoch

/-- A waiter of one wait of one task. -/
def Waiter.isOf (w : Waiter) (t : TaskId) (epoch : Nat) : Bool := w.task == t && w.epoch == epoch

/-- Keep only some claims. -/
def Channel.prune (keep : Waiter → Bool) (c : Channel) : Channel :=
  { c with receivers := c.receivers.filter keep, senders := c.senders.filter fun s => keep s.1 }

/-- Everyone in line. -/
def Channel.waiters (c : Channel) : List Waiter := c.receivers ++ c.senders.map (·.1)

/-- What those in line are told when the channel closes: receivers go on with nil, senders
fail. -/
def Channel.dismissals (c : Channel) : List (Waiter × Resume) :=
  c.receivers.map (fun w => (w, Scheduler.resumeOf w .nil)) ++
    c.senders.map fun x => (x.1, .error .channelClosed)

/-- Who is told what when a channel closes. -/
theorem Channel.mem_dismissals {c : Channel} {w : Waiter} {r : Resume} : (w, r) ∈ c.dismissals ↔
    w ∈ c.receivers ∧ r = Scheduler.resumeOf w .nil ∨
      (∃ v, (w, v) ∈ c.senders) ∧ r = .error .channelClosed := by
  simp only [dismissals, List.mem_append, List.mem_map, Prod.mk.injEq, Prod.exists]
  grind

theorem Channel.exists_dismissal {c : Channel} {w : Waiter} (hw : w ∈ c.waiters) :
    ∃ r, (w, r) ∈ c.dismissals := by
  rcases List.mem_append.mp hw with hw | hw
  · exact ⟨_, mem_dismissals.mpr (.inl ⟨hw, rfl⟩)⟩
  · obtain ⟨⟨w, v⟩, hmem, rfl⟩ := List.mem_map.mp hw
    exact ⟨_, mem_dismissals.mpr (.inr ⟨⟨v, hmem⟩, rfl⟩)⟩

theorem Channel.dismissals_prune (c : Channel) (keep : Waiter → Bool) :
    (c.prune keep).dismissals = c.dismissals.filter fun x => keep x.1 := by
  simp [dismissals, prune, List.filter_map, Function.comp_def]

/-- What is kept depends on what is said of those in line. -/
theorem Channel.prune_congr {keep keep' : Waiter → Bool} {c : Channel}
    (h : ∀ w ∈ c.waiters, keep w = keep' w) : c.prune keep = c.prune keep' := by
  have hr : c.receivers.filter keep = c.receivers.filter keep' :=
    List.filter_congr fun w hw => h w (List.mem_append_left _ hw)
  have hs : c.senders.filter (fun x => keep x.1) = c.senders.filter fun x => keep' x.1 :=
    List.filter_congr fun x hx => h x.1 (List.mem_append_right _ (List.mem_map_of_mem hx))
  rw [prune, prune, hr, hs]

theorem setIfInBounds_self {α : Type} {a : Array α} {i : Nat} {x : α} (h : a[i]? = some x) :
    a.setIfInBounds i x = a := by
  obtain ⟨hlt, rfl⟩ := Array.getElem?_eq_some_iff.mp h
  rw [Array.setIfInBounds_def, dif_pos hlt, Array.set_getElem_self]

def SelectCase.channel : SelectCase → ChannelId
  | receive c | send c _ => c

/-- What an operation lays claim to on a channel when it has to wait: to receive, or to send
a value. -/
structure Claim where
  channel : ChannelId
  case : Option Nat
  offer : Option Value

namespace Claim

/-- The claim of a case of a select. -/
def ofCase (case : SelectCase × Nat) : Claim :=
  match case.1 with
  | .receive c => ⟨c, some case.2, none⟩
  | .send c v => ⟨c, some case.2, some v⟩

def waiter (k : Claim) (task : TaskId) (epoch : Nat) : Waiter := ⟨task, epoch, k.case⟩

/-- What is on record of a claim. -/
def act (task : TaskId) (epoch : Nat) (k : Claim) : Act :=
  .parked k.channel (k.waiter task epoch) k.offer

/-- Who lines up at a channel to receive. -/
def receivers (claims : List Claim) (task : TaskId) (epoch : Nat) (ch : ChannelId) :
    List Waiter :=
  claims.filterMap fun k =>
    if k.channel = ch ∧ k.offer = none then some (k.waiter task epoch) else none

/-- Who lines up at a channel to send, and what. -/
def senders (claims : List Claim) (task : TaskId) (epoch : Nat) (ch : ChannelId) :
    List (Waiter × Value) :=
  claims.filterMap fun k =>
    if k.channel = ch then k.offer.map fun v => (k.waiter task epoch, v) else none

/-- A claim cannot be met by what is there. -/
def Idle (c : Channel) (k : Claim) : Prop :=
  c.closed = false ∧ match k.offer with
    | none => c.buffer = [] ∧ c.senders = []
    | some _ => c.capacity ≤ c.buffer.length ∧ c.receivers = []

end Claim

namespace Operation

/-- What an operation lays claim to. -/
def claims : Operation → List Claim
  | send c v => [⟨c, none, some v⟩]
  | receive c => [⟨c, none, none⟩]
  | select cases _ => cases.zipIdx.map Claim.ofCase

end Operation

namespace Act

/-- The act does not concern waits, nor values that go through channels. -/
def isPrivate : Act → Bool
  | sent _ _ _ | received _ _ _ | parked _ _ _ | closed _ | woken _ _ | resumed _ _
  | began _ _ | ended _ => false
  | _ => true

end Act

/-- Channels with the claims that count, and waits. -/
structure Net where
  channels : Array Channel
  waits : TaskId → Option Wait
  nextId : TaskId

namespace Net

/-- Set where a task stands. -/
def setWait (n : Net) (t : TaskId) (x : Option Wait) : Net :=
  { n with waits := fun id => if id = t then x else n.waits id }

def put (n : Net) (ch : ChannelId) (c : Channel) : Net :=
  { n with channels := n.channels.setIfInBounds ch c }

theorem put_self {n : Net} {ch : ChannelId} {c : Channel} (hc : n.channels[ch]? = some c) :
    n.put ch c = n := by
  rw [put, setIfInBounds_self hc]

/-- Keep only some claims. -/
def prune (n : Net) (keep : Waiter → Bool) : Net :=
  { n with channels := n.channels.map (·.prune keep) }

/-- End a wait. -/
def wake (n : Net) (w : Waiter) (r : Resume) : Net :=
  (n.prune fun w' => !w.alike w').setWait w.task (some ⟨w.epoch + 1, false, some r⟩)

/-- Line up with all claims of an operation. -/
def park (n : Net) (t : TaskId) (epoch : Nat) (claims : List Claim) : Net :=
  { n.setWait t (some ⟨epoch, true, none⟩) with
    channels := n.channels.mapIdx fun ch c => { c with
      receivers := c.receivers ++ Claim.receivers claims t epoch ch
      senders := c.senders ++ Claim.senders claims t epoch ch } }

/-- Tasks are there no longer. -/
def leave (n : Net) (ids : List TaskId) : Net :=
  { n.prune fun w => !ids.contains w.task with
    waits := fun id => if id ∈ ids then none else n.waits id }

/-- Some waiters are told what to go on with, one after the other. Those whose wait is over by
the time it is their turn are passed over: a wait that has several of them ends with the first. -/
inductive Tells : Net → List (Waiter × Resume) → List Act → Net → Prop where
  | nil (n : Net) : Tells n [] [] n
  | told {n n' : Net} {w : Waiter} {r : Resume} {rest : List (Waiter × Resume)} {acts : List Act}
      (hw : Wait.live n.waits w = true) (h : Tells (n.wake w r) rest acts n') :
      Tells n ((w, r) :: rest) (.woken w r :: acts) n'
  | passed {n n' : Net} {w : Waiter} {r : Resume} {rest : List (Waiter × Resume)} {acts : List Act}
      (hw : Wait.live n.waits w = false) (h : Tells n rest acts n') :
      Tells n ((w, r) :: rest) acts n'

/-- A step of the net, and what goes on record. -/
inductive Step (n : Net) : List Act → Net → Prop where
  | quiet {a : Act} (ha : a.isPrivate) : Step n [a] n
  | create {fresh : Array Channel} (hf : ∀ c ∈ fresh, ∃ k, c = .ofCapacity k) :
      Step n [] { n with channels := n.channels ++ fresh }
  | reserve : Step n [] { n with nextId := n.nextId + 1 }
  | enlist : Step n [] { n.setWait n.nextId (some ⟨0, false, none⟩) with nextId := n.nextId + 1 }
  | begin {t : TaskId} {x : Wait} (hx : n.waits t = some x) (hp : x.parked = false)
      (op : Operation) : Step n [.began t op] n
  /-- A send straight to the first receiver. -/
  | hand {ch : ChannelId} {c : Channel} (hc : n.channels[ch]? = some c) (ho : c.closed = false)
      {w : Waiter} {rest : List Waiter} (hr : c.receivers = w :: rest) (v : Value) :
      Step n [.sent ch v (some w), .woken w (Scheduler.resumeOf w v)]
        ((n.put ch { c with receivers := rest }).wake w (Scheduler.resumeOf w v))
  /-- A send into the buffer. -/
  | store {ch : ChannelId} {c : Channel} (hc : n.channels[ch]? = some c) (ho : c.closed = false)
      (hr : c.receivers = []) (hroom : c.buffer.length < c.capacity) (v : Value) :
      Step n [.sent ch v none] (n.put ch { c with buffer := c.buffer ++ [v] })
  /-- A receive from the buffer. -/
  | take {ch : ChannelId} {c : Channel} (hc : n.channels[ch]? = some c) {v : Value}
      {buffer : List Value} (hb : c.buffer = v :: buffer) (hs : c.senders = []) :
      Step n [.received ch v none] (n.put ch { c with buffer })
  /-- A receive from the buffer that lets the first sender in. -/
  | refill {ch : ChannelId} {c : Channel} (hc : n.channels[ch]? = some c) {v u : Value}
      {buffer : List Value} (hb : c.buffer = v :: buffer) {w : Waiter}
      {rest : List (Waiter × Value)} (hs : c.senders = (w, u) :: rest) :
      Step n [.received ch v (some w), .woken w (Scheduler.resumeOf w .nil)]
        ((n.put ch { c with buffer := buffer ++ [u], senders := rest }).wake w
          (Scheduler.resumeOf w .nil))
  /-- A receive straight from the first sender. -/
  | fetch {ch : ChannelId} {c : Channel} (hc : n.channels[ch]? = some c) (hb : c.buffer = [])
      {w : Waiter} {v : Value} {rest : List (Waiter × Value)} (hs : c.senders = (w, v) :: rest) :
      Step n [.received ch v (some w), .woken w (Scheduler.resumeOf w .nil)]
        ((n.put ch { c with senders := rest }).wake w (Scheduler.resumeOf w .nil))
  /-- A channel is closed: all in line are told, and with nobody left in line it closes. -/
  | close {ch : ChannelId} {c : Channel} (hc : n.channels[ch]? = some c) (ho : c.closed = false)
      {acts : List Act} {n' : Net} (ht : Tells n c.dismissals acts n') {c' : Channel}
      (hc' : n'.channels[ch]? = some c') (hr : c'.receivers = []) (hs : c'.senders = []) :
      Step n (acts ++ [.closed ch]) (n'.put ch { c' with closed := true })
  /-- A task begins an operation that has to wait. -/
  | park {t : TaskId} {epoch : Nat} (hx : n.waits t = some ⟨epoch, false, none⟩)
      (op : Operation)
      (hidle : ∀ k ∈ op.claims, ∃ c, n.channels[k.channel]? = some c ∧ k.Idle c) :
      Step n (.began t op :: op.claims.map (Claim.act t epoch)) (n.park t epoch op.claims)
  | resume {t : TaskId} {epoch : Nat} {r : Resume} (hx : n.waits t = some ⟨epoch, false, some r⟩) :
      Step n [.resumed t r] (n.setWait t (some ⟨epoch, false, none⟩))
  | leave (ids : List TaskId) : Step n (ids.map .ended) (n.leave ids)

/-- Steps one after the other, with all that went on record. -/
inductive Run (n : Net) : List Act → Net → Prop where
  | refl : Run n [] n
  | tail {acts acts' : List Act} {n' n'' : Net} (h : Run n acts n') (hs : Step n' acts' n'') :
      Run n (acts ++ acts') n''

variable {n n' n'' : Net} {acts acts' : List Act}

theorem Step.run (h : Step n acts n') : Run n acts n' := Run.refl.tail h

theorem Run.trans (h : Run n acts n') (h' : Run n' acts' n'') : Run n (acts ++ acts') n'' := by
  induction h' with
  | refl =>
    rw [List.append_nil]
    exact h
  | tail _ hs ih =>
    rw [← List.append_assoc]
    exact ih.tail hs

/-! ## Being told -/

theorem waits_wake (n : Net) (w : Waiter) (r : Resume) :
    (n.wake w r).waits w.task = some ⟨w.epoch + 1, false, some r⟩ := if_pos rfl

/-- A wait that has ended has no live waiters any more. -/
theorem live_wake (n : Net) (w w' : Waiter) (r : Resume) :
    Wait.live (n.wake w r).waits w' = (w'.task != w.task && Wait.live n.waits w') := by
  unfold Wait.live wake setWait prune
  by_cases ht : w'.task = w.task
  · simp [ht]
  · simp [ht]

namespace Tells

variable {l l' : List (Waiter × Resume)} {w : Waiter} {r : Resume}

theorem single (hw : Wait.live n.waits w = true) (r : Resume) :
    Tells n [(w, r)] [.woken w r] (n.wake w r) := .told hw (.nil _)

theorem append (h : Tells n l acts n') (h' : Tells n' l' acts' n'') :
    Tells n (l ++ l') (acts ++ acts') n'' := by
  induction h with
  | nil => exact h'
  | told hw _ ih => exact .told hw (ih h')
  | passed hw _ ih => exact .passed hw (ih h')

/-- Nobody comes back to life by being told, nor by others being told. -/
theorem dead (h : Tells n l acts n') (hw : Wait.live n.waits w = false) :
    Wait.live n'.waits w = false := by
  induction h with
  | nil => exact hw
  | told _ _ ih => exact ih (by rw [live_wake, hw, Bool.and_false])
  | passed _ _ ih => exact ih hw

/-- **Once all have had their turn none of them waits any more.** -/
theorem all_dead (h : Tells n l acts n') {x : Waiter × Resume} (hx : x ∈ l) :
    Wait.live n'.waits x.1 = false := by
  induction h with
  | nil => cases hx
  | @told n n' w r rest acts hw h ih =>
    rcases List.mem_cons.mp hx with rfl | hx
    · exact h.dead (by rw [live_wake, bne_self_eq_false, Bool.false_and])
    · exact ih hx
  | passed hw h ih =>
    rcases List.mem_cons.mp hx with rfl | hx
    · exact h.dead hw
    · exact ih hx

/-- Whether those who do not wait are in line makes no difference. -/
theorem filter (h : Tells n l acts n') {keep : Waiter × Resume → Bool}
    (hk : ∀ x ∈ l, keep x = false → Wait.live n.waits x.1 = false) :
    Tells n (l.filter keep) acts n' := by
  induction h with
  | nil n => exact .nil n
  | @told n n' w r rest acts hw h ih =>
    have hkeep : keep (w, r) = true := by
      cases hf : keep (w, r) with
      | true => rfl
      | false => rw [hk _ List.mem_cons_self hf] at hw; cases hw
    rw [List.filter_cons_of_pos hkeep]
    refine .told hw (ih fun x hx hf => ?_)
    rw [live_wake, hk x (List.mem_cons_of_mem _ hx) hf, Bool.and_false]
  | @passed n n' w r rest acts hw h ih =>
    have hrest := ih fun x hx => hk x (List.mem_cons_of_mem _ hx)
    rw [List.filter_cons]
    split
    · exact .passed hw hrest
    · exact hrest

/-- Only wake-ups are on record. -/
theorem woken (h : Tells n l acts n') : ∀ a ∈ acts, ∃ w r, a = .woken w r := by
  induction h with
  | nil => simp
  | @told n n' w r rest acts hw h ih =>
    intro a ha
    rcases List.mem_cons.mp ha with rfl | ha
    · exact ⟨w, r, rfl⟩
    · exact ih a ha
  | passed hw h ih => exact ih

theorem nextId (h : Tells n l acts n') : n'.nextId = n.nextId := by
  induction h with
  | nil => rfl
  | told _ _ ih => exact ih
  | passed _ _ ih => exact ih

/-- A task that is not parked is not told anything. -/
theorem kept (h : Tells n l acts n') {t : TaskId} {x : Wait} (hx : n.waits t = some x)
    (hp : x.parked = false) : n'.waits t = some x ∧ ∀ w r, .woken w r ∈ acts → w.task ≠ t := by
  induction h with
  | nil => exact ⟨hx, by simp⟩
  | @told n n' w r rest acts hw h ih =>
    have ht : w.task ≠ t := by
      rintro rfl
      obtain ⟨y, hy, hparked, -⟩ := Wait.live_iff.mp hw
      rw [hx] at hy
      obtain rfl := Option.some.inj hy
      rw [hp] at hparked
      cases hparked
    obtain ⟨hx', hne⟩ := ih ((if_neg (Ne.symm ht)).trans hx)
    refine ⟨hx', fun w' r' hmem => ?_⟩
    rcases List.mem_cons.mp hmem with he | hmem
    · injection he with he
      exact he ▸ ht
    · exact hne w' r' hmem
  | passed _ _ ih => exact ih hx

/-- Nobody parks by being told. -/
theorem parked (h : Tells n l acts n') {t : TaskId} {x : Wait} (hx : n'.waits t = some x)
    (hp : x.parked = true) : n.waits t = some x := by
  induction h with
  | nil => exact hx
  | @told n n' w r rest acts hw h ih =>
    have hx' := ih hx
    unfold wake setWait at hx'
    dsimp only at hx'
    split at hx'
    · obtain rfl := Option.some.inj hx'
      cases hp
    · exact hx'
  | passed _ _ ih => exact ih hx

end Tells

end Net

end TaskVm
