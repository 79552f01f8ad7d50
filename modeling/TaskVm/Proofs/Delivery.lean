import TaskVm.Proofs.Lines
import TaskVm.Proofs.Runs

/-!
# Delivery

Values come out of a channel in the order in which their sends were started, each of them
once. What a history says about sends is read into a ledger, one for each channel: a send is
entered when it is started, and a send that is parked is struck out when its wait ends without
it. The ledger never looks at a channel. That what has been handed out, what is in the buffer
and what is still parked adds up to the ledger is what there is to prove.
-/

namespace TaskVm

/-! ## Ledgers -/

/-- A send that counts: its value, and its waiter as long as it is parked. -/
abbrev Entry := Value × Option Waiter

namespace Ledger

/-- A parked send is accepted. -/
def accept (w : Waiter) : List Entry → List Entry
  | [] => []
  | e :: es => if e.2 = some w then (e.1, none) :: es else e :: accept w es

/-- Sends that are still parked are withdrawn. -/
def withdraw (gone : Waiter → Bool) (entries : List Entry) : List Entry :=
  entries.filter fun e => !e.2.any gone

/-- What an act means to the ledger of a channel. A wait that ends takes all sends with it
that are still parked in it. -/
def enter (ch : ChannelId) (entries : List Entry) : Act → List Entry
  | .sent c v _ => if c = ch then entries ++ [(v, none)] else entries
  | .parked c w (some v) => if c = ch then entries ++ [(v, some w)] else entries
  | .received c _ (some w) => if c = ch then accept w entries else entries
  | .woken w _ => withdraw w.alike entries
  | .ended t => withdraw (·.task == t) entries
  | _ => entries

end Ledger

/-- The sends on a channel that count, in the order in which they were started. -/
def ledger (ch : ChannelId) (hist : List Act) : List Entry := hist.foldl (Ledger.enter ch) []

/-- The values of the sends that count. -/
def accepted (ch : ChannelId) (hist : List Act) : List Value := (ledger ch hist).map (·.1)

/-- The values that receives have got from a channel, in order: those that were received and
those that were sent straight to a parked receiver. -/
def handedOut (ch : ChannelId) (hist : List Act) : List Value :=
  hist.filterMap fun
    | .received c v _ => if c = ch then some v else none
    | .sent c v (some _) => if c = ch then some v else none
    | _ => none

/-- The ledger of a channel that has handed out some values. -/
def Channel.book (c : Channel) (out : List Value) : List Entry :=
  (out ++ c.buffer).map (·, none) ++ c.senders.map fun x => (x.2, some x.1)

namespace Ledger

theorem accept_book (settled : List Value) (w : Waiter) (v : Value) (rest : List Entry) :
    accept w (settled.map (·, none) ++ (v, some w) :: rest) =
      settled.map (·, none) ++ (v, none) :: rest := by
  induction settled with
  | nil => simp [accept]
  | cons u us ih => simp [accept, ih]

/-- Only what is parked can be withdrawn. -/
theorem withdraw_book (gone : Waiter → Bool) (c : Channel) (out : List Value) :
    withdraw gone (c.book out) = (c.prune fun w => !gone w).book out := by
  unfold withdraw Channel.book Channel.prune
  rw [List.filter_append, List.filter_map, List.filter_map]
  congr 1
  refine congrArg _ (List.filter_eq_self.mpr ?_)
  simp

theorem withdraw_append (gone : Waiter → Bool) (entries : List Entry) (v : Value) :
    withdraw gone (entries ++ [(v, none)]) = withdraw gone entries ++ [(v, none)] := by
  simp [withdraw]

/-- Lining up enters the claims to send, in order. -/
theorem enter_claims (ch : ChannelId) (t : TaskId) (epoch : Nat) (claims : List Claim) :
    ∀ entries, (claims.map (Claim.act t epoch)).foldl (enter ch) entries =
      entries ++ (Claim.senders claims t epoch ch).map fun x => (x.2, some x.1) := by
  induction claims with
  | nil => simp [Claim.senders]
  | cons k ks ih =>
    intro entries
    rw [List.map_cons, List.foldl_cons, ih]
    obtain ⟨channel, case, offer⟩ := k
    cases offer with
    | none => simp [Claim.act, enter, Claim.senders]
    | some v =>
      by_cases hch : channel = ch
      · simp [Claim.act, enter, Claim.senders, hch]
      · simp [Claim.act, enter, Claim.senders, hch]

/-- When tasks have gone, so have their sends. -/
theorem enter_ended (ch : ChannelId) (ids : List TaskId) :
    ∀ entries, (ids.map Act.ended).foldl (enter ch) entries =
      withdraw (fun w => ids.contains w.task) entries := by
  induction ids with
  | nil =>
    intro entries
    refine (List.filter_eq_self.mpr fun e _ => ?_).symm
    cases e.2 <;> rfl
  | cons t ts ih =>
    intro entries
    rw [List.map_cons, List.foldl_cons, ih, enter, withdraw, withdraw, withdraw, List.filter_filter]
    refine List.filter_congr fun e _ => ?_
    cases e.2 with
    | none => rfl
    | some w =>
      show (!ts.contains w.task && !(w.task == t)) = !(t :: ts).contains w.task
      rw [List.contains_cons, Bool.not_or, Bool.and_comm]

end Ledger

theorem handedOut_append (ch : ChannelId) (hist acts : List Act) :
    handedOut ch (hist ++ acts) = handedOut ch hist ++ handedOut ch acts :=
  List.filterMap_append

/-! ## Channels of the net -/

namespace Net

variable {n n' : Net}

/-- A channel. One that is not there is empty. -/
def channel (n : Net) (ch : ChannelId) : Channel := n.channels.getD ch (.ofCapacity 0)

theorem channel_of_getElem? {ch : ChannelId} {c : Channel} (h : n.channels[ch]? = some c) :
    n.channel ch = c := by
  rw [channel, Array.getD_eq_getD_getElem?, h]
  rfl

theorem channel_put {ch : ChannelId} {c : Channel} (h : n.channels[ch]? = some c) (c' : Channel)
    (i : ChannelId) : (n.put ch c').channel i = if i = ch then c' else n.channel i := by
  have hlt := (Array.getElem?_eq_some_iff.mp h).1
  rw [channel, put, Array.getD_eq_getD_getElem?]
  split
  · rename_i hi
    rw [hi, Array.getElem?_setIfInBounds_self_of_lt hlt]
    rfl
  · rename_i hi
    rw [Array.getElem?_setIfInBounds_ne (Ne.symm hi), channel, Array.getD_eq_getD_getElem?]

theorem channel_prune (n : Net) (keep : Waiter → Bool) (i : ChannelId) :
    (n.prune keep).channel i = (n.channel i).prune keep := by
  rw [channel, channel, prune, Array.getD_eq_getD_getElem?, Array.getD_eq_getD_getElem?,
    Array.getElem?_map]
  cases n.channels[i]? <;> rfl

theorem channel_wake (n : Net) (w : Waiter) (r : Resume) (i : ChannelId) :
    (n.wake w r).channel i = (n.channel i).prune fun w' => !w.alike w' :=
  n.channel_prune _ i

theorem channel_append {fresh : Array Channel} (hf : ∀ c ∈ fresh, ∃ k, c = .ofCapacity k)
    (i : ChannelId) (out : List Value) :
    (channel { n with channels := n.channels ++ fresh } i).book out = (n.channel i).book out := by
  rw [channel, channel, Array.getD_eq_getD_getElem?, Array.getD_eq_getD_getElem?,
    Array.getElem?_append]
  split
  · rfl
  · rename_i hi
    rw [Array.getElem?_eq_none (Nat.le_of_not_lt hi)]
    cases hc : fresh[i - n.channels.size]? with
    | none => rfl
    | some c =>
      obtain ⟨k, rfl⟩ := hf c (Array.mem_of_getElem? hc)
      rfl

theorem channel_park (n : Net) (t : TaskId) (epoch : Nat) {claims : List Claim}
    (hc : ∀ k ∈ claims, ∃ c, n.channels[k.channel]? = some c) (i : ChannelId) :
    (n.park t epoch claims).channel i = { n.channel i with
      receivers := (n.channel i).receivers ++ Claim.receivers claims t epoch i
      senders := (n.channel i).senders ++ Claim.senders claims t epoch i } := by
  rw [channel, channel, park, Array.getD_eq_getD_getElem?, Array.getD_eq_getD_getElem?,
    Array.getElem?_mapIdx]
  cases hi : n.channels[i]? with
  | some c => rfl
  | none =>
    have hno : ∀ k ∈ claims, k.channel ≠ i := by
      intro k hk hch
      obtain ⟨c, hc⟩ := hc k hk
      rw [hch, hi] at hc
      cases hc
    have hr : Claim.receivers claims t epoch i = [] :=
      List.filterMap_eq_nil_iff.mpr fun k hk => if_neg fun h => hno k hk h.1
    have hs : Claim.senders claims t epoch i = [] :=
      List.filterMap_eq_nil_iff.mpr fun k hk => if_neg (hno k hk)
    rw [hr, hs]
    rfl

/-! ## Steps of the net -/

/-- A wake-up, as the ledger of a channel that was not otherwise concerned has it. -/
theorem book_wake (n : Net) (w : Waiter) (r : Resume) (i : ChannelId) (out : List Value) :
    Ledger.withdraw w.alike ((n.channel i).book out) = ((n.wake w r).channel i).book out := by
  rw [Ledger.withdraw_book, channel_wake]

/-- Who is told that a channel is closed withdraws all sends of that wait, and gets no value. -/
theorem Tells.book {l : List (Waiter × Resume)} {acts : List Act} (ht : Tells n l acts n')
    (i : ChannelId) (out : List Value) :
    acts.foldl (Ledger.enter i) ((n.channel i).book out) = (n'.channel i).book out := by
  induction ht with
  | nil => rfl
  | told _ _ ih =>
    rw [List.foldl_cons, Ledger.enter, book_wake]
    exact ih
  | passed _ _ ih => exact ih

theorem Tells.handedOut_eq {l : List (Waiter × Resume)} {acts : List Act} (ht : Tells n l acts n')
    (i : ChannelId) : handedOut i acts = [] :=
  List.filterMap_eq_nil_iff.mpr fun a ha => by
    obtain ⟨w, r, rfl⟩ := ht.woken a ha
    rfl

/-- A value is handed out, and the first of the parked sends takes place because of it. -/
theorem book_received {ch : ChannelId} {c c' : Channel} (hc : n.channels[ch]? = some c)
    {w : Waiter} {u v : Value} {rest : List (Waiter × Value)} (hs : c.senders = (w, u) :: rest)
    (hrest : c'.senders = rest) (hbuffer : c.buffer ++ [u] = v :: c'.buffer) (r : Resume)
    (i : ChannelId) (out : List Value) :
    Ledger.withdraw w.alike (Ledger.enter i ((n.channel i).book out) (.received ch v (some w))) =
      (((n.put ch c').wake w r).channel i).book (out ++ handedOut i
        [.received ch v (some w), .woken w r]) := by
  rw [channel_wake, channel_put hc]
  by_cases hi : ch = i
  · subst hi
    have haccept : Ledger.accept w (c.book out) = c'.book (out ++ [v]) := by
      have hbook := Ledger.accept_book (out ++ c.buffer) w u (rest.map fun x => (x.2, some x.1))
      have hvalues : out ++ c.buffer ++ [u] = out ++ [v] ++ c'.buffer := by
        rw [List.append_assoc, hbuffer, List.append_assoc]
        rfl
      rw [Channel.book, hs, List.map_cons, hbook, Channel.book, hrest, ← hvalues]
      simp
    rw [channel_of_getElem? hc, Ledger.enter, if_pos rfl, haccept, Ledger.withdraw_book,
      if_pos rfl]
    simp [handedOut]
  · rw [Ledger.enter, if_neg hi, Ledger.withdraw_book, if_neg (Ne.symm hi)]
    simp [handedOut, hi]

/-- A value goes straight to the first receiver, which has sent nothing. -/
theorem book_sent (h : n.Sound) {ch : ChannelId} {c : Channel} (hc : n.channels[ch]? = some c)
    {w : Waiter} {rest : List Waiter} (hr : c.receivers = w :: rest) (v : Value) (r : Resume)
    (i : ChannelId) (out : List Value) :
    Ledger.withdraw w.alike (Ledger.enter i ((n.channel i).book out) (.sent ch v (some w))) =
      (((n.put ch { c with receivers := rest }).wake w r).channel i).book (out ++ handedOut i
        [.sent ch v (some w), .woken w r]) := by
  have hsound := h.channels ch c hc
  have hw : w ∈ c.receivers := by simp [hr]
  have hb := (hsound.receivers (List.ne_nil_of_mem hw)).2
  rw [channel_wake, channel_put hc]
  by_cases hi : ch = i
  · subst hi
    -- Waking the receiver withdraws sends of its wait, of which there are none.
    have hgone : c.senders.filter (fun x => !w.alike x.1) = [] := by
      refine List.filter_eq_nil_iff.mpr fun x hx => ?_
      have ht := hsound.apart w hw x hx
      have hlive := hsound.sender_live hx
      rw [ht, hsound.receiver_live hw] at hlive
      injection hlive with hlive
      injection hlive with he
      simp [Waiter.alike, ht, he]
    rw [channel_of_getElem? hc, Ledger.enter, if_pos rfl, Ledger.withdraw_append,
      Ledger.withdraw_book, if_pos rfl]
    simp [Channel.book, Channel.prune, hgone, hb, handedOut]
  · rw [Ledger.enter, if_neg hi, Ledger.withdraw_book, if_neg (Ne.symm hi)]
    simp [handedOut, hi]

/-- **What a step puts on record is what it does** to the ledger of each channel. -/
theorem Step.book {acts : List Act} (hs : Step n acts n') (h : n.Sound) (i : ChannelId)
    (out : List Value) :
    acts.foldl (Ledger.enter i) ((n.channel i).book out) =
      (n'.channel i).book (out ++ handedOut i acts) := by
  cases hs with
  | @quiet a ha =>
    cases a
    case sent | received | parked | closed | woken | resumed | began | ended => nomatch ha
    all_goals simp [Ledger.enter, handedOut]
  | create hf =>
    rw [channel_append hf]
    simp [handedOut]
  | reserve | enlist => simp [handedOut, channel, setWait]
  | begin | resume => simp [Ledger.enter, handedOut, channel, setWait]
  | @close ch c hc ho acts n₁ ht c' hc' hr hs =>
    have hnone : handedOut i (acts ++ [.closed ch]) = [] := by
      rw [handedOut_append, ht.handedOut_eq]
      rfl
    rw [List.foldl_append, ht.book, hnone, List.append_nil]
    show (n₁.channel i).book out = _
    rw [channel_put hc']
    split
    · rename_i hi
      rw [hi, channel_of_getElem? hc']
      rfl
    · rfl
  | hand hc ho hr v => exact book_sent h hc hr v _ i out
  | @store ch c hc ho hr hroom v =>
    -- With room in the buffer nobody waits to send, so what is stored is last in the book.
    have hs := (h.channels ch c hc).no_senders hroom
    show Ledger.enter i _ (.sent ch v none) = _
    rw [channel_put hc]
    by_cases hi : ch = i
    · subst hi
      rw [channel_of_getElem? hc, Ledger.enter, if_pos rfl, if_pos rfl]
      simp [Channel.book, hs, handedOut]
    · rw [Ledger.enter, if_neg hi, if_neg (Ne.symm hi)]
      simp [handedOut]
  | @take ch c hc v buffer hb hs =>
    show (n.channel i).book out = _
    rw [channel_put hc]
    by_cases hi : ch = i
    · subst hi
      rw [channel_of_getElem? hc, if_pos rfl]
      simp [Channel.book, hb, hs, handedOut]
    · rw [if_neg (Ne.symm hi)]
      simp [handedOut, hi]
  | refill hc hb hs => exact book_received hc hs rfl (by rw [hb]; rfl) _ i out
  | fetch hc hb hs => exact book_received hc hs rfl (by rw [hb]; rfl) _ i out
  | @park t epoch hx op hidle =>
    -- Parked sends are in the book from here on, and nothing is handed out.
    have hclaims : ∀ k ∈ op.claims, ∃ c, n.channels[k.channel]? = some c := fun k hk => by
      obtain ⟨c, hc, -⟩ := hidle k hk
      exact ⟨c, hc⟩
    have hnone : handedOut i (.began t op :: op.claims.map (Claim.act t epoch)) = [] :=
      List.filterMap_eq_nil_iff.mpr fun a ha => by
        rcases List.mem_cons.mp ha with rfl | ha
        · rfl
        · obtain ⟨k, -, rfl⟩ := List.mem_map.mp ha
          rfl
    show (op.claims.map (Claim.act t epoch)).foldl (Ledger.enter i) ((n.channel i).book out) = _
    rw [Ledger.enter_claims, channel_park n t epoch hclaims, hnone]
    simp [Channel.book]
  -- Sends of tasks that are gone are withdrawn, in the book as in line.
  | leave ids =>
    have hnone : handedOut i (ids.map .ended) = [] :=
      List.filterMap_eq_nil_iff.mpr fun a ha => by
        obtain ⟨t, -, rfl⟩ := List.mem_map.mp ha
        rfl
    rw [Ledger.enter_ended, Ledger.withdraw_book, hnone, List.append_nil]
    exact congrArg (Channel.book · out) (n.channel_prune (fun w => !ids.contains w.task) i).symm

theorem Run.book {acts : List Act} (hr : Run n acts n') (h : n.Sound) (i : ChannelId)
    (out : List Value) :
    acts.foldl (Ledger.enter i) ((n.channel i).book out) =
      (n'.channel i).book (out ++ handedOut i acts) := by
  induction hr with
  | refl => simp [handedOut]
  | tail hr hs ih =>
    rw [List.foldl_append, ih, hs.book (hr.sound h), handedOut_append, List.append_assoc]

end Net

/-! ## Runs of a machine -/

namespace Machine

variable {hosts : Array HostFunction} {h : Heap} {id : VmId} {config : VmConfig} {dice : Dice}
  {hist : List Act} {m : Machine}

/-- The waiters of waits that are on. -/
def live (m : Machine) : Waiter → Bool := m.vm.scheduler.isLive m.heap

theorem live_eq (m : Machine) : m.live = m.crew.live := funext m.isLive_eq

/-- Nobody is waiting for anything yet. -/
theorem create_sound (hc : ∀ c ∈ h.channels, ∃ n, c = Channel.ofCapacity n) :
    (create hosts h id config dice).net.Sound where
  channels ch c hch := by
    have hheap := create_heap hosts h id config dice
    rw [Machine.net, Crew.net, hheap] at hch
    dsimp only at hch
    rw [prune_fresh hc] at hch
    obtain ⟨n, rfl⟩ := hc c (Array.mem_of_getElem? hch)
    exact Channel.Sound.ofCapacity _ n
  fresh k _ := create_wait hosts h id config dice k

theorem create_book (hc : ∀ c ∈ h.channels, ∃ n, c = Channel.ofCapacity n) (ch : ChannelId) :
    ((create hosts h id config dice).net.channel ch).book [] = [] := by
  rw [Net.channel, Array.getD_eq_getD_getElem?, Machine.net, Crew.net, create_heap]
  dsimp only
  rw [prune_fresh hc]
  cases hch : h.channels[ch]? with
  | none => rfl
  | some c =>
    obtain ⟨n, rfl⟩ := hc c (Array.mem_of_getElem? hch)
    rfl

/-- **The ledger adds up.** As long as no task is lined up in vain, what receives have got from a
channel, what is in its buffer and what live senders are parked with are, in this order, the
values of the sends that were started and that count. A buffer never holds more than it has room
for. -/
theorem Run.adds_up (ht : ∀ f ∈ hosts, f.Tame)
    (hc : ∀ c ∈ h.channels, ∃ n, c = Channel.ofCapacity n)
    (hr : Run (roomy · = true) (create hosts h id config dice) hist m) {ch : ChannelId} {c : Channel}
    (hch : m.heap.channels[ch]? = some c) :
    handedOut ch hist ++ c.buffer ++ (c.senders.filter fun x => m.live x.1).map (·.2) =
      accepted ch hist ∧
    c.buffer.length ≤ c.capacity := by
  obtain ⟨-, hrun⟩ := hr.good (create_good ht hc id config dice)
  have hsound : (create hosts h id config dice).net.Sound := create_sound hc
  have hpruned : m.net.channels[ch]? = some (c.prune m.live) := by
    rw [Machine.net, Crew.net, Array.getElem?_map, hch, live_eq]
    rfl
  have hbook := hrun.book hsound ch []
  rw [create_book hc, Net.channel_of_getElem? hpruned, List.nil_append] at hbook
  refine ⟨?_, ((hrun.sound hsound).channels ch _ hpruned).room⟩
  rw [accepted, ledger, hbook, Channel.book]
  simp [Channel.prune, Function.comp_def]

end Machine

end TaskVm
