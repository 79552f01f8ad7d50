import TaskVm.Machine.Exec

/-!
# Channel operations and select

An operation that cannot take place leaves a waiter with the channel and parks the task.
Whoever completes it later puts the result where the task finds it on its next turn.
-/

namespace TaskVm

namespace SelectCase

/-- The case would not have to wait. -/
def isReady (h : Heap) (live : Waiter → Bool) : SelectCase → Bool
  | receive c => (h.channel c).receiveReady live
  | send c _ => (h.channel c).sendReady live

/-- The indices of the cases that would not have to wait. -/
def readyIndices (h : Heap) (live : Waiter → Bool) (cases : List SelectCase) : List Nat :=
  (cases.zipIdx.filter fun c => c.1.isReady h live).map (·.2)

end SelectCase

namespace Exec

/-- Which waiters are live at this moment. -/
def liveness (s : Turn) : Waiter → Bool := s.vm.scheduler.isLive s.heap

/-- Put on record that the running task begins an operation. -/
def begin (op : Operation) : Exec Unit := do note (.began (← get).task.id op)

/-- End the wait of a waiter's task, if it is still that wait. -/
def wake (w : Waiter) (resume : Resume) : Exec Unit := modify fun s =>
  let (live, scheduler, heap) := s.vm.scheduler.wake s.heap w resume
  let acts := if live then s.acts ++ [.woken w resume] else s.acts
  { s with heap, acts, vm := { s.vm with scheduler } }

/-- Complete the operation of a waiter with a value. -/
def deliver (w : Waiter) (v : Value) : Exec Unit := wake w (Scheduler.resumeOf w v)

/-- Fail the operation of a waiter. -/
def failWaiter (w : Waiter) (e : RuntimeError) : Exec Unit := wake w (.error e)

/-- Replace a channel. -/
def setChannel (id : ChannelId) (c : Channel) : Exec Unit :=
  modify fun s => { s with heap := s.heap.setChannel id c }

/-- Try to send, and wake the receiver that takes the value. -/
def trySend (id : ChannelId) (v : Value) : Exec SendOutcome := do
  let s ← get
  let (outcome, c) := (s.heap.channel id).trySend (liveness s) v
  setChannel id c
  match outcome with
  | .sent (some (w, v)) =>
    note (.sent id v (some w))
    deliver w v
  | .sent none => note (.sent id v none)
  | .closed v => note (.refused id v)
  | .wouldBlock _ => pure ()
  pure outcome

/-- Try to receive, and wake the sender that can go on because of it. -/
def tryReceive (id : ChannelId) : Exec ReceiveOutcome := do
  let s ← get
  let (outcome, c) := (s.heap.channel id).tryReceive (liveness s)
  setChannel id c
  match outcome with
  | .received v (some w) =>
    note (.received id v (some w))
    deliver w .nil
  | .received v none => note (.received id v none)
  | .closed => note (.drained id)
  | .wouldBlock => pure ()
  pure outcome

/-- Line up at a channel, with a value if there is one to send. -/
def park (live : Waiter → Bool) (id : ChannelId) (w : Waiter) (offer : Option Value) :
    Exec Unit := do
  let c := (← get).heap.channel id
  setChannel id (match offer with
    | none => c.parkReceiver live w
    | some v => c.parkSender live w v)
  note (.parked id w offer)

/-- Send a value, now or later. -/
def channelSend (id : ChannelId) (v : Value) : Exec Flow := do
  begin (.send id v)
  match ← trySend id v with
  | .sent _ =>
    push .nil
    pure .next
  | .closed _ => raise .channelClosed
  | .wouldBlock v =>
    let s ← get
    park (liveness s) id (s.task.waiter none) (some v)
    pure .block

/-- Receive a value, now or later. A closed channel gives nil once it is empty. -/
def channelReceive (id : ChannelId) : Exec Flow := do
  begin (.receive id)
  match ← tryReceive id with
  | .received v _ =>
    push v
    pure .next
  | .closed =>
    push .nil
    pure .next
  | .wouldBlock =>
    let s ← get
    park (liveness s) id (s.task.waiter none) none
    pure .block

/-- Close a channel: parked receivers go on with nil, parked senders fail. -/
def channelClose (id : ChannelId) : Exec Unit := do
  match ((← get).heap.channel id).close? with
  | none => raise .channelClosed
  | some (receivers, senders, c) =>
    -- Those who were waiting find the channel closed when they try again.
    setChannel id c
    receivers.forM fun w => deliver w .nil
    senders.forM fun w => failWaiter w .channelClosed
    note (.closed id)

/-- Let a case take place, if it can. The value is what a receive gets; a send gets nil. -/
def tryCase (case : SelectCase) : Exec (Option Value) := do
  match case with
  | .receive id =>
    match ← tryReceive id with
    | .received v _ => pure (some v)
    | .closed => pure (some .nil)
    | .wouldBlock => pure none
  | .send id v =>
    match ← trySend id v with
    | .sent _ => pure (some .nil)
    | .closed _ => raise .channelClosed
    | .wouldBlock _ => pure none

/-- Draw one of some ready cases. -/
def drawCase (ready : List Nat) : Exec Nat := fun s =>
  let (i, dice) := s.vm.dice.roll ready.length
  .ok (ready.getD i 0) { s with vm := { s.vm with dice } }

/-- Leave a waiter for each case. The waiters of this very wait count as live. -/
def parkCases : List (SelectCase × Nat) → Exec Unit
  | [] => pure ()
  | (case, index) :: rest => do
    let s ← get
    -- The task is still running, so the scheduler does not count its waiters as live yet.
    let own : Waiter → Bool := fun w => w.task == s.task.id && w.epoch == s.task.waitEpoch
    let live : Waiter → Bool := fun w => own w || liveness s w
    let w := s.task.waiter (some index)
    match case with
    | .receive id => park live id w none
    | .send id v => park live id w (some v)
    parkCases rest

/-- What a select leaves on the stack: a value and the index of its case. -/
def pushSelected (v : Value) (index : Int) : Exec Unit := do
  push v
  push (.ofInt index)

/-- The case drawn among the ready ones takes place, if there are any. -/
def selectReady (cases : List SelectCase) : Exec (Option (Value × Nat)) := do
  let s ← get
  let ready := SelectCase.readyIndices s.heap (liveness s) cases
  if ready.isEmpty then pure none
  else
    let index ← drawCase ready
    match cases[index]? with
    | none => pure none
    | some case =>
      -- Nothing has come in between, so a case that was ready does not block.
      match ← tryCase case with
      | some v => pure (some (v, index))
      | none => pure none

/-- Let one ready case take place, or else the default, or else wait for all of them. -/
def select (cases : List SelectCase) (hasDefault : Bool) : Exec Flow := do
  begin (.select cases hasDefault)
  match ← selectReady cases with
  | some (v, index) =>
    pushSelected v index
    pure .next
  | none =>
    if hasDefault then
      pushSelected .nil (-1)
      pure .next
    else
      parkCases cases.zipIdx
      pure .block

end Exec

end TaskVm
