import TaskVm.Value

/-!
# Channels

A channel is a queue of at most `capacity` values with two lists of parked tasks. Capacity
0 makes every send a hand-over to a receiver.

A task that cannot go on leaves a waiter behind and is parked. A waiter names the wait it
belongs to by the task's epoch, which counts the task's waits: when the task is woken, by
this channel or by another one, all waiters of that wait are dead and are skipped. What is
live is not the channel's business, so every operation is told.
-/

namespace TaskVm

/-- A parked task's claim on one channel. -/
structure Waiter where
  task : TaskId
  epoch : Nat
  /-- The case, when a select is waiting. -/
  case : Option Nat
deriving DecidableEq, Inhabited

/-- A queue with the tasks that wait for it. -/
structure Channel where
  capacity : Nat
  buffer : List Value := []
  closed : Bool := false
  receivers : List Waiter := []
  senders : List (Waiter × Value) := []
deriving DecidableEq, Inhabited

/-- One case of a select. -/
inductive SelectCase where
  | receive (channel : ChannelId)
  | send (channel : ChannelId) (value : Value)
deriving DecidableEq, Inhabited

/-- What came of a send. -/
inductive SendOutcome where
  /-- The value is on its way, straight to a receiver if one was waiting. -/
  | sent (handedTo : Option (Waiter × Value))
  /-- The channel is closed; the value comes back. -/
  | closed (value : Value)
  /-- Neither room nor a receiver; the value comes back. -/
  | wouldBlock (value : Value)
deriving DecidableEq

/-- What came of a receive. -/
inductive ReceiveOutcome where
  /-- A value, and the sender that can go on because of it. -/
  | received (value : Value) (released : Option Waiter)
  /-- The channel is closed and empty. -/
  | closed
  | wouldBlock
deriving DecidableEq

namespace Channel

/-- A new channel. -/
def ofCapacity (capacity : Nat) : Channel := { capacity }

/-- The oldest live sender, and the senders behind it. -/
def liveSender? (live : Waiter → Bool) (senders : List (Waiter × Value)) :
    Option (Waiter × Value) × List (Waiter × Value) :=
  match senders.dropWhile fun s => !live s.1 with
  | [] => (none, [])
  | s :: rest => (some s, rest)

/-- Send without waiting: to the oldest live receiver, else into the buffer. -/
def trySend (live : Waiter → Bool) (c : Channel) (value : Value) : SendOutcome × Channel :=
  if c.closed then (.closed value, c)
  else
    match c.receivers.dropWhile fun w => !live w with
    | w :: rest => (.sent (some (w, value)), { c with receivers := rest })
    | [] =>
      let c := { c with receivers := [] }
      if c.buffer.length < c.capacity then
        (.sent none, { c with buffer := c.buffer ++ [value] })
      else (.wouldBlock value, c)

/-- Receive without waiting: from the buffer, whose free place the oldest live sender then
takes, else from that sender. -/
def tryReceive (live : Waiter → Bool) (c : Channel) : ReceiveOutcome × Channel :=
  match c.buffer with
  | value :: buffer =>
    -- What a sender waits with comes behind all that is in the buffer.
    match liveSender? live c.senders with
    | (some (w, pending), senders) =>
      (.received value (some w), { c with buffer := buffer ++ [pending], senders })
    | (none, senders) => (.received value none, { c with buffer, senders })
  | [] =>
    match liveSender? live c.senders with
    | (some (w, value), senders) => (.received value (some w), { c with senders })
    | (none, senders) =>
      (if c.closed then .closed else .wouldBlock, { c with senders })

/-- A send would not have to wait, if only because it fails. -/
def sendReady (live : Waiter → Bool) (c : Channel) : Bool :=
  c.closed || c.buffer.length < c.capacity || c.receivers.any live

/-- A receive would not have to wait. -/
def receiveReady (live : Waiter → Bool) (c : Channel) : Bool :=
  c.closed || !c.buffer.isEmpty || c.senders.any fun s => live s.1

/-- Line up as a receiver. Dead waiters leave the line. -/
def parkReceiver (live : Waiter → Bool) (c : Channel) (w : Waiter) : Channel :=
  { c with receivers := c.receivers.filter live ++ [w] }

/-- Line up as a sender with a value. Dead waiters leave the line. -/
def parkSender (live : Waiter → Bool) (c : Channel) (w : Waiter) (value : Value) : Channel :=
  { c with senders := c.senders.filter (fun s => live s.1) ++ [(w, value)] }

/-- Close the channel and return who was waiting, receivers and senders. A channel is
closed only once. -/
def close? (c : Channel) : Option (List Waiter × List Waiter × Channel) :=
  if c.closed then none
  else
    some (c.receivers, c.senders.map (·.1),
      { c with closed := true, receivers := [], senders := [] })

@[simp] theorem close?_eq_none {c : Channel} : c.close? = none ↔ c.closed := by
  unfold close?
  split <;> simp [*]

end Channel

end TaskVm
