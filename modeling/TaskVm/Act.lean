import TaskVm.Task

/-!
# Acts

What instructions do that concerns more than the operands of one task: values going through
channels, tasks parking and being woken, and variables being captured, read, changed and
left. The machine never looks at its acts. They are the history that statements about whole
runs are about.

How far down an instruction reaches is on record as well, for statements about what is left
alone.
-/

namespace TaskVm

/-- What an instruction asks of channels. -/
inductive Operation where
  | send (channel : ChannelId) (value : Value)
  | receive (channel : ChannelId)
  | select (cases : List SelectCase) (hasDefault : Bool)
deriving DecidableEq

/-- Something an instruction did. -/
inductive Act where
  /-- A task began an operation. -/
  | began (task : TaskId) (operation : Operation)
  /-- A send took place: straight to a parked receiver, or into the buffer. -/
  | sent (channel : ChannelId) (value : Value) (receiver : Option Waiter)
  /-- A send failed because the channel is closed. -/
  | refused (channel : ChannelId) (value : Value)
  /-- A receive got a value, and a parked sender got its own value accepted. -/
  | received (channel : ChannelId) (value : Value) (sender : Option Waiter)
  /-- A receive found the channel closed and empty. -/
  | drained (channel : ChannelId)
  /-- A waiter lined up, with a value if it is there to send. -/
  | parked (channel : ChannelId) (waiter : Waiter) (offer : Option Value)
  /-- A channel was closed. -/
  | closed (channel : ChannelId)
  /-- The wait of a live waiter's task came to its end. -/
  | woken (waiter : Waiter) (resume : Resume)
  /-- A task picked up what its wait had come to. -/
  | resumed (task : TaskId) (resume : Resume)
  /-- A local, with the value it had, was captured. -/
  | captured (var : Variable) (value : Value) (cell : CellId)
  /-- A local was read, or changed, by its own frame. -/
  | localRead (var : Variable) (value : Value)
  | localSet (var : Variable) (value : Value)
  /-- A captured variable was read, or changed, through a closure. -/
  | cellRead (cell : CellId) (value : Value)
  | cellSet (cell : CellId) (value : Value)
  /-- Frames of a task were left. -/
  | left (task : TaskId) (frames : List Frame)
  /-- A task is there no longer. -/
  | ended (task : TaskId)
deriving DecidableEq

/-- How far an instruction reached into what its task had before. -/
inductive Touch where
  /-- A frame whose locals begin at `base` took the operands from `height` on. -/
  | operands (base height : Nat)
  /-- A frame entered with `base` iterations moved the innermost of `count` iterations on, or
  ended it, so that `left` remained. -/
  | iteration (base count left : Nat)
  /-- An activation dropped a handler, which `owner` had registered. -/
  | handler (activation owner : Nat)
  /-- A slot on the stack of a task was changed as an open captured variable. -/
  | slot (task : TaskId) (slot : Nat)
deriving DecidableEq

end TaskVm
