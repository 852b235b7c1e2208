import MessagePipe.Notice

/-!
# MessagePipe.Stream.Task

Tasks that share one executor, and what they leave behind.  A task runs until
it is finished, has to wait, or has received one message of several; nothing
else runs in between.
-/

namespace MessagePipe

/-- What a task is for. -/
inductive Job where
  /-- Send one message. -/
  | send (sender : Credentials) (data : Bytes)
  /-- Receive one message. -/
  | recv (reader : Credentials)
  /-- Receive messages one after the other, `left` of them at most. -/
  | messages (reader : Credentials) (left : Nat)
  /-- Receive nothing more, after an error: a sequence of messages of which `left` items more would
  be taken, and that has only its end to yield. -/
  | failed (left : Nat)
  /-- Remove expired messages every so often. `due` is the instant of the next tick in
  nanoseconds; the first tick comes when the task first runs, and only starts the schedule. -/
  | reap (every : Duration) (due : Option Nat)
deriving DecidableEq

/-- A task. Reapers are numbered by themselves. -/
structure Task where
  id : Nat
  job : Job
deriving DecidableEq

namespace Task

/-- The side whose signals concern a waiting task. -/
def side (t : Task) : Option Side :=
  match t.job with
  | .send .. => some .writable
  | .recv .. | .messages .. | .failed .. => some .readable
  | .reap .. => none

def isReaper (t : Task) : Bool :=
  match t.job with
  | .reap .. => true
  | _ => false

/-- What a task counts for until it is finished: a sender may put a message into the ring, and a
sequence of messages may go on without taking one, once, after an error. -/
def weight (t : Task) : Nat :=
  match t.job with
  | .send .. => 2
  | .messages .. => 1
  | _ => 0

/-- Whether a tick comes too late for its schedule, which is by more than five milliseconds. Both
instants are in nanoseconds. -/
def missed (due now : Nat) : Bool := decide (due + 5000000 < now)

/-- The ticks that have come by an instant, in nanoseconds, and were not answered yet. One that was
missed is the only one. -/
def ticksDue (t : Task) (now : Nat) : Nat :=
  match t.job with
  | .reap every (some due) =>
    if now < due then 0 else if missed due now then 1 else (now - due) / every.onTimer.nanos + 1
  | _ => 0

/-- The instant of the next tick after so many were answered, the first of which was due at `due`.
After one that was missed it is a whole period away. -/
def nextTick (every : Duration) (due now ticks : Nat) : Nat :=
  if missed due now then now + every.onTimer.nanos else due + ticks * every.onTimer.nanos

end Task

/-- Something that a task produces. -/
inductive Event where
  | sent (result : Except StreamError Nat)
  | received (result : Except StreamError Bytes)
  /-- A sequence of messages is over. -/
  | ended

/-- Who makes a call on the pipe. -/
inductive Agent where
  /-- The script, through the stream. -/
  | direct
  /-- The script, behind the stream's back. -/
  | inner
  | task (id : Nat)
  | reaper (id : Nat)
deriving DecidableEq

/-- What is worth remembering. -/
inductive Entry where
  /-- A call on the pipe, at an instant of the executor and a reading of the clock. -/
  | visited (time : Nat) (agent : Agent) (clock : UInt64) (call : Call) (reply : Reply)
  | event (id : Nat) (event : Event)
  /-- Task `id` has received as many messages as it wanted, and asks for no more. -/
  | stopped (id : Nat)
  | noted (notice : Notice)

/-- The log lines behind an entry. -/
def Entry.notices : Entry → List Notice
  | visited _ _ _ call reply => call.notices reply
  | event _ _ | stopped _ => []
  | noted notice => [notice]

end MessagePipe
