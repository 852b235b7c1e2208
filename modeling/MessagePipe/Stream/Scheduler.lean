import MessagePipe.Stream.Config
import MessagePipe.Stream.Task

/-!
# MessagePipe.Stream.Scheduler

A pipe for tasks that share one executor.  No task ever parks on the pipe:
each makes only calls that return at once, and waits in the scheduler.

* A task that cannot go on is appended to `waiting`, with a deadline one poll
  interval away, so `waiting` is in the order in which the waits began.
* A signal moves the waiting tasks of one side to the end of `ready`, in that
  order; so does a deadline with the tasks whose time has come.
* Tasks that are ready run first in, first out.
* A task that receives messages one after the other is asked for one item at a
  time.  Between two of them it is ready, before all others.
* A task that could go on at once but has had its turn gives way to the others:
  it is put on top of `yielded`, which signals do not concern.  A reaper gives
  way after `ticksPerTurn` ticks, and a task that polls without any interval
  after every look at the pipe.

A successful send signals `readable`; a successful receive or clear, and a
sweep that removed something, signal `writable`; closing signals both.  Calls
made on the pipe itself (`Agent.inner`) signal nobody.
-/

namespace MessagePipe

/-- A task that waits for a signal or its deadline. -/
structure Waiter where
  task : Task
  /-- In milliseconds of the executor. -/
  deadline : Nat
deriving DecidableEq

/-- A pipe and the tasks at work on it. -/
structure Scheduler where
  pipe : Pipe
  config : StreamConfig
  /-- The clock that stamps messages. -/
  clock : UInt64
  /-- Somebody other than the tasks keeps the pipe. -/
  held : Bool
  /-- The time of the executor, in milliseconds. -/
  now : Nat
  ready : List Task
  waiting : List Waiter
  /-- Tasks that gave way to the others, the last one first. -/
  yielded : List Task
  /-- What happened, the latest first. -/
  journal : List Entry

namespace Scheduler

/-- A scheduler without tasks. -/
def ofPipe (p : Pipe) (config : StreamConfig) (clock : UInt64) : Scheduler :=
  ⟨p, config, clock, true, 0, [], [], [], []⟩

def text (s : Scheduler) : String :=
  Text.someFields "AsyncPipe" [Text.field "pipe" s.pipe.text, Text.field "config" s.config.text]

def record (s : Scheduler) (e : Entry) : Scheduler := { s with journal := e :: s.journal }

/-- A call was made that left the pipe as given. -/
def visited (s : Scheduler) (agent : Agent) (call : Call) (reply : Reply) (p : Pipe) : Scheduler :=
  { s with pipe := p }.record (.visited s.now agent s.clock call reply)

/-- All tasks that wait on one side become ready. -/
def signal (s : Scheduler) (side : Side) : Scheduler :=
  { s with
    ready := s.ready ++ (s.waiting.filter (·.task.side == some side)).map (·.task)
    waiting := s.waiting.filter fun w => !(w.task.side == some side) }

/-- Tasks that have not finished, reapers aside. -/
def unfinished (s : Scheduler) : Nat :=
  s.ready.countP (!·.isReaper) + s.waiting.countP (!·.task.isReaper) +
    s.yielded.countP (!·.isReaper)

/-- Whether anybody keeps the pipe: tasks do until they finish, reapers do not. -/
def alive (s : Scheduler) : Bool := s.held || decide (0 < s.unfinished)

/-! ## Calls that return at once -/

/-- Sends, or reports that the pipe is full. -/
def trySend (s : Scheduler) (agent : Agent) (sender : Credentials) (data : Bytes) :
    Except StreamError Nat × Scheduler :=
  let (result, p) := s.pipe.trySend sender data s.clock
  let s := s.visited agent (.send sender data .never) (.sent result) p
  match result with
  | .ok n => (.ok n, s.signal .readable)
  | .error e => (.error (.ofPipe e), s)

/-- Receives a whole message, or reports that the pipe is empty. -/
def tryRecv (s : Scheduler) (agent : Agent) (reader : Credentials) :
    Except StreamError Bytes × Scheduler :=
  let buffer := s.pipe.freshBuffer
  let (result, out, p) := s.pipe.tryRecv reader buffer
  let s := s.visited agent (.recv reader buffer .never) (.received result out) p
  match result with
  | .ok n => (.ok (out.take n), s.signal .writable)
  | .error .wouldBlock => (.error .empty, s)
  | .error e => (.error (.ofPipe e), s)

/-- Removes every message. Privileged. -/
def clear (s : Scheduler) (caller : Credentials) : Except StreamError Nat × Scheduler :=
  let (result, p) := s.pipe.clear caller
  let s := s.visited .direct (.clear caller) (.cleared result) p
  match result with
  | .ok n => (.ok n, s.signal .writable)
  | .error e => (.error (.ofPipe e), s)

/-- Removes expired messages. -/
def sweep (s : Scheduler) (agent : Agent) : Nat × Scheduler :=
  let (removed, p) := s.pipe.sweep s.clock
  let s := s.visited agent .sweep (.swept removed (Pipe.cutoff s.clock s.pipe.expiryMs)) p
  (removed, if removed = 0 then s else s.signal .writable)

/-- Closes the pipe; nobody waits after that. -/
def close (s : Scheduler) : Scheduler :=
  ((s.visited .direct .close .closed s.pipe.close).signal .readable).signal .writable

/-- A call on the pipe itself, which does not wait and signals no task. -/
def inner (s : Scheduler) (call : Call) : Option Reply × Scheduler :=
  match s.pipe.visit ⟨s.clock, false⟩ call with
  | (some reply, p) => (some reply, s.visited .inner call reply p)
  | (none, _) => (none, s)

/-! ## Waiting -/

/-- The instant at which a wait that begins now is over. -/
def pollDeadline (s : Scheduler) : Nat := s.now + s.config.pollInterval.onTimer.ceilMillis

/-- A task begins to wait. -/
def wait (s : Scheduler) (t : Task) (deadline : Nat) : Scheduler :=
  { s with waiting := s.waiting ++ [⟨t, deadline⟩] }

/-- A task lets the others run before it goes on. -/
def giveWay (s : Scheduler) (t : Task) : Scheduler := { s with yielded := t :: s.yielded }

/-- A task waits for a signal or the next poll, which may be due at once. -/
def waitPoll (s : Scheduler) (t : Task) : Scheduler :=
  if s.config.pollInterval.isZero then s.giveWay t else s.wait t s.pollDeadline

/-- A task that has something to do is ready to go on, before the others. -/
def goOn (s : Scheduler) (t : Task) : Scheduler := { s with ready := t :: s.ready }

/-! ## Running tasks -/

/-- A sequence of messages yields its next item: a message, an error, or its end if the pipe is
closed and empty. It is asked for none once enough were taken. -/
def nextItem (s : Scheduler) (id : Nat) (reader : Credentials) : Nat → Scheduler
  | 0 => s.record (.stopped id)
  | left + 1 =>
    match s.tryRecv (.task id) reader with
    | (.ok message, s) =>
      (s.record (.event id (.received (.ok message)))).goOn ⟨id, .messages reader left⟩
    | (.error .empty, s) => s.waitPoll ⟨id, .messages reader (left + 1)⟩
    | (.error .closed, s) => s.record (.event id .ended)
    | (.error e, s) => (s.record (.event id (.received (.error e)))).goOn ⟨id, .failed left⟩

/-- A sequence of messages that has yielded an error is over when it is asked again. -/
def noItem (s : Scheduler) (id : Nat) : Nat → Scheduler
  | 0 => s.record (.stopped id)
  | _ + 1 => s.record (.event id .ended)

/-- Sweeps once for each of so many ticks. -/
def sweepTicks (id : Nat) : Nat → Scheduler → Scheduler
  | 0, s => s
  | ticks + 1, s =>
    let (removed, s) := s.sweep (.reaper id)
    sweepTicks id ticks (s.record (.noted (.taskReaperSwept removed)))

/-- Nanoseconds of the executor. -/
def nowNanos (s : Scheduler) : Nat := s.now * 1000000

/-- A reaper waits for an instant. -/
def waitTick (s : Scheduler) (id : Nat) (every : Duration) (due : Nat) : Scheduler :=
  s.wait ⟨id, .reap every (some due)⟩ (Duration.mk due).ceilMillis

/-- As many ticks a reaper answers before it gives way. -/
def ticksPerTurn : Nat := 128

/-- A reaper runs. Its first tick starts the schedule. At every later one it ends if the pipe is
closed or gone and sweeps otherwise; ticks that fall into one millisecond come together. -/
def reap (s : Scheduler) (id : Nat) (every : Duration) : Option Nat → Scheduler
  | none => s.waitTick id every (s.nowNanos + every.onTimer.nanos)
  | some due =>
    let ticks := min (Task.ticksDue ⟨id, .reap every (some due)⟩ s.nowNanos) ticksPerTurn
    let next := Task.nextTick every due s.nowNanos ticks
    if ticks = 0 then s.waitTick id every due
    else if s.pipe.closed || !s.alive then s.record (.noted .taskReaperExiting)
    else if ticks = ticksPerTurn then
      (sweepTicks id ticks s).giveWay ⟨id, .reap every (some next)⟩
    else (sweepTicks id ticks s).waitTick id every next

/-- A task runs until it is finished, waits, gives way or has received a message of several. -/
def runTask (s : Scheduler) (t : Task) : Scheduler :=
  match t.job with
  | .send sender data =>
    match s.trySend (.task t.id) sender data with
    | (.error .full, s) => s.waitPoll t
    | (result, s) => s.record (.event t.id (.sent result))
  | .recv reader =>
    match s.tryRecv (.task t.id) reader with
    | (.error .empty, s) => s.waitPoll t
    | (result, s) => s.record (.event t.id (.received result))
  | .messages reader left => s.nextItem t.id reader left
  | .failed left => s.noItem t.id left
  | .reap every due => s.reap t.id every due

/-- The first task that is ready runs. -/
def runNext? (s : Scheduler) : Option Scheduler :=
  match s.ready with
  | [] => none
  | t :: ready => some ({ s with ready := ready }.runTask t)

/-! ## Starting and ending tasks -/

def spawn (s : Scheduler) (t : Task) : Scheduler := { s with ready := s.ready ++ [t] }

/-- Whether a task that has not finished is among those described. -/
def has (s : Scheduler) (p : Task → Bool) : Bool :=
  s.ready.any p || s.waiting.any (p ·.task) || s.yielded.any p

/-- Ends the tasks described, wherever they are. -/
def cancel (s : Scheduler) (p : Task → Bool) : Scheduler :=
  { s with
    ready := s.ready.filter (!p ·)
    waiting := s.waiting.filter (!p ·.task)
    yielded := s.yielded.filter (!p ·) }

/-! ## Deadlines -/

/-- The earliest deadline. -/
def nextDeadline? (s : Scheduler) : Option Nat :=
  s.waiting.foldl (fun d w => some (match d with | none => w.deadline | some d => min d w.deadline)) none

/-- The tasks whose deadline has come become ready, in the order in which they began to wait. -/
def fire (s : Scheduler) : Scheduler :=
  { s with
    ready := s.ready ++ (s.waiting.filter (decide <| ·.deadline ≤ s.now)).map (·.task)
    waiting := s.waiting.filter fun w => !decide (w.deadline ≤ s.now) }

end Scheduler

end MessagePipe
