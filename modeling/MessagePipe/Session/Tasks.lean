import MessagePipe.Stream.Settle

/-!
# MessagePipe.Session.Tasks

A pipe for tasks under a script.  A step of the script may use the pipe, start
or cancel a task, or let time go by; after every step the tasks run until each
has finished or waits, and the session reports what they produced.
-/

namespace MessagePipe

/-- A scheduler under a script, between two steps. -/
structure TaskSession where
  scheduler : Scheduler
  /-- Tasks started so far, reapers aside. -/
  tasks : Nat
  /-- Reapers started so far. -/
  reapers : Nat
  /-- The reaper that the script watches. -/
  watched : Option Nat

namespace TaskSession

/-- The steps that change something. -/
inductive Step where
  | trySend (sender : Credentials) (data : Bytes)
  | tryRecv (reader : Credentials)
  /-- Starts a task. -/
  | start (job : Job)
  | cancel (id : Nat)
  | clear (caller : Credentials)
  | sweep
  | close
  /-- A call on the pipe itself. -/
  | inner (call : Call)
  | setClock (now : UInt64)
  | advance (ms : Nat)
  | spawnReaper (every : Duration)
  | abortReaper
  | drop
  /-- Nothing is done. -/
  | look

/-- What the script learns from a step. -/
inductive Answer where
  | sent (result : Except StreamError Nat)
  | received (result : Except StreamError Bytes)
  | started (id : Nat)
  | cancelled (wasUnfinished : Bool)
  | cleared (result : Except StreamError Nat)
  | swept (removed : Nat)
  | reply (reply : Reply)
  | spawned (result : Except StreamError Unit)
  | done

/-- All that a step brings to light. -/
structure Report where
  answer : Answer
  events : List (Nat × Event)
  notices : List Notice

/-- Whether a task is the one that the script started as number `id`. -/
def isTask (id : Nat) (t : Task) : Bool := !t.isReaper && t.id == id

/-- Whether a task is the reaper of number `id`. -/
def isReaper (id : Nat) (t : Task) : Bool := t.isReaper && t.id == id

/-- Whether the watched reaper has finished, if one is watched. -/
def reaperFinished (s : TaskSession) : Option Bool :=
  s.watched.map fun id => !s.scheduler.has (isReaper id)

/-- What a step does before any task runs. -/
def act (s : TaskSession) : Step → Answer × TaskSession
  | .trySend sender data =>
    let (result, scheduler) := s.scheduler.trySend .direct sender data
    (.sent result, { s with scheduler := scheduler })
  | .tryRecv reader =>
    let (result, scheduler) := s.scheduler.tryRecv .direct reader
    (.received result, { s with scheduler := scheduler })
  | .start job =>
    (.started s.tasks,
      { s with scheduler := s.scheduler.spawn ⟨s.tasks, job⟩, tasks := s.tasks + 1 })
  | .cancel id =>
    (.cancelled (s.scheduler.has (isTask id)),
      { s with scheduler := s.scheduler.cancel (isTask id) })
  | .clear caller =>
    let (result, scheduler) := s.scheduler.clear caller
    (.cleared result, { s with scheduler := scheduler })
  | .sweep =>
    let (removed, scheduler) := s.scheduler.sweep .direct
    (.swept removed, { s with scheduler := scheduler })
  | .close => (.done, { s with scheduler := s.scheduler.close })
  | .inner call =>
    let (reply, scheduler) := s.scheduler.inner call
    (match reply with | some reply => .reply reply | none => .done,
      { s with scheduler := scheduler })
  | .setClock now => (.done, { s with scheduler := { s.scheduler with clock := now } })
  | .advance ms => (.done, { s with scheduler := s.scheduler.advance ms })
  | .spawnReaper every =>
    if every.isZero then (.spawned (.error (.ring (.invalidArgument .zeroInterval))), s)
    else
      (.spawned (.ok ()),
        { s with
          scheduler := s.scheduler.spawn ⟨s.reapers, .reap every none⟩
          reapers := s.reapers + 1
          watched := some s.reapers })
  | .abortReaper =>
    match s.watched with
    | none => (.done, s)
    | some id =>
      (.done, { s with scheduler := s.scheduler.cancel (isReaper id), watched := none })
  | .drop => (.done, { s with scheduler := { s.scheduler with held := false } })
  | .look => (.done, s)

/-- What the script sees of the tasks, in the order of the entries. A sequence of messages that is
asked for no more is over for it as well. -/
def events (entries : List Entry) : List (Nat × Event) :=
  entries.filterMap fun
    | .event id e => some (id, e)
    | .stopped id => some (id, .ended)
    | _ => none

/-- A step, and the tasks at rest after it. What happened stays in the journal. -/
def perform (s : TaskSession) (step : Step) : Answer × TaskSession :=
  let (answer, s) := s.act step
  (answer, { s with scheduler := s.scheduler.settle })

/-- The session with an empty journal. -/
def forget (s : TaskSession) : TaskSession :=
  { s with scheduler := { s.scheduler with journal := [] } }

/-- One step of the script, reported. -/
def step (s : TaskSession) (step : Step) : Report × TaskSession :=
  let (answer, s) := s.perform step
  let entries := s.scheduler.journal.reverse
  (⟨answer, events entries, entries.flatMap Entry.notices⟩, s.forget)

/-- The steps of a script in turn, with all that happened. -/
def run (s : TaskSession) : List Step → TaskSession
  | [] => s
  | step :: steps => (s.perform step).2.run steps

/-- A session over a new pipe. -/
def start (c : PipeConfig) (config : StreamConfig) (clock : UInt64) :
    Except StreamError TaskSession :=
  match Pipe.create c with
  | .error e => .error (.ofPipe e)
  | .ok p => .ok ⟨Scheduler.ofPipe p config clock, 0, 0, none⟩

end TaskSession

end MessagePipe
