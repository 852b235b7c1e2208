import MessagePipe.Session.Tasks

/-!
# MessagePipe.Session.Moves

Sessions under an executor that does as it likes.  A script that is run by
`TaskSession.run` finds the tasks at rest before each of its steps, and they
are resumed first in, first out.  Here the same things happen one at a time and
in any order: the script may act at any moment, any task that is ready may go
on next, time may go by while tasks are ready, and a deadline may be noticed
late.  A sequence of messages that has yielded an item is ready for the next, so
all of this may happen between two items.

`TaskSession.Reachable` are the sessions that such moves lead to, with the
jobs that were started on the way.  Job number `i` is that of the task with
number `i`.
-/

namespace MessagePipe

/-- Whether a task can begin with a job. -/
def Job.startable : Job → Bool
  | send .. | recv .. | messages .. => true
  | failed .. | reap .. => false

namespace Scheduler

/-- No task could go on: none is ready, none gave way, and no deadline has come. A reaper that gave
way may be left, since it waits for nobody. -/
def Quiescent (s : Scheduler) : Prop :=
  s.ready = [] ∧ (∀ t ∈ s.yielded, t.side = none) ∧ ∀ w ∈ s.waiting, s.now < w.deadline

/-- What an executor does by itself. -/
inductive Move where
  /-- The task at place `i` of those that are ready goes on. -/
  | resume (i : Nat)
  /-- The tasks that gave way are ready again. -/
  | rejoin
  /-- The tasks whose deadline has come become ready. -/
  | fire
  /-- Time goes by, whether or not anybody is ready. -/
  | elapse (ms : Nat)

/-- One move; `none` if it is not possible now. -/
def move (s : Scheduler) : Move → Option Scheduler
  | .resume i => do
    let t ← s.ready[i]?
    some ({ s with ready := s.ready.eraseIdx i }.runTask t)
  | .rejoin => some { s with ready := s.yielded ++ s.ready, yielded := [] }
  | .fire => some s.fire
  | .elapse ms => some { s with now := s.now + ms }

end Scheduler

namespace TaskSession

/-- The steps of a script that take no time. Reapers are started by `spawnReaper`, which makes sure
of their interval. -/
def Step.momentary : Step → Bool
  | .advance _ => false
  | .start job => job.startable
  | _ => true

/-- The job of the task that a step starts. -/
def Step.job? : Step → Option Job
  | .start job => some job
  | _ => none

/-- What can happen next. -/
inductive Move where
  /-- The script acts. -/
  | act (step : Step)
  /-- The executor goes on. -/
  | exec (m : Scheduler.Move)

/-- The job of the task that a move starts. -/
def Move.job? : Move → Option Job
  | .act step => step.job?
  | .exec _ => none

/-- One move; `none` if it is not possible now. -/
def move (s : TaskSession) : Move → Option TaskSession
  | .act step => if step.momentary then some (s.act step).2 else none
  | .exec m => (s.scheduler.move m).map fun scheduler => { s with scheduler := scheduler }

/-- A sequence of moves, if each is possible in its turn. -/
def moves (s : TaskSession) : List Move → Option TaskSession
  | [] => some s
  | m :: ms => do (← s.move m).moves ms

/-- A session that moves can lead to from its start, and the jobs that they start. -/
def Reachable (c : PipeConfig) (config : StreamConfig) (jobs : List Job) (s : TaskSession) : Prop :=
  ∃ clock first ms, start c config clock = .ok first ∧ first.moves ms = some s ∧
    ms.filterMap Move.job? = jobs

end TaskSession

end MessagePipe
