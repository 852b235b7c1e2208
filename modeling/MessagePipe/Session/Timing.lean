import Mathlib.Logic.Relation
import MessagePipe.Session.Moves

/-!
# MessagePipe.Session.Timing

Sessions whose executor is on time for one reaper.  `TaskSession.Reachable`
lets time go by as it likes, also while a reaper should have had its turn.
Timers that fire in the order of their deadlines are those of an executor that
lets no time go by while the reaper is due (`TaskSession.OnTime`); what it does
with the other tasks is left open.

Ticks are counted from the first turn of the reaper, which is tick 0.
-/

namespace MessagePipe

namespace TaskSession

/-- The steps that need the pipe. Nobody can take them after letting go of it. -/
def Step.usesPipe : Step → Bool
  | .trySend .. | .tryRecv _ | .start _ | .clear _ | .sweep | .close | .inner _ | .spawnReaper _ =>
    true
  | .cancel _ | .setClock _ | .advance _ | .abortReaper | .drop | .look => false

/-- Moves that leave reaper `id` to its schedule. The script does not abort it, and uses the pipe
only as long as it keeps it; time goes by only while the reaper waits, and not beyond its next
tick. -/
def OnTime (id : Nat) (s : TaskSession) : Move → Prop
  | .act step =>
    (step.usesPipe = true → s.scheduler.held = true) ∧ (step = .abortReaper → s.watched ≠ some id)
  | .exec (.elapse ms) =>
    (∀ t ∈ s.scheduler.ready, isReaper id t = false) ∧
      ∀ w ∈ s.scheduler.waiting, isReaper id w.task = true → s.scheduler.now + ms ≤ w.deadline
  | .exec _ => True

/-- One such move after the other. -/
abbrev Goes (id : Nat) : TaskSession → TaskSession → Prop :=
  Relation.ReflTransGen fun s s' => ∃ m, s.OnTime id m ∧ s.move m = some s'

end TaskSession

namespace Scheduler

/-- The milliseconds between two ticks of a reaper that is to sweep every `every` milliseconds. No
timer runs for more than thirty years. -/
def interval (every : Nat) : Nat := min every (30 * 365 * 86400 * 1000)

/-- The instant of a tick of a reaper that was started at the instant `start`. -/
def tick (start every i : Nat) : Nat := start + i * interval every

/-- The pipe is closed, or nobody keeps it any more. -/
def Over (s : Scheduler) : Prop := s.pipe.closed = true ∨ s.alive = false

end Scheduler

/-- The instant of a call on the pipe that was made by the reaper of number `id`. -/
def Entry.reapedAt? (id : Nat) : Entry → Option Nat
  | visited time agent _ _ _ => if agent = .reaper id then some time else none
  | _ => none

namespace Scheduler

/-- The instants at which reaper `id` made a call on the pipe, in order. -/
def sweepTimes (s : Scheduler) (id : Nat) : List Nat :=
  s.journal.reverse.filterMap (Entry.reapedAt? id)

end Scheduler

end MessagePipe
