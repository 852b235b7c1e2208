import MessagePipe.Pipe.Basic

/-!
# MessagePipe.Reaper

A thread that removes expired messages in the background.  Round after round
it asks for the pipe, sleeps for one expiry, asks for the pipe again and
sweeps it.  While it sleeps it does not hold the pipe, so the pipe can go
away.

The thread can be told to stop: the flag is raised under a lock of its own,
and after that a wake-up is sent.  The thread looks at the flag under that
lock before and after it sleeps, so a wake-up cannot get lost between its look
and its sleep.
-/

namespace MessagePipe

/-- Where the reaper thread stands in its round. -/
inductive Reaper.Stage where
  /-- About to ask for the pipe and its expiry. -/
  | checking
  /-- About to take the lock of the stop flag. -/
  | arming (interval : Duration)
  /-- Waiting for a wake-up or the end of the interval. -/
  | asleep (interval : Duration)
  /-- No longer asleep; about to take the lock of the stop flag again. -/
  | roused
  /-- About to ask for the pipe a second time. -/
  | renewing
  /-- Holds the pipe and is about to sweep it. -/
  | sweeping
  /-- Has swept and is about to count the sweep. -/
  | tallying (removed : Nat)
  | exited
deriving DecidableEq

/-- The reaper thread and what it shares with its owner. -/
structure Reaper where
  stage : Reaper.Stage
  /-- The owner wants the thread to stop. -/
  stopped : Bool
  /-- The flag is up, but the wake-up that goes with it was not sent yet. -/
  owesWake : Bool
  /-- Sweeps that the thread has counted. -/
  sweeps : Nat
deriving DecidableEq

namespace Reaper

/-- A thread that was just started. -/
def start : Reaper := ⟨.checking, false, false, 0⟩

def isFinished (r : Reaper) : Bool :=
  match r.stage with
  | .exited => true
  | _ => false

/-- The thread's own next step, if it can take one without a wake-up and without touching the
pipe. `pipe` is what it finds when it asks for the pipe: `none` if nobody keeps it any more. -/
def proceed (r : Reaper) (pipe : Option Pipe) : Option Reaper :=
  match r.stage with
  | .checking =>
    match pipe with
    | some p => if p.closed then some { r with stage := .exited } else some { r with stage := .arming p.expiry }
    | none => some { r with stage := .exited }
  | .arming interval => some { r with stage := if r.stopped then .exited else .asleep interval }
  | .roused => some { r with stage := if r.stopped then .exited else .renewing }
  | .renewing => some { r with stage := if pipe.isSome then .sweeping else .exited }
  | .tallying _ => some { r with stage := .checking, sweeps := r.sweeps + 1 }
  | .asleep _ | .sweeping | .exited => none

/-- The sweep itself is over. -/
def swept (r : Reaper) (removed : Nat) : Reaper := { r with stage := .tallying removed }

/-- The thread wakes up: signalled, at the end of its interval, or for no reason. -/
def wake (r : Reaper) : Reaper :=
  match r.stage with
  | .asleep _ => { r with stage := .roused }
  | _ => r

/-- The owner raises the flag. -/
def raise (r : Reaper) : Reaper := { r with stopped := true, owesWake := true }

/-- The owner sends the wake-up that goes with the flag. -/
def deliver (r : Reaper) : Reaper := { r.wake with owesWake := false }

def text (r : Reaper) : String :=
  Text.fields "Reaper"
    [Text.field "sweeps" (toString r.sweeps), Text.field "finished" (toString r.isFinished)]

end Reaper

end MessagePipe
