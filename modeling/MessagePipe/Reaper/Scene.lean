import MessagePipe.Pipe.Threads
import MessagePipe.Reaper

/-!
# MessagePipe.Reaper.Scene

A reaper thread, its pipe, and everybody else who has to do with either: users
whose threads are at work on the pipe and who in the end let go of it, and the
owner of the reaper, who raises the stop flag and then sends a wake-up.  Each
`Move` is something that happens at once; the order of moves is up to the
world outside.
-/

namespace MessagePipe

/-- A whole sweep at once: if messages go, those who wait for room are woken. -/
def World.sweep (w : World) (now : UInt64) : Nat × World :=
  let (removed, p) := w.pipe.sweep now
  (removed,
    { w with
      pipe := p
      threads := if removed = 0 then w.threads else w.threads.map (Thread.wake .writable) })

/-- A reaper, its pipe and the threads at work on the pipe. -/
structure Scene where
  world : World
  /-- Somebody other than the reaper keeps the pipe. -/
  held : Bool
  reaper : Reaper

namespace Scene

/-- What can happen next. -/
inductive Move where
  /-- A thread of a user goes on with its call, or starts one. -/
  | use (move : MessagePipe.Move)
  /-- The last user lets go of the pipe; nobody is in the middle of a call then. -/
  | drop
  /-- The owner raises the stop flag. -/
  | raise
  /-- The owner sends the wake-up that goes with the flag. -/
  | deliver
  /-- The reaper wakes up at the end of its interval, or for no reason. -/
  | wake
  /-- The reaper takes a step that does not touch the pipe. -/
  | proceed
  /-- The reaper sweeps the pipe. -/
  | sweep (now : UInt64)
deriving DecidableEq

/-- A pipe, at work or not, whose reaper was just started. -/
def start (w : World) : Scene := ⟨w, true, .start⟩

/-- The pipe as the reaper finds it when it asks for it. -/
def found (s : Scene) : Option Pipe := if s.held then some s.world.pipe else none

/-- One move; `none` if it is not possible now. -/
def step (s : Scene) : Move → Option Scene
  | .use move =>
    if s.held then (s.world.step move).map fun world => { s with world := world } else none
  | .drop =>
    if s.held && s.world.threads.all (·.result.isSome) then some { s with held := false } else none
  | .raise => some { s with reaper := s.reaper.raise }
  | .deliver => if s.reaper.owesWake then some { s with reaper := s.reaper.deliver } else none
  | .wake =>
    match s.reaper.stage with
    | .asleep _ => some { s with reaper := s.reaper.wake }
    | _ => none
  | .proceed => (s.reaper.proceed s.found).map fun reaper => { s with reaper := reaper }
  | .sweep now =>
    match s.reaper.stage with
    | .sweeping =>
      let (removed, world) := s.world.sweep now
      some { s with world := world, reaper := s.reaper.swept removed }
    | _ => none

/-- A sequence of moves, if each is possible in its turn. -/
def run (s : Scene) : List Move → Option Scene
  | [] => some s
  | m :: ms => do (← s.step m).run ms

end Scene

end MessagePipe
