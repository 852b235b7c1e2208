import MessagePipe.Pipe.Threads
import MessagePipe.Queue

/-!
# MessagePipe.Pipe.Plain

The plain picture of a pipe: a queue, and whether it is closed.  There are no
locks, waits or wake-ups in it; a call is answered at once, or, if it is ready
to wait for ever and would have to, not at all.

A history of finished calls explains itself if a plain pipe that is asked the
same calls in the same order gives the same replies (`PlainPipe.replay`).
-/

namespace MessagePipe

/-- A queue that can be closed. -/
structure PlainPipe where
  queue : Queue
  closed : Bool
deriving DecidableEq

/-- The plain picture of a pipe. -/
def Pipe.plain (p : Pipe) : PlainPipe := ⟨p.ring.toQueue, p.closed⟩

namespace PlainPipe

/-- What a call returns that cannot be served: the queue was full, or empty, and the pipe open. -/
def refusal : Wait → Option PipeError
  | .never => some .wouldBlock
  | .timed => some .timeout
  | .forever => none

/-- The reply to a call. A sweep is told its cutoff. -/
def reply (p : PlainPipe) (now cutoff : UInt64) : Call → Option Reply × PlainPipe
  | .send sender data wait =>
    let g := p.queue.geometry
    if g.dataSize < data.length then
      (some (.sent (.error (.ring (.messageTooLarge data.length g.dataSize)))), p)
    else if p.closed then (some (.sent (.error .closed)), p)
    else if g.capacity ≤ p.queue.messages.length then
      ((refusal wait).map fun e => .sent (.error e), p)
    else
      (some (.sent (.ok data.length)),
        { p with queue.messages := p.queue.messages ++ [⟨data, sender, now⟩] })
  | .recv reader out wait =>
    if p.queue.messages.isEmpty then
      if p.closed then (some (.received (.error .closed) out), p)
      else ((refusal wait).map fun e => .received (.error e) out, p)
    else
      let (result, out, queue) := p.queue.pop reader out
      (some (.received (result.mapError .ring) out), { p with queue := queue })
  | .sweep =>
    let (removed, queue) := p.queue.sweep cutoff
    (some (.swept removed cutoff), { p with queue := queue })
  | .setExpiry caller expiry =>
    if caller.isPrivileged then
      (some (.expirySet ((expiryMillis expiry).mapError .ring |>.map fun _ => ())), p)
    else (some (.expirySet (.error .permissionDenied)), p)
  | .clear caller =>
    if caller.isPrivileged then
      let (removed, queue) := p.queue.clear
      (some (.cleared (.ok removed)), { p with queue := queue })
    else (some (.cleared (.error .permissionDenied)), p)
  | .close => (some .closed, { p with closed := true })

/-- The cutoff that a sweep reports; other replies have none. -/
def cutoffOf : Reply → UInt64
  | .swept _ cutoff => cutoff
  | _ => 0

/-- Asks a plain pipe the calls of a history, in order. -/
def replay (p : PlainPipe) : List Visit → List (Option Reply) × PlainPipe
  | [] => ([], p)
  | v :: vs =>
    let (reply, p) := p.reply v.now (cutoffOf v.reply) v.call
    let (replies, p) := p.replay vs
    (reply :: replies, p)

end PlainPipe

end MessagePipe
