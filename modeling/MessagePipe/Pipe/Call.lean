import MessagePipe.Pipe.Basic

/-!
# MessagePipe.Pipe.Call

The calls that users make on a pipe, as data.  A call is carried out by
looking at the pipe under its lock (`Pipe.visit`): the look either ends the
call with a `Reply`, or leaves the caller nothing to do but park.  How long a
caller is ready to wait only decides between these two; it never changes what
the look does to the pipe.

After the lock is free again the caller wakes those whose wait may be over
(`Reply.signals`), one side after the other.
-/

namespace MessagePipe

/-- How long a caller is ready to wait. -/
inductive Wait where
  | never
  | forever
  /-- Until a deadline; whether it has passed is known at each look. -/
  | timed
deriving DecidableEq

/-- Why a caller gives up instead of waiting. -/
def Wait.refusal (late : Bool) : Wait → Option PipeError
  | never => some .wouldBlock
  | forever => none
  | timed => if late then some .timeout else none

/-- A call on a pipe. -/
inductive Call where
  | send (sender : Credentials) (data : Bytes) (wait : Wait)
  | recv (reader : Credentials) (out : Bytes) (wait : Wait)
  | sweep
  | setExpiry (caller : Credentials) (expiry : Duration)
  | clear (caller : Credentials)
  | close
deriving DecidableEq

/-- What a call returns. -/
inductive Reply where
  | sent (result : Except PipeError Nat)
  | received (result : Except PipeError Nat) (out : Bytes)
  /-- The cutoff is what the sweep compared stamps with. -/
  | swept (removed : Nat) (cutoff : UInt64)
  | expirySet (result : Except PipeError Unit)
  | cleared (result : Except PipeError Nat)
  | closed

/-- What a caller knows at a look: the reading of the pipe's clock, and whether the time
that it was ready to wait is over. -/
structure Moment where
  now : UInt64
  late : Bool
deriving DecidableEq

/-- The side on which a call parks when it has to wait. -/
def Call.side : Call → Side
  | send .. => .writable
  | _ => .readable

/-- Whom a finished call wakes, in this order. -/
def Reply.signals : Reply → List Side
  | sent (.ok _) => [.readable]
  | received (.ok _) _ => [.writable]
  | swept removed _ => if removed = 0 then [] else [.writable]
  | cleared (.ok _) => [.writable]
  | closed => [.readable, .writable]
  | _ => []

namespace Pipe

/-- A sweep under an expiry that was read earlier, with the reply that it gives. -/
def sweepReply (p : Pipe) (expiryMs now : UInt64) : Reply × Pipe :=
  let (removed, p) := p.sweepWith expiryMs now
  (.swept removed (cutoff now expiryMs), p)

/-- One look of a caller at the pipe. Without a reply the caller has to park. -/
def visit (p : Pipe) (m : Moment) : Call → Option Reply × Pipe
  | .send sender data wait =>
    match p.oversize data with
    | some error => (some (.sent (.error (.ring error))), p)
    | none =>
      match p.offer sender data m.now with
      | (some result, p) => (some (.sent result), p)
      | (none, p) => ((wait.refusal m.late).map fun e => .sent (.error e), p)
  | .recv reader out wait =>
    match p.accept reader out with
    | (some result, out, p) => (some (.received result out), p)
    | (none, out, p) => ((wait.refusal m.late).map fun e => .received (.error e) out, p)
  | .sweep => let (reply, p) := p.sweepReply p.expiryMs m.now; (some reply, p)
  | .setExpiry caller expiry => let (result, p) := p.setExpiry caller expiry; (some (.expirySet result), p)
  | .clear caller => let (result, p) := p.clear caller; (some (.cleared result), p)
  | .close => (some .closed, p.close)

end Pipe

end MessagePipe
