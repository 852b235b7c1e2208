import MessagePipe.Pipe.Call

/-!
# MessagePipe.Pipe.Alone

Calls made one after the other, with nobody else at work on the pipe.  A call
that has to wait then waits in vain: one with a deadline parks until the
deadline and gives up, one without a deadline parks and is not heard of again.
-/

namespace MessagePipe

/-- How long a call is ready to wait. -/
def Call.wait : Call → Wait
  | send _ _ wait | recv _ _ wait => wait
  | _ => .never

namespace Pipe

/-- One call. `late` tells whether the deadline of a timed call has passed at its first look. -/
def alone (p : Pipe) (call : Call) (now : UInt64) (late : Bool) : Option Reply × Pipe :=
  match p.visit ⟨now, late⟩ call with
  | (some reply, p) => (some reply, p)
  | (none, p) =>
    match call.wait with
    | .timed => ((p.enroll call.side).withdraw call.side).visit ⟨now, true⟩ call
    | _ => (none, p.enroll call.side)

/-- Calls in turn, each with its own clock reading. -/
def runAlone (p : Pipe) : List (Call × Moment) → List (Option Reply) × Pipe
  | [] => ([], p)
  | (call, m) :: calls =>
    let (reply, p) := p.alone call m.now m.late
    let (replies, p) := p.runAlone calls
    (reply :: replies, p)

/-- Receives a whole message into a buffer of its own. -/
def recvMessageAlone (p : Pipe) (reader : Credentials) (now : UInt64) :
    Option (Except PipeError Bytes) × Pipe :=
  match p.alone (.recv reader p.freshBuffer .forever) now false with
  | (some (.received result out), p) => (some (messageOf result out), p)
  | (_, p) => (none, p)

end Pipe

end MessagePipe
