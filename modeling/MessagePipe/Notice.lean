import MessagePipe.Pipe.Call

/-!
# MessagePipe.Notice

The lines that go to the log.  What a call has to say follows from the call
and its reply (`Call.notices`), so no operation needs to carry a log along.
-/

namespace MessagePipe

/-- How much a log line matters. -/
inductive Level where
  | info
  | debug
  | trace
deriving DecidableEq

def Level.text : Level → String
  | info => "INFO"
  | debug => "DEBUG"
  | trace => "TRACE"

/-- Something worth a line in the log. -/
inductive Notice where
  | created (geometry : Geometry) (expiryMs : UInt64)
  | rejected (len : Nat) (uid : UInt32) (max : Nat)
  | pushFailed (uid : UInt32) (error : RingError)
  | popFailed (uid : UInt32) (error : RingError)
  | expired (removed : Nat) (cutoff : UInt64)
  | expirySet (ms : Nat)
  | cleared (removed : Nat)
  | reaperStarted (interval : Duration)
  | reaperSwept (removed : Nat)
  | reaperExiting
  | taskReaperSwept (removed : Nat)
  | taskReaperExiting
deriving DecidableEq

namespace Notice

def level : Notice → Level
  | created .. | expirySet .. | cleared .. => .info
  | reaperSwept .. | taskReaperSwept .. => .trace
  | _ => .debug

def message : Notice → String
  | created g ms =>
    s!"message pipe created (capacity={g.capacity}, data_size={g.dataSize}, expiry_ms={ms})"
  | rejected len uid max => s!"rejected {len} byte message from uid {uid} (slot size {max})"
  | pushFailed uid error => s!"push from uid {uid} failed: {error.message}"
  | popFailed uid error => s!"pop by uid {uid} failed: {error.message}"
  | expired removed cutoff => s!"expired {removed} messages (cutoff {cutoff})"
  | expirySet ms => s!"message expiry set to {ms} ms"
  | cleared removed => s!"pipe cleared ({removed} messages discarded)"
  | reaperStarted interval => s!"reaper started (interval {interval.text})"
  | reaperSwept removed => s!"reaper sweep removed {removed} messages"
  | reaperExiting => "reaper exiting"
  | taskReaperSwept removed => s!"async reaper sweep removed {removed} messages"
  | taskReaperExiting => "async reaper exiting"

/-- The whole line. -/
def line (n : Notice) : String := n.level.text ++ " " ++ n.message

end Notice

/-- What a finished call has to say. -/
def Call.notices : Call → Reply → List Notice
  | send sender .., .sent (.error (.ring (.messageTooLarge len max))) =>
    [.rejected len sender.uid max]
  | send sender .., .sent (.error (.ring e)) => [.pushFailed sender.uid e]
  | recv reader .., .received (.error (.ring e)) _ => [.popFailed reader.uid e]
  | sweep, .swept removed cutoff => if removed = 0 then [] else [.expired removed cutoff]
  | setExpiry _ expiry, .expirySet (.ok _) => [.expirySet expiry.wholeMillis]
  | clear _, .cleared (.ok removed) => [.cleared removed]
  | _, _ => []

/-- What there is to say about a pipe that was just made. -/
def Pipe.creationNotices (p : Pipe) : List Notice := [.created p.ring.toGeometry p.expiryMs]

end MessagePipe
