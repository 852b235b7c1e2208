import MessagePipe.Text.Fields
import MessagePipe.Text.Quoted

/-!
# MessagePipe.Error

Why an operation was refused, in three layers.  A `RingError` comes from the
slots themselves; a `PipeError` adds waiting, closing and privilege; a
`StreamError` is what a task sees, for whom a pipe on which it would have to
wait is `full` or `empty`.

Each layer has a one-line `message`, the `text` that names the error as a
value, and its class: an error is recoverable if the same call may succeed
later, and terminal if no later call can.
-/

namespace MessagePipe

/-- What is wrong with an argument. -/
inductive Reason where
  | zeroCapacity
  | zeroDataSize
  | dataSizeTooLarge
  | payloadOverflow
  | payloadMismatch
  | recordMismatch
  | shortBuffer
  | zeroExpiry
  | expiryTooShort
  | expiryTooLong
  | zeroInterval
  | other (text : String)
deriving DecidableEq

inductive RingError where
  | invalidArgument (reason : Reason)
  | messageTooLarge (len max : Nat)
  | bufferFull
  | noData
  | accessDenied
deriving DecidableEq

inductive PipeError where
  | ring (error : RingError)
  | wouldBlock
  | timeout
  | closed
  | permissionDenied
deriving DecidableEq

inductive StreamError where
  | full
  | empty
  | closed
  | ring (error : RingError)
  | permissionDenied
deriving DecidableEq

/-! ## Arguments -/

def Reason.message : Reason → String
  | zeroCapacity => "capacity must be non-zero"
  | zeroDataSize => "data_size must be non-zero"
  | dataSizeTooLarge => "data_size exceeds record length range"
  | payloadOverflow => "capacity * data_size overflows"
  | payloadMismatch => "payload storage size mismatch"
  | recordMismatch => "record storage size mismatch"
  | shortBuffer => "output buffer shorter than message"
  | zeroExpiry => "expiry must be non-zero"
  | expiryTooShort => "expiry must be at least 1ms"
  | expiryTooLong => "expiry exceeds u64 milliseconds"
  | zeroInterval => "reaper interval must be non-zero"
  | other text => text

/-! ## Rings -/

namespace RingError

def message : RingError → String
  | invalidArgument reason => s!"invalid argument: {reason.message}"
  | messageTooLarge len max => s!"message of {len} bytes exceeds slot size of {max} bytes"
  | bufferFull => "ring buffer is full"
  | noData => "no message available"
  | accessDenied => "access denied"

def text : RingError → String
  | invalidArgument reason => "InvalidArgument(" ++ Text.quoted reason.message ++ ")"
  | messageTooLarge len max =>
    Text.fields "MessageTooLarge" [Text.field "len" (toString len), Text.field "max" (toString max)]
  | bufferFull => "BufferFull"
  | noData => "NoData"
  | accessDenied => "AccessDenied"

/-- The error number of the operating system for this refusal. -/
def errno : RingError → Nat
  | invalidArgument _ => 22
  | messageTooLarge _ _ => 90
  | bufferFull => 28
  | noData => 61
  | accessDenied => 13

/-- A full or an empty ring may have changed by the next call. -/
def isTransient : RingError → Bool
  | bufferFull | noData => true
  | _ => false

end RingError

/-! ## Pipes -/

namespace PipeError

def message : PipeError → String
  | ring error => error.message
  | wouldBlock => "operation would block"
  | timeout => "timed out waiting on the pipe"
  | closed => "pipe is closed"
  | permissionDenied => "operation requires privileged credentials"

def text : PipeError → String
  | ring error => "Ring(" ++ error.text ++ ")"
  | wouldBlock => "WouldBlock"
  | timeout => "Timeout"
  | closed => "Closed"
  | permissionDenied => "PermissionDenied"

def errno : PipeError → Nat
  | ring error => error.errno
  | wouldBlock => 11
  | timeout => 110
  | closed => 32
  | permissionDenied => 1

def isRecoverable : PipeError → Bool
  | ring error => error.isTransient
  | wouldBlock | timeout => true
  | closed | permissionDenied => false

def isTerminal : PipeError → Bool
  | closed => true
  | _ => false

end PipeError

/-! ## Streams -/

namespace StreamError

/-- A refusal of the pipe, as a task sees it.  A call that would have had to wait found the
pipe full; a receive, which found it empty instead, says so itself. -/
def ofPipe : PipeError → StreamError
  | .ring .bufferFull => full
  | .ring .noData => empty
  | .ring error => ring error
  | .wouldBlock | .timeout => full
  | .closed => closed
  | .permissionDenied => permissionDenied

def message : StreamError → String
  | full => "pipe is full"
  | empty => "pipe is empty"
  | closed => "pipe is closed"
  | ring error => error.message
  | permissionDenied => "operation requires privileged credentials"

def text : StreamError → String
  | full => "Full"
  | empty => "Empty"
  | closed => "Closed"
  | ring error => "Ring(" ++ error.text ++ ")"
  | permissionDenied => "PermissionDenied"

def isRecoverable : StreamError → Bool
  | full | empty => true
  | ring error => error.isTransient
  | closed | permissionDenied => false

def isTerminal : StreamError → Bool
  | closed => true
  | _ => false

end StreamError

end MessagePipe
