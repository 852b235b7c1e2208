import MessagePipe.Bytes
import MessagePipe.Credentials
import MessagePipe.Error

/-!
# MessagePipe.Op

Operations on a queue of messages as data, so that a sequence of them can be
run, compared and reasoned about.  `Op.Reply` is what one operation returns; a
receive returns the whole caller buffer, since a failed one must leave it
alone.
-/

namespace MessagePipe

/-- An operation on a queue of messages. -/
inductive Op where
  | push (data : Bytes) (owner : Credentials) (stamp : UInt64)
  | pop (reader : Credentials) (out : Bytes)
  | sweep (cutoff : UInt64)
  | clear
deriving DecidableEq

/-- What an operation returns. -/
inductive Op.Reply where
  | pushed (result : Except RingError Nat)
  | popped (result : Except RingError Nat) (out : Bytes)
  | swept (removed : Nat)
  | cleared (removed : Nat)

end MessagePipe
