import MessagePipe.Pipe.Config
import MessagePipe.Ring.Basic

/-!
# MessagePipe.Pipe.Basic

A ring shared by senders and receivers.  Senders wait while it is full,
receivers while it is empty; it can be closed, after which it takes nothing
more and hands out what is left.

Every definition here is one critical section: what a caller does to the pipe
while it holds the lock.  A look that finds nothing to do but wait (`offer`
and `accept` with the answer `none`) leaves it open whether the caller gives
up, parks, or tries again later; `trySend` and `tryRecv` are the callers that
give up at once.
-/

namespace MessagePipe

/-- What callers wait for: messages to read, or room to write. -/
inductive Side where
  | readable
  | writable
deriving DecidableEq

/-- A pipe. -/
structure Pipe where
  ring : Ring
  expiryMs : UInt64
  closed : Bool
  /-- Receivers that are parked, or were woken and do not hold the lock yet. -/
  readersWaiting : Nat
  /-- Senders that are parked, or were woken and do not hold the lock yet. -/
  writersWaiting : Nat
deriving DecidableEq

namespace Pipe

/-- A pipe with nothing in it. -/
def create (c : PipeConfig) : Except PipeError Pipe :=
  Except.mapError PipeError.ring do
    c.validate
    let ring ← Ring.create c.geometry
    let expiryMs ← expiryMillis c.expiry
    return ⟨ring, expiryMs, false, 0, 0⟩

def expiry (p : Pipe) : Duration := .ofMillis p.expiryMs.toNat

def text (p : Pipe) : String :=
  Text.someFields "Pipe"
    [Text.field "capacity" (toString p.ring.capacity),
     Text.field "data_size" (toString p.ring.dataSize),
     Text.field "expiry_ms" (toString p.expiryMs),
     Text.field "closed" (toString p.closed)]

/-! ## Sending -/

/-- Why a message can never be sent through this pipe. -/
def oversize (p : Pipe) (data : Bytes) : Option RingError :=
  if p.ring.dataSize < data.length then some (.messageTooLarge data.length p.ring.dataSize)
  else none

/-- One look of a sender. There is no answer while the ring is full and the pipe open. -/
def offer (p : Pipe) (sender : Credentials) (data : Bytes) (now : UInt64) :
    Option (Except PipeError Nat) × Pipe :=
  if p.closed then (some (.error .closed), p)
  else if p.ring.isFull then (none, p)
  else
    let (result, ring) := p.ring.push data sender now
    (some (result.mapError .ring), { p with ring := ring })

/-- Sends without waiting. -/
def trySend (p : Pipe) (sender : Credentials) (data : Bytes) (now : UInt64) :
    Except PipeError Nat × Pipe :=
  match p.oversize data with
  | some error => (.error (.ring error), p)
  | none =>
    match p.offer sender data now with
    | (some result, p) => (result, p)
    | (none, p) => (.error .wouldBlock, p)

/-! ## Receiving -/

/-- One look of a receiver. There is no answer while the ring is empty and the pipe open. -/
def accept (p : Pipe) (reader : Credentials) (out : Bytes) :
    Option (Except PipeError Nat) × Bytes × Pipe :=
  if p.ring.isEmpty then
    if p.closed then (some (.error .closed), out, p) else (none, out, p)
  else
    let (result, out, ring) := p.ring.pop reader out
    (some (result.mapError .ring), out, { p with ring := ring })

/-- Receives into a buffer without waiting. -/
def tryRecv (p : Pipe) (reader : Credentials) (out : Bytes) :
    Except PipeError Nat × Bytes × Pipe :=
  match p.accept reader out with
  | (some result, out, p) => (result, out, p)
  | (none, out, p) => (.error .wouldBlock, out, p)

/-- A buffer that every message of this pipe fits into. -/
def freshBuffer (p : Pipe) : Bytes := Bytes.zeros p.ring.dataSize

/-- The message that a receive left in a buffer. -/
def messageOf (result : Except PipeError Nat) (out : Bytes) : Except PipeError Bytes :=
  result.map out.take

/-! ## Removing and control -/

/-- The stamp below which messages have expired, and 0 if time is too young for that. -/
def cutoff (now expiryMs : UInt64) : UInt64 := if expiryMs ≤ now then now - expiryMs else 0

/-- As plain numbers: the difference, which does not go below zero. -/
theorem toNat_cutoff (now expiryMs : UInt64) :
    (cutoff now expiryMs).toNat = now.toNat - expiryMs.toNat := by
  unfold cutoff
  split
  · next hle => exact UInt64.toNat_sub_of_le _ _ hle
  · next hgt =>
      rw [UInt64.le_iff_toNat_le] at hgt
      rw [UInt64.toNat_zero]
      omega

/-- Removes the messages that a given expiry makes too old, as far as `Ring.sweep` goes. -/
def sweepWith (p : Pipe) (expiryMs now : UInt64) : Nat × Pipe :=
  let (removed, ring) := p.ring.sweep (cutoff now expiryMs)
  (removed, { p with ring := ring })

/-- Removes messages older than the expiry of the pipe. -/
def sweep (p : Pipe) (now : UInt64) : Nat × Pipe := p.sweepWith p.expiryMs now

/-- Changes the expiry. Privileged. -/
def setExpiry (p : Pipe) (caller : Credentials) (expiry : Duration) :
    Except PipeError Unit × Pipe :=
  if caller.isPrivileged then
    match expiryMillis expiry with
    | .error e => (.error (.ring e), p)
    | .ok ms => (.ok (), { p with expiryMs := ms })
  else (.error .permissionDenied, p)

/-- Removes every message. Privileged. -/
def clear (p : Pipe) (caller : Credentials) : Except PipeError Nat × Pipe :=
  if caller.isPrivileged then
    let (removed, ring) := p.ring.clear
    (.ok removed, { p with ring := ring })
  else (.error .permissionDenied, p)

/-- From now on sends are refused, and receives are once nothing is left. -/
def close (p : Pipe) : Pipe := { p with closed := true }

/-! ## Counting who waits -/

/-- A caller starts to wait. -/
def enroll (p : Pipe) : Side → Pipe
  | .readable => { p with readersWaiting := p.readersWaiting + 1 }
  | .writable => { p with writersWaiting := p.writersWaiting + 1 }

/-- A caller that waited holds the lock again. -/
def withdraw (p : Pipe) : Side → Pipe
  | .readable => { p with readersWaiting := p.readersWaiting - 1 }
  | .writable => { p with writersWaiting := p.writersWaiting - 1 }

end Pipe

end MessagePipe
