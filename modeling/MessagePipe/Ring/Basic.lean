import MessagePipe.Bytes
import MessagePipe.Geometry
import MessagePipe.Record

/-!
# MessagePipe.Ring.Basic

A circular queue of messages in two regions that are allotted once:

```
base:     slot 0 | slot 1 | … | slot (capacity - 1)      dataSize bytes each
records:  rec 0  | rec 1  | … | rec (capacity - 1)
```

`head` is the slot that the next message is written to, `tail` the slot of the
oldest message.  No count is kept: the flag of the record at a cursor tells
whether its slot is taken, so the ring is full when the record at `head` is
valid and empty when the record at `tail` is not.

An operation returns its result together with the ring after it, also when it
fails, so that "a failed operation changes nothing" is a statement about the
second component.
-/

namespace MessagePipe

/-- The two regions that a ring works on. -/
structure Storage where
  base : Bytes
  records : List Record
deriving DecidableEq

namespace Storage

/-- The same regions with nothing in them. -/
def cleared (s : Storage) : Storage :=
  ⟨Bytes.zeros s.base.length, List.replicate s.records.length .empty⟩

/-- Fresh regions of the size that a geometry asks for. -/
def fresh (g : Geometry) (payloadBytes : Nat) : Storage :=
  ⟨Bytes.zeros payloadBytes, List.replicate g.capacity .empty⟩

end Storage

/-- A ring over its storage. -/
structure Ring extends Geometry, Storage where
  /-- The slot of the next message. -/
  head : Nat
  /-- The slot of the oldest message. -/
  tail : Nat
deriving DecidableEq

namespace Ring

/-- How far a ring is filled. -/
inductive State where
  | empty
  | partly
  | full
deriving DecidableEq

def State.text : State → String
  | empty => "Empty"
  | partly => "Partial"
  | full => "Full"

/-! ## Setting up -/

/-- A ring over given storage, which must have the size that the geometry asks for.
Whatever the storage held is wiped, but not before everything has been checked. The storage is
returned as well, as it is then. -/
def init (g : Geometry) (s : Storage) : Except RingError Ring × Storage :=
  if g.capacity = 0 then (.error (.invalidArgument .zeroCapacity), s)
  else if g.dataSize = 0 then (.error (.invalidArgument .zeroDataSize), s)
  else if maxDataSize < g.dataSize then (.error (.invalidArgument .dataSizeTooLarge), s)
  else match g.payloadBytes? with
    | none => (.error (.invalidArgument .payloadOverflow), s)
    | some payloadBytes =>
      if s.base.length ≠ payloadBytes then (.error (.invalidArgument .payloadMismatch), s)
      else if s.records.length ≠ g.capacity then (.error (.invalidArgument .recordMismatch), s)
      else
        let s := s.cleared
        (.ok { toGeometry := g, toStorage := s, head := 0, tail := 0 }, s)

/-- A ring over storage of its own. -/
def create (g : Geometry) : Except RingError Ring := do
  g.validate
  match g.payloadBytes? with
  | none => .error (.invalidArgument .payloadOverflow)
  | some payloadBytes => (init g (Storage.fresh g payloadBytes)).1

/-! ## Looking -/

/-- The record of a slot; a slot that is not there reads as never written. -/
def recordAt (r : Ring) (slot : Nat) : Record := r.records.getD slot .empty

/-- The slot after a slot, around the circle. -/
def next (r : Ring) (slot : Nat) : Nat := (slot + 1) % r.capacity

/-- Where the bytes of a slot begin in the payload region. -/
def offset (r : Ring) (slot : Nat) : Nat := slot * r.dataSize

def isEmpty (r : Ring) : Bool := !(r.recordAt r.tail).valid

def isFull (r : Ring) : Bool := (r.recordAt r.head).valid

def state (r : Ring) : State :=
  if r.isFull then .full else if r.isEmpty then .empty else .partly

/-- The record of the oldest message. -/
def peek (r : Ring) : Option Record :=
  if (r.recordAt r.tail).valid then some (r.recordAt r.tail) else none

/-- How many messages there are, by looking at every record. -/
def count (r : Ring) : Nat := r.records.countP (·.valid)

def text (r : Ring) : String :=
  Text.someFields "MessageRing"
    [Text.field "capacity" (toString r.capacity),
     Text.field "data_size" (toString r.dataSize),
     Text.field "head" (toString r.head),
     Text.field "tail" (toString r.tail),
     Text.field "state" r.state.text]

/-! ## Writing -/

/-- Writes a message into the slot at `head`, zeros behind it up to the end of the slot. -/
def store (r : Ring) (data : Bytes) (owner : Credentials) (stamp : UInt64) : Ring :=
  { r with
    base := r.base.patch (r.offset r.head) (data ++ Bytes.zeros (r.dataSize - data.length))
    records := r.records.set r.head ⟨stamp, owner, UInt16.ofNat data.length, true⟩
    head := r.next r.head }

/-- Appends a message and returns its length. A message that fits no slot is refused as such
even when the ring is full as well. -/
def push (r : Ring) (data : Bytes) (owner : Credentials) (stamp : UInt64) :
    Except RingError Nat × Ring :=
  if r.dataSize < data.length then (.error (.messageTooLarge data.length r.dataSize), r)
  else if r.isFull then (.error .bufferFull, r)
  else (.ok data.length, r.store data owner stamp)

/-! ## Reading -/

/-- Gives the slot at `tail` free. Its bytes and the rest of its record stay. -/
def release (r : Ring) : Ring :=
  { r with
    records := r.records.set r.tail (r.recordAt r.tail).taken
    tail := r.next r.tail }

/-- Takes the oldest message: its bytes go to the front of `out`, its length is returned. -/
def pop (r : Ring) (reader : Credentials) (out : Bytes) : Except RingError Nat × Bytes × Ring :=
  let record := r.recordAt r.tail
  let len := record.len.toNat
  if !record.valid then (.error .noData, out, r)
  else if !record.readableBy reader then (.error .accessDenied, out, r)
  else if out.length < len then (.error (.invalidArgument .shortBuffer), out, r)
  else (.ok len, out.patch 0 (r.base.slice (r.offset r.tail) len), r.release)

/-! ## Removing -/

/-- Releases expired messages from `tail` on, at most `budget` of them, and counts them. -/
def sweepUpTo (cutoff : UInt64) : Nat → Ring → Nat × Ring
  | 0, r => (0, r)
  | budget + 1, r =>
    if (r.recordAt r.tail).isExpired cutoff then
      let (removed, r) := sweepUpTo cutoff budget r.release
      (removed + 1, r)
    else (0, r)

/-- Removes messages stamped before the cutoff, oldest first, up to the first one that is
not: an expired message behind a fresh one stays. -/
def sweep (r : Ring) (cutoff : UInt64) : Nat × Ring := sweepUpTo cutoff r.capacity r

/-- Removes every message and starts again at slot 0; returns how many there were. -/
def clear (r : Ring) : Nat × Ring :=
  (r.count, { r with toStorage := r.toStorage.cleared, head := 0, tail := 0 })

end Ring

namespace Storage

/-- Lends storage to a ring for as long as `use` lasts, and gets it back. -/
def lend (s : Storage) (g : Geometry) (use : Ring → α × Ring) : Except RingError α × Storage :=
  match Ring.init g s with
  | (.error e, s) => (.error e, s)
  | (.ok r, _) => let (a, r) := use r; (.ok a, r.toStorage)

end Storage

end MessagePipe
