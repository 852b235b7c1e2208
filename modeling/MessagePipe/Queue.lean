import MessagePipe.Ring.History

/-!
# MessagePipe.Queue

The plain picture of a ring: a list of messages, oldest first, of which there
are at most `capacity`.  There are no slots, cursors or flags in it, and an
operation says of a whole list what a ring brings about slot by slot.

`Ring.toQueue` reads the plain picture off a ring, from `tail` on around the
circle.
-/

namespace MessagePipe

/-- A message that waits to be read. -/
structure Message where
  payload : Bytes
  owner : Credentials
  stamp : UInt64
deriving DecidableEq

/-- At most `capacity` messages, oldest first. -/
structure Queue where
  geometry : Geometry
  messages : List Message
deriving DecidableEq

namespace Queue

def empty (g : Geometry) : Queue := ⟨g, []⟩

/-- Appends a message. -/
def push (q : Queue) (data : Bytes) (owner : Credentials) (stamp : UInt64) :
    Except RingError Nat × Queue :=
  if q.geometry.dataSize < data.length then
    (.error (.messageTooLarge data.length q.geometry.dataSize), q)
  else if q.geometry.capacity ≤ q.messages.length then (.error .bufferFull, q)
  else (.ok data.length, { q with messages := q.messages ++ [⟨data, owner, stamp⟩] })

/-- Takes the first message, if the reader may have it and the buffer holds it. -/
def pop (q : Queue) (reader : Credentials) (out : Bytes) : Except RingError Nat × Bytes × Queue :=
  match q.messages with
  | [] => (.error .noData, out, q)
  | m :: rest =>
    if !reader.mayRead m.owner then (.error .accessDenied, out, q)
    else if out.length < m.payload.length then (.error (.invalidArgument .shortBuffer), out, q)
    else (.ok m.payload.length, m.payload ++ out.drop m.payload.length, { q with messages := rest })

/-- Whether a message was stamped before the cutoff. -/
def expired (cutoff : UInt64) (m : Message) : Bool := decide (m.stamp < cutoff)

/-- Removes the longest run of expired messages at the front. -/
def sweep (q : Queue) (cutoff : UInt64) : Nat × Queue :=
  ((q.messages.takeWhile (expired cutoff)).length,
    { q with messages := q.messages.dropWhile (expired cutoff) })

def clear (q : Queue) : Nat × Queue := (q.messages.length, { q with messages := [] })

/-- One operation. -/
def step (q : Queue) : Op → Op.Reply × Queue
  | .push data owner stamp => let (result, q) := q.push data owner stamp; (.pushed result, q)
  | .pop reader out => let (result, out, q) := q.pop reader out; (.popped result out, q)
  | .sweep cutoff => let (removed, q) := q.sweep cutoff; (.swept removed, q)
  | .clear => let (removed, q) := q.clear; (.cleared removed, q)

/-- A sequence of operations, with all that they return. -/
def run (q : Queue) : List Op → List Op.Reply × Queue
  | [] => ([], q)
  | op :: ops =>
    let (reply, q) := q.step op
    let (replies, q) := q.run ops
    (reply :: replies, q)

end Queue

namespace Ring

/-- The slot `i` places after the tail. -/
def slotFromTail (r : Ring) (i : Nat) : Nat := (r.tail + i) % r.capacity

/-- The message of a slot, by its record. -/
def messageAt (r : Ring) (slot : Nat) : Message :=
  let record := r.recordAt slot
  ⟨r.base.slice (r.offset slot) record.len.toNat, record.owner, record.stamp⟩

/-- The messages of a ring, oldest first. -/
def toQueue (r : Ring) : Queue :=
  ⟨r.toGeometry, (List.range r.count).map fun i => r.messageAt (r.slotFromTail i)⟩

end Ring

end MessagePipe
