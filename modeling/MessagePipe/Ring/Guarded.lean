import MessagePipe.Ring.History

/-!
# MessagePipe.Ring.Guarded

The operations of a ring with every precaution spelled out.  Each reading of a
record, each slice of a region and each number is checked before it is used,
and so is each assumption that the plain operations make on the way; where a
check fails there is no result.  The plain operations check nothing: reading
past the end gives a default, and numbers have no limit.

A ring on which the guarded operations always have a result, the plain one's,
never reads or writes out of range and never leaves the range of its words.
-/

namespace MessagePipe.Ring.Guarded

/-- A number that a word can hold. -/
def word? (n : Nat) : Option Nat := if n < wordLimit then some n else none

/-- Goes on only if the condition holds. -/
def check (b : Bool) : Option Unit := if b then some () else none

/-- The record of a slot that is there. -/
def record? (r : Ring) (slot : Nat) : Option Record := r.records[slot]?

/-- The slot after a slot; the circle must not be empty. -/
def next? (r : Ring) (slot : Nat) : Option Nat := do
  let n ← word? (slot + 1)
  check (decide (r.capacity ≠ 0))
  return n % r.capacity

/-- Where `n` bytes of a slot begin, if they lie in the payload region. -/
def range? (r : Ring) (slot n : Nat) : Option Nat := do
  let start ← word? (slot * r.dataSize)
  let stop ← word? (start + n)
  check (decide (stop ≤ r.base.length))
  return start

def isEmpty? (r : Ring) : Option Bool := do return !(← record? r r.tail).valid

def isFull? (r : Ring) : Option Bool := do return (← record? r r.head).valid

def state? (r : Ring) : Option State := do
  if ← isFull? r then return .full
  if ← isEmpty? r then return .empty
  return .partly

def peek? (r : Ring) : Option (Option Record) := do
  let record ← record? r r.tail
  return if record.valid then some record else none

/-- What every operation that moved a cursor makes sure of: the cursors are slots, and the
oldest message is at the tail unless there is none. -/
def anchored? (r : Ring) : Option Unit := do
  check (decide (r.head < r.capacity))
  check (decide (r.tail < r.capacity))
  check (!(← isEmpty? r) || decide (r.tail = r.head))

/-- The number of messages, which never exceeds the number of slots. -/
def count? (r : Ring) : Option Nat := do
  let n := r.records.countP (·.valid)
  check (decide (n ≤ r.capacity))
  word? n

def push? (r : Ring) (data : Bytes) (owner : Credentials) (stamp : UInt64) :
    Option (Except RingError Nat × Ring) := do
  if r.dataSize < data.length then
    return (.error (.messageTooLarge data.length r.dataSize), r)
  if ← isFull? r then
    return (.error .bufferFull, r)
  let record ← record? r r.head
  check (!record.valid)
  let start ← range? r r.head r.dataSize
  -- the message ends inside the slot
  check (decide (data.length ≤ r.dataSize))
  let len := UInt16.ofNat data.length
  check (decide (len.toNat = data.length) && decide (len.toNat ≤ r.dataSize))
  let head ← next? r r.head
  let after : Ring :=
    { r with
      base := r.base.patch start (data ++ Bytes.zeros (r.dataSize - data.length))
      records := r.records.set r.head ⟨stamp, owner, len, true⟩
      head := head }
  anchored? after
  return (.ok data.length, after)

def pop? (r : Ring) (reader : Credentials) (out : Bytes) :
    Option (Except RingError Nat × Bytes × Ring) := do
  let record ← record? r r.tail
  if !record.valid then
    return (.error .noData, out, r)
  if !record.readableBy reader then
    return (.error .accessDenied, out, r)
  let len := record.len.toNat
  check (decide (len ≤ r.dataSize))
  if out.length < len then
    return (.error (.invalidArgument .shortBuffer), out, r)
  let start ← range? r r.tail len
  check (decide (len ≤ out.length))
  let tail ← next? r r.tail
  let after : Ring := { r with records := r.records.set r.tail record.taken, tail := tail }
  anchored? after
  return (.ok len, out.patch 0 (r.base.slice start len), after)

/-- The loop of a sweep; `removed` counts what it has released so far. -/
def sweepLoop? (cutoff : UInt64) : Nat → Nat → Ring → Option (Nat × Ring)
  | 0, removed, r => some (removed, r)
  | budget + 1, removed, r => do
    let record ← record? r r.tail
    if !record.isExpired cutoff then
      return (removed, r)
    let tail ← next? r r.tail
    let removed ← word? (removed + 1)
    sweepLoop? cutoff budget removed
      { r with records := r.records.set r.tail record.taken, tail := tail }

def sweep? (r : Ring) (cutoff : UInt64) : Option (Nat × Ring) := do
  let (removed, after) ← sweepLoop? cutoff r.capacity 0 r
  anchored? after
  return (removed, after)

def clear? (r : Ring) : Option (Nat × Ring) := do
  let n ← count? r
  return (n, { r with toStorage := r.toStorage.cleared, head := 0, tail := 0 })

/-- One operation. -/
def step? (r : Ring) : Op → Option (Op.Reply × Ring)
  | .push data owner stamp => do
    let (result, r) ← push? r data owner stamp
    return (.pushed result, r)
  | .pop reader out => do
    let (result, out, r) ← pop? r reader out
    return (.popped result out, r)
  | .sweep cutoff => do
    let (removed, r) ← sweep? r cutoff
    return (.swept removed, r)
  | .clear => do
    let (removed, r) ← clear? r
    return (.cleared removed, r)

/-- A sequence of operations, with all that they return. -/
def run? (r : Ring) : List Op → Option (List Op.Reply × Ring)
  | [] => some ([], r)
  | op :: ops => do
    let (reply, r) ← step? r op
    let (replies, r) ← run? r ops
    return (reply :: replies, r)

end MessagePipe.Ring.Guarded
