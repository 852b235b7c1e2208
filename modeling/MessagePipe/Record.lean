import MessagePipe.Credentials

/-!
# MessagePipe.Record

What a ring knows about one slot: when its message was stamped, who wrote it,
how many bytes it has, and whether it is still there.  A slot whose message was
taken keeps its record with the flag `valid` lowered.
-/

namespace MessagePipe

/-- The metadata of one slot. -/
structure Record where
  /-- The clock reading given when the message was written. -/
  stamp : UInt64
  owner : Credentials
  /-- How many bytes of the slot belong to the message. -/
  len : UInt16
  /-- Whether the slot holds a message that nobody has taken yet. -/
  valid : Bool
deriving DecidableEq

namespace Record

/-- The record of a slot that was never written. -/
def empty : Record := ⟨0, ⟨0, 0⟩, 0, false⟩

def readableBy (r : Record) (reader : Credentials) : Bool := reader.mayRead r.owner

/-- A message is expired if it was stamped strictly before the cutoff. -/
def isExpired (r : Record) (cutoff : UInt64) : Bool := r.valid && decide (r.stamp < cutoff)

/-- The record of the same slot once its message is gone. -/
def taken (r : Record) : Record := { r with valid := false }

def text (r : Record) : String :=
  Text.fields "MessageRecord"
    [Text.field "timestamp" (toString r.stamp),
     Text.field "owner_uid" (toString r.owner.uid),
     Text.field "owner_gid" (toString r.owner.gid),
     Text.field "len" (toString r.len),
     Text.field "valid" (toString r.valid)]

theorem isExpired_iff {r : Record} {cutoff : UInt64} :
    r.isExpired cutoff = true ↔ r.valid = true ∧ r.stamp < cutoff := by
  simp [isExpired]

end Record

end MessagePipe
