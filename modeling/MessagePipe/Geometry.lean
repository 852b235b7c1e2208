import MessagePipe.Error

/-!
# MessagePipe.Geometry

How many messages a ring holds and how long each may be.  A record keeps the
length of its message in sixteen bits, so no slot is longer than
`maxDataSize`; the payload region is addressed in sixty-four bits, so it has
fewer than `wordLimit` bytes.
-/

namespace MessagePipe

/-- The longest slot that a record can describe. -/
def maxDataSize : Nat := 65535

/-- Sizes and offsets stay below this number, the first that needs more than 64 bits. -/
def wordLimit : Nat := 18446744073709551616

/-- The shape of a ring: its slots, and the bytes of one slot. -/
structure Geometry where
  capacity : Nat
  dataSize : Nat
deriving DecidableEq

namespace Geometry

/-- A ring that nobody configured. -/
def default : Geometry := ⟨10, 1024⟩

/-- Many small messages. -/
def small : Geometry := ⟨256, 128⟩

/-- Few messages of the greatest length. -/
def large : Geometry := ⟨16, maxDataSize⟩

/-- The size of the payload region, if it can be addressed. -/
def payloadBytes? (g : Geometry) : Option Nat :=
  if g.capacity * g.dataSize < wordLimit then some (g.capacity * g.dataSize) else none

/-- Refuses shapes that no ring can have; the first fault counts. -/
def validate (g : Geometry) : Except RingError Unit :=
  if g.capacity = 0 then .error (.invalidArgument .zeroCapacity)
  else if g.dataSize = 0 then .error (.invalidArgument .zeroDataSize)
  else if maxDataSize < g.dataSize then .error (.invalidArgument .dataSizeTooLarge)
  else if g.payloadBytes? = none then .error (.invalidArgument .payloadOverflow)
  else .ok ()

def text (g : Geometry) : String :=
  Text.fields "RingConfig"
    [Text.field "capacity" (toString g.capacity), Text.field "data_size" (toString g.dataSize)]

end Geometry

end MessagePipe
