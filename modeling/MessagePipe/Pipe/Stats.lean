import MessagePipe.Pipe.Basic

/-!
# MessagePipe.Pipe.Stats

The numbers of a pipe at one moment, and the two texts that show them: one
line per number for people, and the listing of fields.
-/

namespace MessagePipe

/-- A pipe in numbers. -/
structure Stats where
  capacity : Nat
  dataSize : Nat
  messageCount : Nat
  readersWaiting : Nat
  writersWaiting : Nat
  expiryMs : UInt64
deriving DecidableEq

namespace Stats

/-- One line per number. -/
def lines (s : Stats) : String :=
  String.join
    [s!"capacity: {s.capacity}\n",
     s!"data_size: {s.dataSize}\n",
     s!"message count: {s.messageCount}\n",
     s!"readers waiting: {s.readersWaiting}\n",
     s!"writers waiting: {s.writersWaiting}\n",
     s!"expiry ms: {s.expiryMs}\n"]

def text (s : Stats) : String :=
  Text.fields "PipeStats"
    [Text.field "capacity" (toString s.capacity),
     Text.field "data_size" (toString s.dataSize),
     Text.field "message_count" (toString s.messageCount),
     Text.field "readers_waiting" (toString s.readersWaiting),
     Text.field "writers_waiting" (toString s.writersWaiting),
     Text.field "expiry_ms" (toString s.expiryMs)]

end Stats

/-- The numbers of a pipe now. -/
def Pipe.stats (p : Pipe) : Stats where
  capacity := p.ring.capacity
  dataSize := p.ring.dataSize
  messageCount := p.ring.count
  readersWaiting := p.readersWaiting
  writersWaiting := p.writersWaiting
  expiryMs := p.expiryMs

end MessagePipe
