import MessagePipe.Text.Fields

/-!
# MessagePipe.Clock

A clock in milliseconds that moves only when it is told to.  Its reading is a
word: moving it past the greatest one starts again at zero.
-/

namespace MessagePipe

/-- A clock that is set by hand. -/
structure ManualClock where
  now : UInt64
deriving DecidableEq

namespace ManualClock

/-- A clock that nobody has set. -/
def default : ManualClock := ⟨0⟩

def set (_ : ManualClock) (ms : UInt64) : ManualClock := ⟨ms⟩

/-- Moves the clock on and returns the new reading. -/
def advance (c : ManualClock) (ms : UInt64) : UInt64 × ManualClock :=
  (c.now + ms, ⟨c.now + ms⟩)

def text (c : ManualClock) : String :=
  Text.fields "ManualClock" [Text.field "now" (toString c.now)]

end ManualClock

end MessagePipe
