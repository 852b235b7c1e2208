import MessagePipe.Text.Decimal

/-!
# MessagePipe.Duration

Lengths of time in whole nanoseconds.  Expiries and poll intervals are given
as durations; a pipe keeps its expiry in whole milliseconds (`wholeMillis`),
and the text names a duration in the largest unit of which it holds at least
one.
-/

namespace MessagePipe

/-- A length of time. -/
structure Duration where
  nanos : Nat
deriving DecidableEq

namespace Duration

def ofMillis (ms : Nat) : Duration := ⟨ms * 1000000⟩

def ofMicros (us : Nat) : Duration := ⟨us * 1000⟩

/-- Seconds and nanoseconds; a second or more of nanoseconds carries over. -/
def ofParts (secs nanos : Nat) : Duration := ⟨secs * 1000000000 + nanos⟩

/-- Whole seconds. -/
def secs (d : Duration) : Nat := d.nanos / 1000000000

/-- Nanoseconds beyond the whole seconds. -/
def subsecNanos (d : Duration) : Nat := d.nanos % 1000000000

/-- Whole milliseconds: what is left over is dropped. -/
def wholeMillis (d : Duration) : Nat := d.nanos / 1000000

/-- Milliseconds until a timer of this length has run out. A begun millisecond counts. -/
def ceilMillis (d : Duration) : Nat := (d.nanos + 999999) / 1000000

def isZero (d : Duration) : Bool := d.nanos == 0

/-- No timer runs for more than thirty years. A longer one is cut down to that, whether or not the
instant that it was set for could be represented: a poll interval of sixty years, as well as one of
`2 ^ 63` seconds, has been seen to be over after thirty years. -/
def longestTimer : Duration := ofParts (30 * 365 * 86400) 0

/-- How long a timer runs that is set to this duration. -/
def onTimer (d : Duration) : Duration := ⟨min d.nanos longestTimer.nanos⟩

/-- A duration is shown in seconds, milliseconds, microseconds or nanoseconds, whichever is
the largest unit that it reaches. -/
def text (d : Duration) : String :=
  if 1000000000 ≤ d.nanos then Text.decimal 9 d.nanos ++ "s"
  else if 1000000 ≤ d.nanos then Text.decimal 6 d.nanos ++ "ms"
  else if 1000 ≤ d.nanos then Text.decimal 3 d.nanos ++ "µs"
  else toString d.nanos ++ "ns"

@[simp] theorem wholeMillis_ofMillis (ms : Nat) : (ofMillis ms).wholeMillis = ms := by
  simp only [wholeMillis, ofMillis]; omega

/-- Dropping the broken millisecond loses less than one. -/
theorem ofMillis_wholeMillis_le (d : Duration) :
    (ofMillis d.wholeMillis).nanos ≤ d.nanos ∧ d.nanos < (ofMillis d.wholeMillis).nanos + 1000000 := by
  simp only [wholeMillis, ofMillis]; omega

end Duration

end MessagePipe
