import MessagePipe.Duration
import MessagePipe.Geometry

/-!
# MessagePipe.Pipe.Config

What a pipe is made from: the geometry of its ring, and how long a message may
stay.  The expiry is given as a duration and kept in whole milliseconds, of
which there must be at least one and fewer than `wordLimit`.
-/

namespace MessagePipe

/-- The configuration of a pipe. -/
structure PipeConfig where
  geometry : Geometry
  /-- Messages older than this may be removed. -/
  expiry : Duration
deriving DecidableEq

/-- How long messages stay if nobody says otherwise. -/
def defaultExpiry : Duration := .ofMillis 5000

/-- The expiry as a pipe keeps it. -/
def expiryMillis (d : Duration) : Except RingError UInt64 :=
  if wordLimit ≤ d.wholeMillis then .error (.invalidArgument .expiryTooLong)
  else if d.wholeMillis = 0 then .error (.invalidArgument .expiryTooShort)
  else .ok (UInt64.ofNat d.wholeMillis)

/-- The milliseconds that a pipe keeps are those of the duration, and none is lost because a word
holds too few of them. -/
theorem expiryMillis_eq_ok_iff {d : Duration} {ms : UInt64} :
    expiryMillis d = .ok ms ↔ 0 < d.wholeMillis ∧ d.wholeMillis < wordLimit ∧
      ms.toNat = d.wholeMillis := by
  unfold expiryMillis
  split
  · next hlong => exact ⟨fun h => by contradiction, fun h => by omega⟩
  next hlong =>
  split
  · next hshort => exact ⟨fun h => by contradiction, fun h => by omega⟩
  · next hshort =>
      have hword : (UInt64.ofNat d.wholeMillis).toNat = d.wholeMillis :=
        UInt64.toNat_ofNat_of_lt' (Nat.not_le.mp hlong)
      rw [Except.ok.injEq]
      constructor
      · rintro rfl
        exact ⟨by omega, by omega, hword⟩
      · rintro ⟨-, -, hms⟩
        exact UInt64.toNat_inj.mp (hword.trans hms.symm)

namespace PipeConfig

def default : PipeConfig := ⟨.default, defaultExpiry⟩

/-- Refuses what no pipe can be made from. An expiry that only breaks down to no whole
millisecond passes here and is refused by `expiryMillis`. -/
def validate (c : PipeConfig) : Except RingError Unit := do
  c.geometry.validate
  if c.expiry.isZero then .error (.invalidArgument .zeroExpiry) else .ok ()

def text (c : PipeConfig) : String :=
  Text.fields "PipeConfig"
    [Text.field "ring" c.geometry.text, Text.field "expiry" c.expiry.text]

end PipeConfig

end MessagePipe
