import MessagePipe.Ring.Count

/-!
# MessagePipe.Ring.Sweep

A sweep with nothing to hold it back.  `Ring.sweep` gives up after `capacity`
messages; the loop here goes on for as long as the message at `tail` is
expired.  It ends all the same, on any records whatever: the cursor runs in a
circle, but each message that is released is one message fewer.
-/

namespace MessagePipe.Ring

/-- Releases expired messages from `tail` on, and counts them. -/
def sweepFreely (r : Ring) (cutoff : UInt64) : Nat × Ring :=
  if _expired : (r.recordAt r.tail).isExpired cutoff = true then
    let (removed, r) := sweepFreely r.release cutoff
    (removed + 1, r)
  else (0, r)
termination_by r.count
decreasing_by
  have := count_release (Record.isExpired_iff.mp _expired).1
  omega

/-- An expired message at `tail` is released first. -/
theorem sweepFreely_of_expired {r : Ring} {cutoff : UInt64}
    (h : (r.recordAt r.tail).isExpired cutoff = true) :
    r.sweepFreely cutoff =
      ((r.release.sweepFreely cutoff).1 + 1, (r.release.sweepFreely cutoff).2) := by
  rw [sweepFreely, dif_pos h]

/-- A message that is not expired ends the sweep. -/
theorem sweepFreely_of_fresh {r : Ring} {cutoff : UInt64}
    (h : ¬ (r.recordAt r.tail).isExpired cutoff = true) : r.sweepFreely cutoff = (0, r) := by
  rw [sweepFreely, dif_neg h]

end MessagePipe.Ring
