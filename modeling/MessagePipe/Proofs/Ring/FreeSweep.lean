import Mathlib.Logic.Function.Iterate
import MessagePipe.Proofs.Ring.Sweep

/-!
# MessagePipe.Proofs.Ring.FreeSweep

How a sweep ends that nothing holds back.  The ring need not be one that can
come up: there is a record for each slot, `tail` is a slot, and flags and
stamps are as they may be.

The cursor of the loop goes around in a circle, so it does not tell how much is
left to do; the number of flags that are raised does.  A turn of the loop
lowers one of them, so there are no more turns than there are slots, and a
sweep that stops after as many turns as there are slots does not stop early: if
it has gone all the way around, it meets a slot that it has released itself.

* `Released.succ` — what one more turn does, and from it `released_iterate`,
  what any number of turns do;
* `sweepFreely_eq_iterate`, `isExpired_iterate`, `isExpired_sweepFreely` — how
  many turns the loop makes;
* `sweepFreely_ends` — all together, and that `sweep` does the same.
-/

namespace MessagePipe.Ring

variable {r r' : Ring} {n : Nat}

/-! ## Turns of the loop -/

/-- What releasing `n` slots makes of a ring: the flags of the first `n` slots from the tail on
are lowered, and `tail` goes on by as many. -/
structure Released (r : Ring) (n : Nat) (r' : Ring) : Prop where
  geometry : r'.toGeometry = r.toGeometry
  base : r'.base = r.base
  head : r'.head = r.head
  tail : r'.tail = (r.tail + n) % r.capacity
  length_records : r'.records.length = r.records.length
  /-- Nothing else in the records of these slots changes. -/
  passed : ∀ i < n, r'.recordAt ((r.tail + i) % r.capacity) =
    { r.recordAt ((r.tail + i) % r.capacity) with valid := false }
  /-- Nor do the records of the other slots. -/
  kept : ∀ slot, (∀ i < n, slot ≠ (r.tail + i) % r.capacity) → r'.recordAt slot = r.recordAt slot

theorem released_zero (ht : r.tail < r.capacity) : r.Released 0 r where
  geometry := rfl
  base := rfl
  head := rfl
  tail := (slotFromTail_zero ht).symm
  length_records := rfl
  passed i hi := absurd hi (Nat.not_lt_zero i)
  kept _ _ := rfl

/-- One more turn releases one more slot. -/
theorem Released.succ (h : r.Released n r') : r.Released (n + 1) r'.release where
  geometry := h.geometry
  base := h.base
  head := h.head
  tail := by
    show (r'.tail + 1) % r'.capacity = _
    rw [h.tail, congrArg Geometry.capacity h.geometry, Nat.mod_add_mod, Nat.add_assoc]
  length_records := by
    rw [← h.length_records]
    exact List.length_set
  passed i hi := by
    by_cases hlast : r'.tail = (r.tail + i) % r.capacity
    · -- it may be a slot that was released before, if the loop has gone around
      rw [← hlast, recordAt_release_self]
      by_cases hbefore : ∃ j < n, r'.tail = (r.tail + j) % r.capacity
      · obtain ⟨j, hj, hslot⟩ := hbefore
        rw [hslot, h.passed j hj]
        rfl
      · rw [h.kept _ fun j hj he => hbefore ⟨j, hj, he⟩]
        rfl
    · have hne : i ≠ n := fun he => hlast (he ▸ h.tail)
      rw [recordAt_release_ne hlast]
      exact h.passed i (by omega)
  kept slot hslot := by
    have hlast : r'.tail ≠ slot := by
      rw [h.tail]
      exact (hslot n (by omega)).symm
    rw [recordAt_release_ne hlast]
    exact h.kept slot fun i hi => hslot i (by omega)

theorem released_iterate (ht : r.tail < r.capacity) (n : Nat) :
    r.Released n (release^[n] r) := by
  induction n with
  | zero => exact released_zero ht
  | succ n ih =>
      rw [Function.iterate_succ_apply']
      exact ih.succ

/-- A message that is expired when its turn comes was so from the start, as no turn raises a
flag or changes a stamp. -/
theorem Released.isExpired (h : r.Released n r') {slot : Nat} {cutoff : UInt64}
    (he : (r'.recordAt slot).isExpired cutoff = true) :
    (r.recordAt slot).isExpired cutoff = true := by
  by_cases hpassed : ∃ i < n, slot = (r.tail + i) % r.capacity
  · obtain ⟨i, hi, rfl⟩ := hpassed
    rw [h.passed i hi] at he
    simp [Record.isExpired] at he
  · rwa [h.kept slot fun i hi hs => hpassed ⟨i, hi, hs⟩] at he

/-! ## How many turns there are -/

theorem sweepFreely_eq_iterate (r : Ring) (cutoff : UInt64) :
    (r.sweepFreely cutoff).2 = release^[(r.sweepFreely cutoff).1] r := by
  fun_induction sweepFreely r cutoff with
  | case1 r he removed after hrest ih => rwa [hrest] at ih
  | case2 r hfresh => rfl

/-- Before each turn the message at `tail` is expired. -/
theorem isExpired_iterate (r : Ring) (cutoff : UInt64) :
    ∀ i < (r.sweepFreely cutoff).1,
      ((release^[i] r).recordAt (release^[i] r).tail).isExpired cutoff = true := by
  fun_induction sweepFreely r cutoff with
  | case1 r he removed after hrest ih =>
      rw [hrest] at ih
      intro i hi
      cases i with
      | zero => exact he
      | succ i => exact ih i (Nat.lt_of_succ_lt_succ hi)
  | case2 r hfresh => exact fun i hi => absurd hi (Nat.not_lt_zero i)

/-- After the last turn it is not. -/
theorem isExpired_sweepFreely (r : Ring) (cutoff : UInt64) :
    ¬ ((r.sweepFreely cutoff).2.recordAt (r.sweepFreely cutoff).2.tail).isExpired cutoff = true := by
  fun_induction sweepFreely r cutoff with
  | case1 r he removed after hrest ih => rwa [hrest] at ih
  | case2 r hfresh => exact hfresh

/-! ## All together -/

/-- How a loop ends that releases the message at `tail` for as long as it is expired: after `n`
turns, with the ring `r'`. -/
structure SweepEnds (r : Ring) (cutoff : UInt64) (n : Nat) (r' : Ring) : Prop where
  result : r' = release^[n] r
  /-- Before each of the turns the message at `tail` is expired. -/
  goesOn : ∀ i < n, ((release^[i] r).recordAt (release^[i] r).tail).isExpired cutoff = true
  /-- After the last of them the slot at `tail` is free, or its message is not expired. -/
  stops : (r'.recordAt r'.tail).valid = false ∨ cutoff ≤ (r'.recordAt r'.tail).stamp
  /-- Each turn leaves one flag less that is raised, -/
  lowers : ∀ i < n, (release^[i + 1] r).count + 1 = (release^[i] r).count
  /-- and there are no more flags than slots. -/
  le_capacity : n ≤ r.capacity
  /-- The slots that were passed held expired messages from the start. -/
  expired : ∀ i < n, (r.recordAt ((r.tail + i) % r.capacity)).isExpired cutoff = true
  /-- They lost their flags, and nothing else changed. -/
  released : r.Released n r'

/-- **The end of a sweep**: on any records whatever, a loop that nothing holds back ends, after at
most as many turns as there are slots. A sweep that gives up after that many therefore does the
same: it never stops at a message that is expired. -/
theorem sweepFreely_ends (hrecords : r.records.length = r.capacity) (ht : r.tail < r.capacity)
    (cutoff : UInt64) :
    ∃ n r', r.sweepFreely cutoff = (n, r') ∧ r.sweep cutoff = (n, r') ∧
      r.SweepEnds cutoff n r' := by
  have hcount : r.count ≤ r.capacity := hrecords ▸ List.countP_le_length
  have hsame : r.sweep cutoff = r.sweepFreely cutoff := sweepUpTo_eq_sweepFreely hcount cutoff
  have hremoved := count_sweep r cutoff
  rw [hsame] at hremoved
  have hexpired := isExpired_iterate r cutoff
  refine ⟨_, _, rfl, hsame, ?_⟩
  exact {
    result := sweepFreely_eq_iterate r cutoff
    goesOn := hexpired
    stops := by
      have hfresh := isExpired_sweepFreely r cutoff
      rw [Record.isExpired_iff, not_and_or] at hfresh
      simpa using hfresh
    lowers := fun i hi => by
      rw [Function.iterate_succ_apply']
      exact count_release (Record.isExpired_iff.mp (hexpired i hi)).1
    le_capacity := by omega
    expired := fun i hi => by
      have hreleased := released_iterate ht i
      have he := hexpired i hi
      rw [hreleased.tail] at he
      exact hreleased.isExpired he
    released := by
      rw [sweepFreely_eq_iterate]
      exact released_iterate ht _ }

/-- Records that no sequence of operations leads to: all flags are raised although the cursors
are apart. The loop goes all the way around, and the bound stops it no earlier. -/
theorem sweepFreely_ends_around :
    ∃ r r' : Ring, r.head ≠ r.tail ∧ r.records.length = r.capacity ∧ r.tail < r.capacity ∧
      r.sweepFreely 40 = (3, r') ∧ r.sweep 40 = (3, r') ∧ r'.tail = r.tail ∧
      r.SweepEnds 40 3 r' := by
  have hfull : ∃ r : Ring, r.head ≠ r.tail ∧ r.records.length = r.capacity ∧
      r.tail < r.capacity ∧ (r.sweep 40).1 = 3 ∧ (r.sweep 40).2.tail = r.tail :=
    ⟨{ capacity := 3, dataSize := 1, base := [7, 8, 9], head := 0, tail := 2
       records := [⟨30, ⟨5, 6⟩, 1, true⟩, ⟨10, ⟨7, 8⟩, 9, true⟩, ⟨20, ⟨5, 6⟩, 0, true⟩] },
      by decide, rfl, by decide, rfl, rfl⟩
  obtain ⟨r, happart, hrecords, ht, hall, haround⟩ := hfull
  obtain ⟨n, r', hfree, hsweep, hends⟩ := sweepFreely_ends hrecords ht 40
  rw [hsweep] at hall haround
  obtain rfl : n = 3 := hall
  exact ⟨r, r', happart, hrecords, ht, hfree, hsweep, haround, hends⟩

end MessagePipe.Ring
