import MessagePipe.Proofs.Ring.Occupancy
import MessagePipe.Ring.Sweep

/-!
# MessagePipe.Proofs.Ring.Sweep

How sweeps of one ring go together.  Stamps need not be in any order, so a
sweep is not a filter: it stops at the first message that is not expired.  All
the same a sweep and another one after it do what a single sweep does at the
greater of the two cutoffs, whichever of them comes first: what the first one
stops at, the second either stops at as well or, if its cutoff is greater,
goes on from.

* `sweepUpTo_eq_sweepFreely` — as long as there is budget for every message, a
  sweep is held back by nothing but a message that is not expired;
* `sweepFreely_sweepFreely` — two sweeps are one;
* `WellFormed.sweeps_eq` — so is any number of them;
* `Reachable.sweeps_compose` — all together.
-/

namespace MessagePipe

/-! ## The greater cutoff -/

theorem toNat_max (c c' : UInt64) : (max c c').toNat = max c.toNat c'.toNat := by
  rw [show max c c' = if c ≤ c' then c' else c from rfl]
  split
  · next h =>
      exact (Nat.max_eq_right (UInt64.le_iff_toNat_le.mp h)).symm
  · next h =>
      rw [UInt64.le_iff_toNat_le] at h
      exact (Nat.max_eq_left (by omega)).symm

/-- What is expired at the greater cutoff is expired at one of the two. -/
theorem Record.isExpired_max {record : Record} {c c' : UInt64} :
    record.isExpired (max c c') = true ↔
      record.isExpired c = true ∨ record.isExpired c' = true := by
  simp only [isExpired_iff, UInt64.lt_iff_toNat_lt, toNat_max]
  rw [← and_or_left]
  exact and_congr_right fun _ => by omega

/-- The greatest of several cutoffs is the same in whichever order they come. -/
theorem foldr_max_perm {cutoffs cutoffs' : List UInt64} (h : cutoffs.Perm cutoffs') :
    cutoffs.foldr max 0 = cutoffs'.foldr max 0 := by
  refine h.foldr_eq' (fun c _ c' _ d => UInt64.toNat_inj.mp ?_) 0
  simp only [toNat_max]
  omega

namespace Ring

variable {r : Ring} {g : Geometry}

/-! ## Two sweeps -/

/-- A budget for every message is as good as none. -/
theorem sweepUpTo_eq_sweepFreely {budget : Nat} (h : r.count ≤ budget) (cutoff : UInt64) :
    sweepUpTo cutoff budget r = r.sweepFreely cutoff := by
  induction budget generalizing r with
  | zero =>
      have hfresh : ¬ (r.recordAt r.tail).isExpired cutoff = true := by
        intro he
        have hcount := count_release (Record.isExpired_iff.mp he).1
        omega
      rw [sweepFreely_of_fresh hfresh]
      rfl
  | succ budget ih =>
      rw [sweepUpTo]
      split
      · next he =>
          have hcount := count_release (Record.isExpired_iff.mp he).1
          rw [sweepFreely_of_expired he, ih (by omega)]
      · next he => rw [sweepFreely_of_fresh he]

/-- The second sweep goes on from where the first one stopped, if its cutoff is greater. -/
theorem sweepFreely_sweepFreely (r : Ring) (c c' : UInt64) :
    ((r.sweepFreely c).1 + ((r.sweepFreely c).2.sweepFreely c').1,
      ((r.sweepFreely c).2.sweepFreely c').2) = r.sweepFreely (max c c') := by
  fun_induction sweepFreely r c with
  | case1 r he removed after hrest ih =>
      rw [sweepFreely_of_expired (Record.isExpired_max.mpr (.inl he)), ← ih, hrest,
        Nat.add_right_comm]
  | case2 r hfresh =>
      rw [Nat.zero_add]
      show r.sweepFreely c' = _
      by_cases he : (r.recordAt r.tail).isExpired c' = true
      · -- the tail is old enough for the second cutoff alone, which therefore is the greater one
        obtain ⟨hv, hlt⟩ := Record.isExpired_iff.mp he
        have hle : c ≤ c' := by
          rw [Record.isExpired_iff, UInt64.lt_iff_toNat_lt] at hfresh
          rw [UInt64.lt_iff_toNat_lt] at hlt
          rw [UInt64.le_iff_toNat_le]
          have hc : ¬ (r.recordAt r.tail).stamp.toNat < c.toNat := fun hlt => hfresh ⟨hv, hlt⟩
          omega
        rw [show max c c' = c' from if_pos hle]
      · rw [sweepFreely_of_fresh he, sweepFreely_of_fresh]
        rw [Record.isExpired_max, not_or]
        exact ⟨hfresh, he⟩

namespace WellFormed

theorem sweep_eq_sweepFreely (h : r.WellFormed) (cutoff : UInt64) :
    r.sweep cutoff = r.sweepFreely cutoff :=
  sweepUpTo_eq_sweepFreely h.count_le cutoff

theorem sweep_sweep (h : r.WellFormed) (c c' : UInt64) :
    ((r.sweep c).1 + ((r.sweep c).2.sweep c').1, ((r.sweep c).2.sweep c').2) =
      r.sweep (max c c') := by
  rw [(h.sweep c).sweep_eq_sweepFreely, h.sweep_eq_sweepFreely, h.sweep_eq_sweepFreely,
    sweepFreely_sweepFreely]

end WellFormed

/-! ## Any number of sweeps -/

/-- Sweeps one after the other: how many messages they removed together, and the ring after the
last of them. -/
def sweeps (r : Ring) : List UInt64 → Nat × Ring
  | [] => (0, r)
  | cutoff :: cutoffs =>
    let (removed, r) := r.sweep cutoff
    let (more, r) := r.sweeps cutoffs
    (removed + more, r)

theorem sweeps_cons (r : Ring) (cutoff : UInt64) (cutoffs : List UInt64) :
    r.sweeps (cutoff :: cutoffs) =
      ((r.sweep cutoff).1 + ((r.sweep cutoff).2.sweeps cutoffs).1,
        ((r.sweep cutoff).2.sweeps cutoffs).2) := rfl

/-- No stamp is less than 0. -/
theorem WellFormed.sweep_zero (h : r.WellFormed) : r.sweep 0 = (0, r) := by
  have hfresh : ¬ (r.recordAt r.tail).isExpired 0 = true := by
    rw [Record.isExpired_iff, UInt64.lt_iff_toNat_lt]
    exact fun he => Nat.not_lt_zero _ he.2
  rw [h.sweep_eq_sweepFreely, sweepFreely_of_fresh hfresh]

theorem WellFormed.sweeps_eq (h : r.WellFormed) (cutoffs : List UInt64) :
    r.sweeps cutoffs = r.sweep (cutoffs.foldr max 0) := by
  induction cutoffs generalizing r with
  | nil => exact h.sweep_zero.symm
  | cons cutoff cutoffs ih =>
      rw [sweeps_cons, ih (h.sweep cutoff), List.foldr_cons, ← h.sweep_sweep]

/-- What sweeps of a ring amount to that follow one another. -/
structure SweepsCompose (r : Ring) : Prop where
  /-- Two sweeps leave the ring that one leaves at the greater cutoff, and remove as many
  messages together. -/
  twice : ∀ c c', ((r.sweep c).1 + ((r.sweep c).2.sweep c').1, ((r.sweep c).2.sweep c').2) =
    r.sweep (max c c')
  /-- Any number of sweeps are one at the greatest cutoff; if there are none, that is 0. -/
  all : ∀ cutoffs, r.sweeps cutoffs = r.sweep (cutoffs.foldr max 0)
  /-- The order of sweeps makes no difference to what they remove together. -/
  perm : ∀ cutoffs cutoffs', cutoffs.Perm cutoffs' → r.sweeps cutoffs = r.sweeps cutoffs'
  /-- The same sweep once more removes nothing. -/
  again : ∀ c, (r.sweep c).2.sweep c = (0, (r.sweep c).2)
  /-- A greater cutoff removes no fewer messages. -/
  mono : ∀ c c', c ≤ c' → (r.sweep c).1 ≤ (r.sweep c').1

/-- **Sweeps compose**: whatever the stamps of its messages are, any sweeps of a ring that can
come up leave the ring, byte for byte and record for record, that a single sweep leaves at the
greatest of their cutoffs, and together they remove as many messages. -/
theorem Reachable.sweeps_compose (h : Reachable g r) : r.SweepsCompose where
  twice := h.wellFormed.sweep_sweep
  all := h.wellFormed.sweeps_eq
  perm cutoffs cutoffs' hperm := by
    rw [h.wellFormed.sweeps_eq, h.wellFormed.sweeps_eq, foldr_max_perm hperm]
  again c := by
    have htwice := h.wellFormed.sweep_sweep c c
    rw [show max c c = c from if_pos (UInt64.le_refl c)] at htwice
    have hremoved := congrArg Prod.fst htwice
    have hring := congrArg Prod.snd htwice
    dsimp only at hremoved hring
    exact Prod.ext (by omega) hring
  mono c c' hle := by
    have htwice := h.wellFormed.sweep_sweep c c'
    rw [show max c c' = c' from if_pos hle] at htwice
    have hremoved := congrArg Prod.fst htwice
    dsimp only at hremoved
    omega

/-- A full ring that goes around the end of its storage, with stamps 10, 30 and 3. The first
sweeps stop at the second message, although the third is expired; the others remove all. -/
theorem sweeps_compose_unordered :
    ∃ r, Reachable ⟨3, 2⟩ r ∧ r.tail = 1 ∧ r.toQueue.messages.map Message.stamp = [10, 30, 3] ∧
      r.sweeps [5, 20, 7] = r.sweep 20 ∧ (r.sweep 20).1 = 1 ∧
      r.sweeps [31, 5, 20] = r.sweep 31 ∧ (r.sweep 31).1 = 3 := by
  have hreach : ∃ r, Reachable ⟨3, 2⟩ r ∧ r.tail = 1 ∧
      r.toQueue.messages.map Message.stamp = [10, 30, 3] ∧
      (r.sweep 20).1 = 1 ∧ (r.sweep 31).1 = 3 :=
    ⟨_, ⟨.fresh ⟨3, 2⟩ 6, _, [.push [1] ⟨5, 6⟩ 7, .push [2, 3] ⟨5, 6⟩ 10, .push [] ⟨7, 8⟩ 30,
      .pop ⟨5, 6⟩ [0, 0], .push [4] ⟨7, 8⟩ 3], rfl, rfl⟩, rfl, rfl, rfl, rfl⟩
  obtain ⟨r, hr, htail, hstamps, hsome, hall⟩ := hreach
  have hcompose := hr.sweeps_compose
  exact ⟨r, hr, htail, hstamps, hcompose.all _, hsome, hcompose.all _, hall⟩

end Ring

end MessagePipe
