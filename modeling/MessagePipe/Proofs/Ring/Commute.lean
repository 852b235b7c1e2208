import MessagePipe.Proofs.Ring.Occupancy
import MessagePipe.Proofs.Ring.Refinement

/-!
# MessagePipe.Proofs.Ring.Commute

While a ring is neither empty nor full its cursors are apart, so writing at
`head` and releasing at `tail` do not meet: done in either order they leave the
same ring, byte for byte (`store_release_comm`), and a pop finds the same
message (`pop_store`).  A sweep may go on until the cursors meet, but it then
stops in either order, at a free slot or at the message that was written there,
as long as that one is not expired (`sweep_store`).

Whatever leaves room for one more message, and does not meet the write, may
change places with a push (`interchange_push`).
-/

namespace MessagePipe.Ring

variable {r : Ring} {g : Geometry}

/-! ## Writing and releasing -/

theorem store_release_comm (data : Bytes) (owner : Credentials) (stamp : UInt64)
    (hne : r.head ≠ r.tail) :
    (r.store data owner stamp).release = r.release.store data owner stamp := by
  have hrecord : (r.store data owner stamp).recordAt r.tail = r.recordAt r.tail :=
    recordAt_store_ne hne
  have hset : (r.records.set r.head ⟨stamp, owner, UInt16.ofNat data.length, true⟩).set r.tail
      (r.recordAt r.tail).taken =
      (r.records.set r.tail (r.recordAt r.tail).taken).set r.head
        ⟨stamp, owner, UInt16.ofNat data.length, true⟩ :=
    List.set_comm _ _ hne
  rw [release, show (r.store data owner stamp).tail = r.tail from rfl, hrecord]
  simp only [store, release, hset]
  rfl

/-! ## Room for one more message -/

theorem isFull_release (h : r.WellFormed) (h0 : 0 < r.count) : r.release.isFull = false := by
  have hcount := count_release (h.valid_tail_iff.mpr h0)
  have hle := h.count_le
  have hne : ¬ r.release.isFull = true := by
    rw [(h.release h0).isFull_iff]
    show ¬ r.release.count = r.capacity
    omega
  simpa using hne

/-- A pop fills no ring. -/
theorem isFull_pop (h : r.WellFormed) (hf : r.isFull = false) (reader : Credentials)
    (out : Bytes) : (r.pop reader out).2.2.isFull = false := by
  cases Nat.eq_zero_or_pos r.count with
  | inl h0 =>
      rw [pop_of_zero h h0]
      exact hf
  | inr h0 =>
      rw [pop_of_pos h h0]
      split
      · exact hf
      · split
        · exact hf
        · exact isFull_release h h0

/-- Nor does a sweep. -/
theorem isFull_sweepUpTo (cutoff : UInt64) (budget : Nat) (h : r.WellFormed)
    (hf : r.isFull = false) : (sweepUpTo cutoff budget r).2.isFull = false := by
  induction budget generalizing r with
  | zero => exact hf
  | succ budget ih =>
      rw [sweepUpTo]
      split
      · next he =>
          have h0 := h.valid_tail_iff.mp (Record.isExpired_iff.mp he).1
          exact ih (h.release h0) (isFull_release h h0)
      · exact hf

/-! ## What does not meet a write -/

/-- A pop does not meet a write: it finds the same message, and it makes no difference which of
the two comes first. -/
theorem pop_store {data : Bytes} (h : r.WellFormed) (h0 : 0 < r.count) (hf : r.isFull = false)
    (hd : data.length ≤ r.dataSize) (owner : Credentials) (stamp : UInt64) (reader : Credentials)
    (out : Bytes) :
    (r.store data owner stamp).pop reader out =
      ((r.pop reader out).1, (r.pop reader out).2.1,
        (r.pop reader out).2.2.store data owner stamp) := by
  have hne := h.head_ne_tail h0 (h.count_lt hf)
  have hm : (r.store data owner stamp).messageAt r.tail = r.messageAt r.tail :=
    messageAt_store_ne h hd owner stamp hne (h.valid_tail_iff.mpr h0)
  have hcount : 0 < (r.store data owner stamp).count := by
    rw [count_store h hf]; omega
  rw [pop_of_pos (h.store hf hd owner stamp) hcount, pop_of_pos h h0,
    show (r.store data owner stamp).tail = r.tail from rfl, hm]
  split
  · rfl
  · split
    · rfl
    · rw [store_release_comm data owner stamp hne]

/-- A sweep does not meet a write either, if the message is not expired that is written. -/
theorem sweepUpTo_store {data : Bytes} {stamp cutoff : UInt64} (budget : Nat) (h : r.WellFormed)
    (hf : r.isFull = false) (hd : data.length ≤ r.dataSize) (owner : Credentials)
    (hfresh : cutoff ≤ stamp) :
    sweepUpTo cutoff budget (r.store data owner stamp) =
      ((sweepUpTo cutoff budget r).1, (sweepUpTo cutoff budget r).2.store data owner stamp) := by
  induction budget generalizing r with
  | zero => rfl
  | succ budget ih =>
      simp only [sweepUpTo]
      rw [show (r.store data owner stamp).tail = r.tail from rfl]
      rcases Nat.eq_zero_or_pos r.count with h0 | h0
      · -- nothing is left to release, and the message that was written is not expired
        have hmeet : r.tail = r.head := by rw [h.head_eq, h0, slotFromTail_zero h.tail_lt]
        have hfree : ¬ (r.recordAt r.tail).isExpired cutoff = true := by
          intro he
          have hpos := h.valid_tail_iff.mp (Record.isExpired_iff.mp he).1
          omega
        have hstays : ¬ ((r.store data owner stamp).recordAt r.tail).isExpired cutoff = true := by
          rw [hmeet, recordAt_store_self h, Record.isExpired_iff]
          exact fun he => UInt64.not_le.mpr he.2 hfresh
        rw [if_neg hfree, if_neg hstays]
      · have hne := h.head_ne_tail h0 (h.count_lt hf)
        rw [recordAt_store_ne hne]
        split
        · rw [store_release_comm data owner stamp hne,
            ih (h.release h0) (isFull_release h h0) hd]
        · rfl

theorem sweep_store {data : Bytes} {stamp cutoff : UInt64} (h : r.WellFormed)
    (hf : r.isFull = false) (hd : data.length ≤ r.dataSize) (owner : Credentials)
    (hfresh : cutoff ≤ stamp) :
    (r.store data owner stamp).sweep cutoff =
      ((r.sweep cutoff).1, (r.sweep cutoff).2.store data owner stamp) :=
  sweepUpTo_store r.capacity h hf hd owner hfresh

/-! ## Operations that change places -/

/-- What a push does that finds room. -/
theorem step_push (hf : r.isFull = false) (data : Bytes) (owner : Credentials) (stamp : UInt64) :
    r.step (.push data owner stamp) =
      if r.dataSize < data.length then
        (.pushed (.error (.messageTooLarge data.length r.dataSize)), r)
      else (.pushed (.ok data.length), r.store data owner stamp) := by
  simp only [step, push, hf, Bool.false_eq_true, if_false]
  split <;> rfl

/-- Two operations may change places: each returns the same, the buffer of a caller included,
whichever comes first, and they leave the same ring. -/
def Interchange (r : Ring) (a b : Op) : Prop :=
  r.run [a, b] = ((r.run [b, a]).1.reverse, (r.run [b, a]).2)

/-- A push changes places with an operation that leaves room for it and does not meet what it
writes. A message that fits no slot is refused in either order. -/
theorem interchange_push {op : Op} {data : Bytes} {owner : Credentials} {stamp : UInt64}
    (hf : r.isFull = false) (hroom : (r.step op).2.isFull = false)
    (hstore : data.length ≤ r.dataSize → (r.store data owner stamp).step op =
      ((r.step op).1, (r.step op).2.store data owner stamp)) :
    r.Interchange (.push data owner stamp) op := by
  have hsize : (r.step op).2.dataSize = r.dataSize :=
    congrArg Geometry.dataSize (toGeometry_step r op)
  simp only [Interchange, run, step_push hf, step_push hroom, hsize]
  by_cases hd : r.dataSize < data.length
  · simp only [if_pos hd, List.reverse_cons, List.reverse_nil, List.nil_append,
      List.singleton_append]
  · simp only [if_neg hd, hstore (by omega), List.reverse_cons, List.reverse_nil, List.nil_append,
      List.singleton_append]

/-- **Interchange**: in a ring that is not full, a push changes places with a pop if there is a
message to be popped, and with a sweep if the message it writes is not expired; whether they
succeed or fail, and also if the sweep removes all that was there before. -/
theorem Reachable.push_interchanges (h : Reachable g r) (hf : r.isFull = false) (data : Bytes)
    (owner : Credentials) (stamp : UInt64) :
    (r.isEmpty = false →
        ∀ reader out, r.Interchange (.push data owner stamp) (.pop reader out)) ∧
      ∀ cutoff ≤ stamp, r.Interchange (.push data owner stamp) (.sweep cutoff) := by
  have hw := h.wellFormed
  constructor
  · intro he reader out
    have h0 : 0 < r.count := by
      have hne : ¬ r.count = 0 := by rw [← hw.isEmpty_iff, he]; exact Bool.false_ne_true
      omega
    refine interchange_push hf (isFull_pop hw hf reader out) fun hd => ?_
    simp only [step, pop_store hw h0 hf hd]
  · intro cutoff hfresh
    refine interchange_push hf (isFull_sweepUpTo cutoff r.capacity hw hf) fun hd => ?_
    simp only [step, sweep_store hw hf hd owner hfresh]

/-- One slot is free, between a head that has gone around the end of the storage and the tail.
The pop takes the first of two messages, one sweep removes both, and in either order the new
message goes to the free slot. -/
theorem push_interchanges_around :
    ∃ r, Reachable ⟨3, 2⟩ r ∧ r.head = 0 ∧ r.tail = 1 ∧ r.count = 2 ∧ (r.sweep 35).1 = 2 ∧
      r.Interchange (.push [9, 9] ⟨7, 8⟩ 40) (.pop ⟨5, 6⟩ [0, 0, 0]) ∧
      r.Interchange (.push [9, 9] ⟨7, 8⟩ 40) (.sweep 35) := by
  have hreach : ∃ r, Reachable ⟨3, 2⟩ r ∧ r.head = 0 ∧ r.tail = 1 ∧ r.count = 2 ∧
      (r.sweep 35).1 = 2 ∧ r.isFull = false ∧ r.isEmpty = false :=
    ⟨_, ⟨.fresh ⟨3, 2⟩ 6, _, [.push [1] ⟨5, 6⟩ 10, .push [2, 3] ⟨5, 6⟩ 20, .push [] ⟨7, 8⟩ 30,
      .pop ⟨5, 6⟩ [0, 0]], rfl, rfl⟩, rfl, rfl, rfl, rfl, rfl, rfl⟩
  obtain ⟨r, hr, hhead, htail, hcount, hsweep, hf, he⟩ := hreach
  obtain ⟨hpop, hswept⟩ := hr.push_interchanges hf [9, 9] ⟨7, 8⟩ 40
  exact ⟨r, hr, hhead, htail, hcount, hsweep, hpop he _ _, hswept 35 (by decide)⟩

end MessagePipe.Ring
