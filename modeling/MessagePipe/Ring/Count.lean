import MessagePipe.Ring.Basic

/-!
# MessagePipe.Ring.Count

What each operation does to the number of messages.  Nothing is assumed about
the ring: a slot is counted by its record's flag alone, so these statements
hold of any records whatever.

* `count_push_le` — a push adds at most one message;
* `count_pop_of_ok` — a successful pop takes exactly one;
* `count_sweep` — a sweep takes exactly as many as it reports.
-/

namespace MessagePipe.Ring

variable {r : Ring}

/-- A record that is valid is there. -/
theorem lt_of_valid {slot : Nat} (h : (r.recordAt slot).valid = true) : slot < r.records.length := by
  rcases Nat.lt_or_ge slot r.records.length with hl | hl
  · exact hl
  · rw [recordAt, List.getD_eq_getElem?_getD, List.getElem?_eq_none hl] at h
    simp [Record.empty] at h

theorem recordAt_eq_getElem {slot : Nat} (h : slot < r.records.length) :
    r.recordAt slot = r.records[slot] := by
  simp [recordAt, List.getD_eq_getElem?_getD, List.getElem?_eq_getElem h]

/-- Releasing a slot that holds a message takes one message. -/
theorem count_release (h : (r.recordAt r.tail).valid = true) : r.release.count + 1 = r.count := by
  have hl := lt_of_valid h
  have hv := h
  rw [recordAt_eq_getElem hl] at hv
  have hpos : 0 < r.records.countP (·.valid) :=
    List.countP_pos_iff.mpr ⟨_, List.getElem_mem hl, hv⟩
  simp only [count, release]
  rw [List.countP_set hl, hv]
  simp [Record.taken]
  omega

/-- Writing a slot adds at most one message. -/
theorem count_store_le (data : Bytes) (owner : Credentials) (stamp : UInt64) :
    (r.store data owner stamp).count ≤ r.count + 1 := by
  simp only [count, store]
  rcases Nat.lt_or_ge r.head r.records.length with hl | hl
  · rw [List.countP_set hl]; simp
  · rw [List.set_eq_of_length_le hl]; omega

theorem count_push_le (data : Bytes) (owner : Credentials) (stamp : UInt64) :
    (r.push data owner stamp).2.count ≤ r.count + 1 := by
  simp only [push]
  split
  · simp
  · split
    · simp
    · exact count_store_le data owner stamp

/-- A push that fails leaves the ring as it is. -/
theorem push_ring_of_error {data : Bytes} {owner : Credentials} {stamp : UInt64} {e : RingError}
    (h : (r.push data owner stamp).1 = .error e) : (r.push data owner stamp).2 = r := by
  simp only [push] at h ⊢
  split <;> rename_i h1
  · rfl
  · split <;> rename_i h2
    · rfl
    · simp [h1, h2] at h

/-- A pop that fails leaves the ring as it is. -/
theorem pop_ring_of_error {reader : Credentials} {out : Bytes} {e : RingError}
    (h : (r.pop reader out).1 = .error e) : (r.pop reader out).2.2 = r := by
  simp only [pop] at h ⊢
  split <;> rename_i h1
  · rfl
  · split <;> rename_i h2
    · rfl
    · split <;> rename_i h3
      · rfl
      · simp [h1, h2, h3] at h

theorem count_pop_of_ok {reader : Credentials} {out : Bytes} {n : Nat}
    (h : (r.pop reader out).1 = .ok n) : (r.pop reader out).2.2.count + 1 = r.count := by
  simp only [pop] at h ⊢
  split <;> rename_i h1
  · simp [h1] at h
  · split <;> rename_i h2
    · simp [h1, h2] at h
    · split <;> rename_i h3
      · simp [h1, h2, h3] at h
      · exact count_release (by simpa using h1)

theorem count_sweepUpTo (cutoff : UInt64) (budget : Nat) (r : Ring) :
    (sweepUpTo cutoff budget r).2.count + (sweepUpTo cutoff budget r).1 = r.count := by
  induction budget generalizing r with
  | zero => rfl
  | succ budget ih =>
    simp only [sweepUpTo]
    split <;> rename_i h
    · have hv := (Record.isExpired_iff.mp h).1
      have := ih r.release
      have := count_release hv
      simp only
      omega
    · rfl

theorem count_sweep (r : Ring) (cutoff : UInt64) :
    (r.sweep cutoff).2.count + (r.sweep cutoff).1 = r.count :=
  count_sweepUpTo cutoff r.capacity r

/-- A sweep that removes nothing leaves the ring as it is. -/
theorem sweepUpTo_of_zero {cutoff : UInt64} {budget : Nat} {r : Ring}
    (h : (sweepUpTo cutoff budget r).1 = 0) : (sweepUpTo cutoff budget r).2 = r := by
  cases budget with
  | zero => rfl
  | succ budget =>
    simp only [sweepUpTo] at h ⊢
    split
    · rename_i he; simp [he] at h
    · rfl

end MessagePipe.Ring
