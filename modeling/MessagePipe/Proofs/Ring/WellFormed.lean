import MessagePipe.Proofs.Ring.Setup
import MessagePipe.Queue
import MessagePipe.Ring.Count

/-!
# MessagePipe.Proofs.Ring.WellFormed

The invariant of a ring.  No count is kept in a ring, so what `head`, `tail`
and the flags of the records say about each other has to be an invariant: the
messages occupy one run of slots that starts at `tail`, goes around the circle,
and ends before `head` (`WellFormed`).

* `isEmpty_iff` / `isFull_iff` — the flag at one cursor tells whether the ring
  is empty, or full;
* `wellFormed_init` — a ring that was just set up is well-formed and empty;
* `WellFormed.step` / `WellFormed.run` — every operation keeps the invariant.
-/

namespace MessagePipe.Ring

/-- What holds of every ring that can come up. -/
structure WellFormed (r : Ring) : Prop where
  capacity_pos : 0 < r.capacity
  dataSize_le : r.dataSize ≤ maxDataSize
  length_base : r.base.length = r.capacity * r.dataSize
  length_records : r.records.length = r.capacity
  tail_lt : r.tail < r.capacity
  /-- The run of messages ends where the next one goes. -/
  head_eq : r.head = r.slotFromTail r.count
  /-- The messages are in the first slots from the tail on, and nowhere else. -/
  valid_iff : ∀ i < r.capacity, (r.recordAt (r.slotFromTail i)).valid = true ↔ i < r.count
  /-- Each message fits its slot. -/
  len_le : ∀ slot, (r.recordAt slot).valid = true → (r.recordAt slot).len.toNat ≤ r.dataSize

/-! ## Slots around the circle -/

variable {r : Ring}

/-- One turn around the circle needs no division. -/
theorem slotFromTail_eq {i : Nat} (ht : r.tail < r.capacity) (hi : i ≤ r.capacity) :
    r.slotFromTail i =
      if r.tail + i < r.capacity then r.tail + i else r.tail + i - r.capacity := by
  unfold slotFromTail
  split
  · next h => exact Nat.mod_eq_of_lt h
  · next h =>
      rw [Nat.mod_eq_sub_mod (by omega), Nat.mod_eq_of_lt (by omega)]

theorem slotFromTail_lt {i : Nat} (ht : r.tail < r.capacity) : r.slotFromTail i < r.capacity :=
  Nat.mod_lt _ (by omega)

theorem slotFromTail_zero (ht : r.tail < r.capacity) : r.slotFromTail 0 = r.tail := by
  rw [slotFromTail_eq ht (Nat.zero_le _), Nat.add_zero, if_pos ht]

/-- A whole turn leads back to the tail. -/
theorem slotFromTail_capacity (ht : r.tail < r.capacity) :
    r.slotFromTail r.capacity = r.tail := by
  rw [slotFromTail_eq ht (Nat.le_refl _), if_neg (by omega)]; omega

/-- Different places in the run are different slots. -/
theorem slotFromTail_inj {i j : Nat} (ht : r.tail < r.capacity) (hi : i < r.capacity)
    (hj : j < r.capacity) : r.slotFromTail i = r.slotFromTail j ↔ i = j := by
  rw [slotFromTail_eq ht (by omega), slotFromTail_eq ht (by omega)]
  split <;> split <;> omega

/-- Only the first place in the run is the tail. -/
theorem slotFromTail_ne_tail {i : Nat} (ht : r.tail < r.capacity) (h0 : 0 < i)
    (hi : i < r.capacity) : r.slotFromTail i ≠ r.tail := by
  intro he
  rw [← slotFromTail_zero ht, slotFromTail_inj ht hi (by omega)] at he
  omega

theorem next_slotFromTail {i : Nat} : r.next (r.slotFromTail i) = r.slotFromTail (i + 1) := by
  simp only [next, slotFromTail, Nat.mod_add_mod, Nat.add_assoc]

/-- Seen from the slot after the tail, every place moves up by one. -/
theorem slotFromTail_release {i : Nat} : r.release.slotFromTail i = r.slotFromTail (i + 1) := by
  simp only [slotFromTail, release, next, Nat.mod_add_mod]
  congr 1; omega

/-! ## Records after a change -/

theorem recordAt_set_self {slot : Nat} {record : Record} (h : slot < r.records.length) :
    (r.records.set slot record).getD slot .empty = record := by
  simp [List.getD_eq_getElem?_getD, List.getElem?_set_self h]

theorem recordAt_set_ne {slot other : Nat} {record : Record} (h : slot ≠ other) :
    (r.records.set slot record).getD other .empty = r.recordAt other := by
  simp [recordAt, List.getD_eq_getElem?_getD, List.getElem?_set_ne h]

theorem recordAt_store_ne {data : Bytes} {owner : Credentials} {stamp : UInt64} {slot : Nat}
    (h : r.head ≠ slot) : (r.store data owner stamp).recordAt slot = r.recordAt slot :=
  recordAt_set_ne h

/-- The flag at `tail` is lowered, and a slot that is not there reads the same as before. -/
theorem recordAt_release_self : r.release.recordAt r.tail = (r.recordAt r.tail).taken := by
  cases Nat.lt_or_ge r.tail r.records.length with
  | inl hl => exact recordAt_set_self hl
  | inr hl => simp [recordAt, release, List.getD_eq_getElem?_getD, hl, Record.taken, Record.empty]

theorem recordAt_release_ne {slot : Nat} (h : r.tail ≠ slot) :
    r.release.recordAt slot = r.recordAt slot :=
  recordAt_set_ne h

namespace WellFormed

/-! ## Reading the invariant -/

theorem count_le (h : r.WellFormed) : r.count ≤ r.capacity := by
  rw [← h.length_records]; exact List.countP_le_length

theorem head_lt (h : r.WellFormed) : r.head < r.capacity := by
  rw [h.head_eq]; exact slotFromTail_lt h.tail_lt

/-- The slot at `tail` holds a message unless there is none. -/
theorem valid_tail_iff (h : r.WellFormed) :
    (r.recordAt r.tail).valid = true ↔ 0 < r.count := by
  have hv := h.valid_iff 0 h.capacity_pos
  rwa [slotFromTail_zero h.tail_lt] at hv

/-- The slot at `head` holds a message only if all do. -/
theorem valid_head_iff (h : r.WellFormed) :
    (r.recordAt r.head).valid = true ↔ r.count = r.capacity := by
  have hc := h.count_le
  rw [h.head_eq]
  cases Nat.lt_or_ge r.count r.capacity with
  | inl hlt =>
      rw [h.valid_iff _ hlt]; omega
  | inr hge =>
      have he : r.count = r.capacity := Nat.le_antisymm hc hge
      have hp := h.capacity_pos
      rw [he, slotFromTail_capacity h.tail_lt, h.valid_tail_iff]; omega

theorem isEmpty_iff (h : r.WellFormed) : r.isEmpty = true ↔ r.count = 0 := by
  have hv := h.valid_tail_iff
  cases hb : (r.recordAt r.tail).valid
  · simp only [hb, Bool.false_eq_true, false_iff] at hv
    simp only [isEmpty, hb, Bool.not_false, true_iff]; omega
  · simp only [hb, true_iff] at hv
    simp only [isEmpty, hb, Bool.not_true, Bool.false_eq_true, false_iff]; omega

theorem isFull_iff (h : r.WellFormed) : r.isFull = true ↔ r.count = r.capacity := h.valid_head_iff

/-- The slots lie in the payload region. -/
theorem offset_add_le (h : r.WellFormed) {slot : Nat} (hs : slot < r.capacity) :
    r.offset slot + r.dataSize ≤ r.base.length := by
  rw [h.length_base, offset, ← Nat.succ_mul]
  exact Nat.mul_le_mul_right _ hs

/-- The length of a message that fits a slot fits a record. -/
theorem toNat_ofNat_length (h : r.WellFormed) {data : Bytes} (hd : data.length ≤ r.dataSize) :
    (UInt16.ofNat data.length).toNat = data.length := by
  have hm := h.dataSize_le
  unfold maxDataSize at hm
  rw [UInt16.toNat_ofNat', Nat.mod_eq_of_lt (by omega)]

/-- A ring that is not full has a free slot. -/
theorem count_lt (h : r.WellFormed) (hf : r.isFull = false) : r.count < r.capacity := by
  have hle := h.count_le
  have hne : ¬ r.count = r.capacity := by rw [← h.isFull_iff, hf]; exact Bool.false_ne_true
  omega

/-- While the ring is neither empty nor full the cursors are apart. -/
theorem head_ne_tail (h : r.WellFormed) (h0 : 0 < r.count) (h1 : r.count < r.capacity) :
    r.head ≠ r.tail := by
  rw [h.head_eq]; exact slotFromTail_ne_tail h.tail_lt h0 h1

end WellFormed

/-! ## Keeping the invariant -/

/-- The record that a write leaves at `head`. -/
theorem recordAt_store_self (h : r.WellFormed) (data : Bytes) (owner : Credentials)
    (stamp : UInt64) :
    (r.store data owner stamp).recordAt r.head =
      ⟨stamp, owner, UInt16.ofNat data.length, true⟩ :=
  recordAt_set_self (by rw [h.length_records]; exact h.head_lt)

/-- Writing into a slot that is free adds exactly one message. -/
theorem count_store (h : r.WellFormed) (hf : r.isFull = false) (data : Bytes) (owner : Credentials)
    (stamp : UInt64) : (r.store data owner stamp).count = r.count + 1 := by
  have hl : r.head < r.records.length := by rw [h.length_records]; exact h.head_lt
  have hv : (r.records[r.head]).valid = false := by
    rw [← recordAt_eq_getElem hl]; exact hf
  simp only [count, store]
  rw [List.countP_set hl, hv]
  simp

theorem WellFormed.store (h : r.WellFormed) (hf : r.isFull = false) {data : Bytes}
    (hd : data.length ≤ r.dataSize) (owner : Credentials) (stamp : UInt64) :
    (r.store data owner stamp).WellFormed := by
  have hc := h.count_lt hf
  have hcount := count_store h hf data owner stamp
  have hself := recordAt_store_self h data owner stamp
  refine ⟨h.capacity_pos, h.dataSize_le, ?_, ?_, h.tail_lt, ?_, ?_, ?_⟩
  · have hr := h.offset_add_le h.head_lt
    rw [← Bytes.length_append_zeros hd] at hr
    exact (Bytes.length_patch hr).trans h.length_base
  · simp only [Ring.store, List.length_set]; exact h.length_records
  · rw [hcount]
    show r.next r.head = r.slotFromTail (r.count + 1)
    rw [h.head_eq, next_slotFromTail]
  · intro i hi
    show ((r.store data owner stamp).recordAt (r.slotFromTail i)).valid = true ↔ _
    rw [hcount]
    by_cases he : i = r.count
    · subst he
      rw [← h.head_eq, hself]; simp
    · have hne : r.head ≠ r.slotFromTail i := by
        rw [h.head_eq, Ne, slotFromTail_inj h.tail_lt hc hi]; omega
      rw [recordAt_store_ne hne, h.valid_iff i hi]; omega
  · intro slot hv
    by_cases he : r.head = slot
    · subst he
      rw [hself]
      show (UInt16.ofNat data.length).toNat ≤ r.dataSize
      rw [h.toNat_ofNat_length hd]
      exact hd
    · rw [recordAt_store_ne he] at hv ⊢
      exact h.len_le slot hv

theorem WellFormed.release (h : r.WellFormed) (h0 : 0 < r.count) : r.release.WellFormed := by
  have hv := h.valid_tail_iff.mpr h0
  have hcount := count_release hv
  have hc := h.count_le
  refine ⟨h.capacity_pos, h.dataSize_le, h.length_base, ?_, Nat.mod_lt _ h.capacity_pos, ?_, ?_, ?_⟩
  · simp only [Ring.release, List.length_set]; exact h.length_records
  · rw [slotFromTail_release, hcount]; exact h.head_eq
  · intro i hi
    have hi : i < r.capacity := hi
    rw [slotFromTail_release]
    by_cases he : i + 1 = r.capacity
    · rw [he, slotFromTail_capacity h.tail_lt, recordAt_release_self]
      simp only [Record.taken, Bool.false_eq_true, false_iff]; omega
    · have hi' : i + 1 < r.capacity := by omega
      have hne := slotFromTail_ne_tail h.tail_lt (Nat.succ_pos i) hi'
      rw [recordAt_release_ne hne.symm, h.valid_iff _ hi']; omega
  · intro slot hs
    by_cases he : r.tail = slot
    · subst he
      rw [recordAt_release_self] at hs
      simp [Record.taken] at hs
    · rw [recordAt_release_ne he] at hs ⊢
      exact h.len_le slot hs

/-! ## Setting up and wiping -/

theorem count_wiped (g : Geometry) (s : Storage) : (wiped g s).count = 0 := by
  simp [count, wiped, Storage.cleared, List.countP_replicate, Record.empty]

theorem valid_wiped (g : Geometry) (s : Storage) (slot : Nat) :
    ((wiped g s).recordAt slot).valid = false := by
  simp only [recordAt, wiped, Storage.cleared, List.getD_eq_getElem?_getD, List.getElem?_replicate]
  split <;> rfl

theorem wellFormed_wiped {g : Geometry} {s : Storage} (hc : 0 < g.capacity)
    (hd : g.dataSize ≤ maxDataSize) (hb : s.base.length = g.capacity * g.dataSize)
    (hr : s.records.length = g.capacity) : (wiped g s).WellFormed := by
  refine ⟨hc, hd, ?_, ?_, hc, ?_, ?_, ?_⟩
  · exact (Bytes.length_zeros _).trans hb
  · exact List.length_replicate.trans hr
  · rw [count_wiped, slotFromTail_zero hc]; rfl
  · intro i _
    rw [valid_wiped, count_wiped]; simp
  · intro slot hv
    rw [valid_wiped] at hv
    simp at hv

/-- A ring is set up only over storage of the size that an acceptable geometry asks for. -/
theorem init_eq_ok {g : Geometry} {s : Storage} (h : (init g s).1 = .ok r) :
    r = wiped g s ∧ 0 < g.capacity ∧ g.dataSize ≤ maxDataSize ∧
      s.base.length = g.capacity * g.dataSize ∧ s.records.length = g.capacity := by
  obtain ⟨hg, hb, hr, hw⟩ := init_eq_ok_iff.mp h
  exact ⟨hw, hg.capacity_pos, hg.dataSize_le, hb, hr⟩

theorem wellFormed_init {g : Geometry} {s : Storage} (h : (init g s).1 = .ok r) : r.WellFormed := by
  obtain ⟨rfl, hc, hd, hb, hr⟩ := init_eq_ok h
  exact wellFormed_wiped hc hd hb hr

/-! ## The operations -/

namespace WellFormed

theorem push (h : r.WellFormed) (data : Bytes) (owner : Credentials) (stamp : UInt64) :
    (r.push data owner stamp).2.WellFormed := by
  unfold Ring.push
  split
  · exact h
  · next hd =>
      split
      · exact h
      · next hf => exact h.store (by simpa using hf) (by omega) owner stamp

theorem pop (h : r.WellFormed) (reader : Credentials) (out : Bytes) :
    (r.pop reader out).2.2.WellFormed := by
  unfold Ring.pop
  dsimp only
  split
  · exact h
  · next hv =>
      split
      · exact h
      · split
        · exact h
        · exact h.release (h.valid_tail_iff.mp (by simpa using hv))

theorem sweepUpTo (cutoff : UInt64) (budget : Nat) (h : r.WellFormed) :
    (Ring.sweepUpTo cutoff budget r).2.WellFormed := by
  induction budget generalizing r with
  | zero => exact h
  | succ budget ih =>
      unfold Ring.sweepUpTo
      split
      · next he => exact ih (h.release (h.valid_tail_iff.mp (Record.isExpired_iff.mp he).1))
      · exact h

theorem sweep (h : r.WellFormed) (cutoff : UInt64) : (r.sweep cutoff).2.WellFormed :=
  h.sweepUpTo cutoff r.capacity

theorem clear (h : r.WellFormed) : r.clear.2.WellFormed :=
  wellFormed_wiped h.capacity_pos h.dataSize_le h.length_base h.length_records

/-- Every operation keeps the invariant. -/
theorem step (h : r.WellFormed) (op : Op) : (r.step op).2.WellFormed := by
  cases op with
  | push data owner stamp => exact h.push data owner stamp
  | pop reader out => exact h.pop reader out
  | sweep cutoff => exact h.sweep cutoff
  | clear => exact h.clear

/-- So does every sequence of operations. -/
theorem run (h : r.WellFormed) (ops : List Op) : (r.run ops).2.WellFormed := by
  induction ops generalizing r with
  | nil => exact h
  | cons op ops ih => exact ih (h.step op)

end WellFormed

/-! ## What no operation changes -/

theorem toGeometry_sweepUpTo (cutoff : UInt64) (budget : Nat) :
    (sweepUpTo cutoff budget r).2.toGeometry = r.toGeometry := by
  induction budget generalizing r with
  | zero => rfl
  | succ budget ih =>
      unfold sweepUpTo
      split
      · exact ih
      · rfl

theorem toGeometry_step (r : Ring) (op : Op) : (r.step op).2.toGeometry = r.toGeometry := by
  cases op with
  | push data owner stamp =>
      simp only [step, push]
      split
      · rfl
      · split <;> rfl
  | pop reader out =>
      simp only [step, pop]
      split
      · rfl
      · split
        · rfl
        · split <;> rfl
  | sweep cutoff => exact toGeometry_sweepUpTo cutoff r.capacity
  | clear => rfl

/-- A ring keeps its shape. -/
theorem toGeometry_run (r : Ring) (ops : List Op) : (r.run ops).2.toGeometry = r.toGeometry := by
  induction ops generalizing r with
  | nil => rfl
  | cons op ops ih => exact (ih (r.step op).2).trans (toGeometry_step r op)

end MessagePipe.Ring
