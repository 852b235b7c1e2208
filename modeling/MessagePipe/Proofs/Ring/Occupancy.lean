import MessagePipe.Proofs.Ring.WellFormed

/-!
# MessagePipe.Proofs.Ring.Occupancy

Which slots of a ring hold a message.  A ring that can come up is well-formed,
and every slot lies somewhere on the circle that starts at `tail`
(`exists_slotFromTail`), so the occupied slots are one run that begins there
and ends before `head` (`OneRun`).  That is why the flag of a single record is
enough to tell a full ring from an empty one although `head` and `tail` meet
in both.
-/

namespace MessagePipe.Ring

variable {r : Ring} {g : Geometry}

/-- Every slot is some number of places after the tail. -/
theorem exists_slotFromTail (ht : r.tail < r.capacity) {slot : Nat} (hs : slot < r.capacity) :
    ∃ i < r.capacity, r.slotFromTail i = slot := by
  by_cases h : r.tail ≤ slot
  · refine ⟨slot - r.tail, by omega, ?_⟩
    rw [slotFromTail_eq ht (by omega), if_pos (by omega)]; omega
  · -- the slot lies before the tail, so the way there leads around the circle
    refine ⟨slot + r.capacity - r.tail, by omega, ?_⟩
    rw [slotFromTail_eq ht (by omega), if_neg (by omega)]; omega

namespace WellFormed

/-- A slot holds a message just if it is one of the first places from the tail on. -/
theorem valid_iff_exists (h : r.WellFormed) (slot : Nat) :
    (r.recordAt slot).valid = true ↔ ∃ i < r.count, slot = r.slotFromTail i := by
  have hc := h.count_le
  constructor
  · intro hv
    have hs : slot < r.capacity := h.length_records ▸ lt_of_valid hv
    obtain ⟨i, hi, rfl⟩ := exists_slotFromTail h.tail_lt hs
    exact ⟨i, (h.valid_iff i hi).mp hv, rfl⟩
  · rintro ⟨i, hi, rfl⟩
    exact (h.valid_iff i (by omega)).mpr hi

/-- The cursors meet only in a ring that is empty or full. -/
theorem count_of_head_eq_tail (h : r.WellFormed) (hm : r.head = r.tail) :
    r.count = 0 ∨ r.count = r.capacity := by
  rcases Nat.eq_zero_or_pos r.count with h0 | h0
  · exact .inl h0
  · rcases Nat.lt_or_ge r.count r.capacity with hlt | hge
    · exact absurd hm (h.head_ne_tail h0 hlt)
    · exact .inr (Nat.le_antisymm h.count_le hge)

/-- The oldest message is at the tail, unless there is none and the cursors meet. -/
theorem anchored (h : r.WellFormed) : (r.recordAt r.tail).valid = true ∨ r.tail = r.head := by
  rcases Nat.eq_zero_or_pos r.count with h0 | h0
  · right
    rw [h.head_eq, h0, slotFromTail_zero h.tail_lt]
  · exact .inl (h.valid_tail_iff.mpr h0)

end WellFormed

/-- The messages of a ring of a given geometry occupy one run of slots, from the tail on around
the circle. -/
structure OneRun (g : Geometry) (r : Ring) : Prop where
  /-- There is a record for each slot of the geometry. -/
  records : r.toGeometry = g ∧ r.records.length = g.capacity
  count_le : r.count ≤ g.capacity
  head_lt : r.head < g.capacity
  tail_lt : r.tail < g.capacity
  /-- The slots with a message are the first ones from the tail on, as many as there are
  messages. -/
  occupied : ∀ slot, (r.recordAt slot).valid = true ↔
    ∃ i < r.count, slot = (r.tail + i) % g.capacity
  /-- The next message goes to the slot after the run. -/
  head_eq : r.head = (r.tail + r.count) % g.capacity
  /-- Each message fits its slot. -/
  len_le : ∀ slot, (r.recordAt slot).valid = true → (r.recordAt slot).len.toNat ≤ g.dataSize
  /-- The cursors meet only in a ring that is empty or full. -/
  meet : r.head = r.tail → r.count = 0 ∨ r.count = g.capacity
  /-- One look at the head tells whether the ring is full. -/
  full : (r.recordAt r.head).valid = true ↔ r.count = g.capacity
  /-- One look at the tail tells whether there is a message. -/
  nonempty : (r.recordAt r.tail).valid = true ↔ 0 < r.count
  anchored : (r.recordAt r.tail).valid = true ∨ r.tail = r.head

theorem Reachable.toGeometry (h : Reachable g r) : r.toGeometry = g := by
  obtain ⟨s, first, ops, hinit, rfl⟩ := h
  rw [toGeometry_run, (init_eq_ok hinit).1]
  rfl

theorem Reachable.wellFormed (h : Reachable g r) : r.WellFormed := by
  obtain ⟨s, first, ops, hinit, rfl⟩ := h
  exact (wellFormed_init hinit).run ops

/-- **One run**: whatever operations led to a ring, and whether they succeeded or failed, its
messages occupy one run of slots that starts at `tail` and ends before `head`. -/
theorem Reachable.oneRun (h : Reachable g r) : r.OneRun g := by
  have hw := h.wellFormed
  obtain rfl := h.toGeometry
  exact
    { records := ⟨rfl, hw.length_records⟩
      count_le := hw.count_le
      head_lt := hw.head_lt
      tail_lt := hw.tail_lt
      occupied := hw.valid_iff_exists
      head_eq := hw.head_eq
      len_le := hw.len_le
      meet := hw.count_of_head_eq_tail
      full := hw.valid_head_iff
      nonempty := hw.valid_tail_iff
      anchored := hw.anchored }

/-- A ring that was filled, swept in part and filled again: the run goes around the end of the
storage, and `head` and `tail` meet in the middle. -/
theorem oneRun_around :
    ∃ r, Reachable ⟨3, 2⟩ r ∧ r.head = 1 ∧ r.tail = 1 ∧ r.count = 3 ∧ r.OneRun ⟨3, 2⟩ := by
  let ops : List Op :=
    [.push [1] ⟨5, 6⟩ 10, .push [2, 3] ⟨5, 6⟩ 20, .push [] ⟨7, 8⟩ 30, .push [9] ⟨5, 6⟩ 40,
      .sweep 15, .pop ⟨1, 1⟩ [0, 0], .push [4] ⟨7, 8⟩ 50]
  have hr : Reachable ⟨3, 2⟩ ((wiped ⟨3, 2⟩ (.fresh ⟨3, 2⟩ 6)).run ops).2 :=
    ⟨.fresh ⟨3, 2⟩ 6, _, ops, rfl, rfl⟩
  exact ⟨_, hr, rfl, rfl, rfl, hr.oneRun⟩

end MessagePipe.Ring
