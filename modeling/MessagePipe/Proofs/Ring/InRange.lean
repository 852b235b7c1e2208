import MessagePipe.Proofs.Ring.Occupancy
import MessagePipe.Ring.Guarded

/-!
# MessagePipe.Proofs.Ring.InRange

A ring that can come up never reads or writes past the end of its storage,
never needs a number that does not fit a word, and never finds one of its own
assumptions broken: each guarded operation has a result, which is that of the
plain operation.

Two facts carry this.  The ring is well-formed, so its cursors are slots and
its messages fit them; and its shape is one that a ring can have
(`Geometry.Admissible`), so every byte of its storage has a place below
`wordLimit`.  Together they are `Ring.Bounded`, which every operation keeps.

* `word?_eq`, `check_eq`, `record?_eq`, `next?_eq`, `range?_eq`, `anchored?_eq`
  — when a single precaution is satisfied;
* `push?_eq`, `pop?_eq`, `sweep?_eq`, `clear?_eq` — the operations, each from
  the precautions it takes;
* `Reachable.unfailing` — every operation of a ring that can come up.
-/

namespace MessagePipe

namespace Ring

variable {r : Ring} {g : Geometry}

/-! ## The invariant -/

/-- A well-formed ring of a shape that a ring can have. -/
structure Bounded (r : Ring) : Prop where
  wellFormed : r.WellFormed
  admissible : r.toGeometry.Admissible

namespace Bounded

theorem release (h : r.Bounded) (h0 : 0 < r.count) : r.release.Bounded :=
  ⟨h.wellFormed.release h0, h.admissible⟩

theorem step (h : r.Bounded) (op : Op) : (r.step op).2.Bounded :=
  ⟨h.wellFormed.step op, by rw [toGeometry_step]; exact h.admissible⟩

/-- A slot has a successor, and both can be told in a word. -/
theorem succ_lt (h : r.Bounded) {slot : Nat} (hs : slot < r.capacity) : slot + 1 < wordLimit := by
  have hc := h.admissible.capacity_lt
  omega

/-- The place of every byte of a slot can be told in a word. -/
theorem offset_add_lt (h : r.Bounded) {slot : Nat} (hs : slot < r.capacity) :
    r.offset slot + r.dataSize < wordLimit := by
  have hle := h.wellFormed.offset_add_le hs
  have hlt := h.admissible.payload_lt
  rw [h.wellFormed.length_base] at hle
  omega

end Bounded

theorem Reachable.bounded (h : Reachable g r) : r.Bounded := by
  refine ⟨h.wellFormed, ?_⟩
  rw [h.toGeometry]
  obtain ⟨s, first, ops, hinit, -⟩ := h
  exact (init_eq_ok_iff.mp hinit).1

/-! ## Single precautions -/

namespace Guarded

theorem word?_eq {n : Nat} (h : n < wordLimit) : word? n = some n := if_pos h

theorem check_eq {b : Bool} (h : b = true) : check b = some () := if_pos h

theorem record?_eq {slot : Nat} (h : r.WellFormed) (hs : slot < r.capacity) :
    record? r slot = some (r.recordAt slot) := by
  have hl : slot < r.records.length := by rw [h.length_records]; exact hs
  rw [record?, List.getElem?_eq_getElem hl, recordAt_eq_getElem hl]

theorem next?_eq {slot : Nat} (h : r.Bounded) (hs : slot < r.capacity) :
    next? r slot = some (r.next slot) := by
  have hc : r.capacity ≠ 0 := Nat.ne_of_gt h.wellFormed.capacity_pos
  rw [next?, word?_eq (h.succ_lt hs), check_eq (decide_eq_true hc)]
  rfl

theorem range?_eq {slot n : Nat} (h : r.Bounded) (hs : slot < r.capacity) (hn : n ≤ r.dataSize) :
    range? r slot n = some (r.offset slot) := by
  have hlt := h.offset_add_lt hs
  have hle := h.wellFormed.offset_add_le hs
  unfold offset at hlt hle ⊢
  rw [range?, word?_eq (by omega)]
  simp only [Option.bind_eq_bind, Option.bind_some]
  rw [word?_eq (by omega)]
  simp only [Option.bind_some]
  rw [check_eq (decide_eq_true (by omega))]
  rfl

theorem isEmpty?_eq (h : r.WellFormed) : isEmpty? r = some r.isEmpty := by
  rw [isEmpty?, record?_eq h h.tail_lt]
  rfl

theorem isFull?_eq (h : r.WellFormed) : isFull? r = some r.isFull := by
  rw [isFull?, record?_eq h h.head_lt]
  rfl

/-- What is made sure of after each operation holds of every well-formed ring. -/
theorem anchored?_eq (h : r.WellFormed) : anchored? r = some () := by
  have hanchored : (!r.isEmpty || decide (r.tail = r.head)) = true := by
    simpa [isEmpty] using h.anchored
  rw [anchored?, check_eq (decide_eq_true h.head_lt), check_eq (decide_eq_true h.tail_lt),
    isEmpty?_eq h]
  exact check_eq hanchored

/-- An operation that leaves a well-formed ring has its result. -/
theorem ensured {α : Type} (h : r.WellFormed) (result : α) :
    (do anchored? r; return result) = some result := by
  rw [anchored?_eq h]
  rfl

theorem state?_eq (h : r.WellFormed) : state? r = some r.state := by
  rw [state?, isFull?_eq h, isEmpty?_eq h]
  unfold state
  cases r.isFull
  · cases r.isEmpty <;> rfl
  · rfl

theorem peek?_eq (h : r.WellFormed) : peek? r = some r.peek := by
  rw [peek?, record?_eq h h.tail_lt]
  rfl

/-! ## The operations -/

theorem count?_eq (h : r.Bounded) : count? r = some r.count := by
  have hle := h.wellFormed.count_le
  unfold count at hle
  dsimp only [count?]
  rw [check_eq (decide_eq_true hle)]
  exact word?_eq (Nat.lt_of_le_of_lt hle h.admissible.capacity_lt)

theorem clear?_eq (h : r.Bounded) : clear? r = some r.clear := by
  rw [clear?, count?_eq h]
  rfl

theorem push?_eq (h : r.Bounded) (data : Bytes) (owner : Credentials) (stamp : UInt64) :
    push? r data owner stamp = some (r.push data owner stamp) := by
  have hw := h.wellFormed
  unfold push? push
  by_cases hlong : r.dataSize < data.length
  · rw [if_pos hlong, if_pos hlong]
    rfl
  rw [if_neg hlong, if_neg hlong, isFull?_eq hw]
  cases hfull : r.isFull with
  | true => rfl
  | false =>
      have hfit : data.length ≤ r.dataSize := Nat.not_lt.mp hlong
      have hfree : (!(r.recordAt r.head).valid) = true := congrArg not hfull
      have hlen := hw.toNat_ofNat_length hfit
      have hafter := hw.store hfull hfit owner stamp
      have hcast : (decide ((UInt16.ofNat data.length).toNat = data.length) &&
          decide ((UInt16.ofNat data.length).toNat ≤ r.dataSize)) = true := by
        rw [hlen, decide_eq_true rfl, decide_eq_true hfit]
        rfl
      simp only [record?_eq hw hw.head_lt, check_eq hfree, range?_eq h hw.head_lt (Nat.le_refl _),
        check_eq (decide_eq_true hfit), check_eq hcast, next?_eq h hw.head_lt,
        Option.bind_eq_bind, Option.bind_some, Bool.false_eq_true, if_false]
      exact ensured hafter _

theorem pop?_eq (h : r.Bounded) (reader : Credentials) (out : Bytes) :
    pop? r reader out = some (r.pop reader out) := by
  have hw := h.wellFormed
  unfold pop? pop
  rw [record?_eq hw hw.tail_lt]
  simp only [Option.bind_eq_bind, Option.bind_some]
  cases hv : (r.recordAt r.tail).valid with
  | false => rfl
  | true =>
  cases hr : (r.recordAt r.tail).readableBy reader with
  | false => rfl
  | true =>
      have hle := hw.len_le r.tail hv
      simp only [Bool.not_true, Bool.false_eq_true, if_false, check_eq (decide_eq_true hle),
        Option.bind_some]
      by_cases hshort : out.length < (r.recordAt r.tail).len.toNat
      · rw [if_pos hshort, if_pos hshort]
        rfl
      · have hroom : (r.recordAt r.tail).len.toNat ≤ out.length := Nat.not_lt.mp hshort
        have hafter := hw.release (hw.valid_tail_iff.mp hv)
        rw [if_neg hshort, if_neg hshort]
        simp only [range?_eq h hw.tail_lt hle, check_eq (decide_eq_true hroom),
          next?_eq h hw.tail_lt, Option.bind_some]
        exact ensured hafter _

/-- The loop counts on from what it has released so far, and never beyond its budget. -/
theorem sweepLoop?_eq (h : r.Bounded) {cutoff : UInt64} {budget removed : Nat}
    (hb : removed + budget < wordLimit) :
    sweepLoop? cutoff budget removed r =
      some (removed + (sweepUpTo cutoff budget r).1, (sweepUpTo cutoff budget r).2) := by
  induction budget generalizing removed r with
  | zero => rfl
  | succ budget ih =>
      have hw := h.wellFormed
      rw [sweepLoop?, sweepUpTo, record?_eq hw hw.tail_lt]
      simp only [Option.bind_eq_bind, Option.bind_some]
      cases he : (r.recordAt r.tail).isExpired cutoff with
      | false => rfl
      | true =>
          have hpos := hw.valid_tail_iff.mp (Record.isExpired_iff.mp he).1
          have hloop : sweepLoop? cutoff budget (removed + 1) r.release = _ :=
            ih (h.release hpos) (by omega)
          simp only [Bool.not_true, Bool.false_eq_true, if_false, if_true,
            next?_eq h hw.tail_lt, word?_eq (show removed + 1 < wordLimit by omega),
            Option.bind_some]
          rw [show removed + ((sweepUpTo cutoff budget r.release).1 + 1) =
            removed + 1 + (sweepUpTo cutoff budget r.release).1 by omega]
          exact hloop

theorem sweep?_eq (h : r.Bounded) (cutoff : UInt64) : sweep? r cutoff = some (r.sweep cutoff) := by
  have hc := h.admissible.capacity_lt
  rw [sweep?, sweepLoop?_eq h (by omega), Nat.zero_add]
  exact ensured (h.wellFormed.sweep cutoff) _

/-! ## Sequences of operations -/

theorem step?_eq (h : r.Bounded) (op : Op) : step? r op = some (r.step op) := by
  cases op with
  | push data owner stamp => rw [step?, push?_eq h]; rfl
  | pop reader out => rw [step?, pop?_eq h]; rfl
  | sweep cutoff => rw [step?, sweep?_eq h]; rfl
  | clear => rw [step?, clear?_eq h]; rfl

theorem run?_eq (h : r.Bounded) (ops : List Op) : run? r ops = some (r.run ops) := by
  induction ops generalizing r with
  | nil => rfl
  | cons op ops ih =>
      rw [run?, step?_eq h]
      simp only [Option.bind_eq_bind, Option.bind_some]
      rw [ih (h.step op)]
      rfl

/-- Every operation goes through with all its precautions, and does what the plain one does. -/
structure Unfailing (r : Ring) : Prop where
  push : ∀ data owner stamp, push? r data owner stamp = some (r.push data owner stamp)
  pop : ∀ reader out, pop? r reader out = some (r.pop reader out)
  sweep : ∀ cutoff, sweep? r cutoff = some (r.sweep cutoff)
  clear : clear? r = some r.clear
  count : count? r = some r.count
  isEmpty : isEmpty? r = some r.isEmpty
  isFull : isFull? r = some r.isFull
  state : state? r = some r.state
  peek : peek? r = some r.peek
  run : ∀ ops, run? r ops = some (r.run ops)

end Guarded

/-- **In range**: a ring that can come up has an admissible shape, and whatever is asked of it,
no access is out of range, no number needs more than a word, no length is cut short, and none of
the assumptions that its operations make is broken. -/
theorem Reachable.unfailing (h : Reachable g r) : g.Admissible ∧ Guarded.Unfailing r := by
  have hb := h.bounded
  have hw := hb.wellFormed
  refine ⟨h.toGeometry ▸ hb.admissible, ?_⟩
  exact {
    push := Guarded.push?_eq hb
    pop := Guarded.pop?_eq hb
    sweep := Guarded.sweep?_eq hb
    clear := Guarded.clear?_eq hb
    count := Guarded.count?_eq hb
    isEmpty := Guarded.isEmpty?_eq hw
    isFull := Guarded.isFull?_eq hw
    state := Guarded.state?_eq hw
    peek := Guarded.peek?_eq hw
    run := Guarded.run?_eq hb }

/-- A ring with as many slots as a word can count, after a push and a pop. -/
theorem unfailing_most_slots :
    ∃ first, (init ⟨18446744073709551615, 1⟩
        (.fresh ⟨18446744073709551615, 1⟩ 18446744073709551615)).1 = .ok first ∧
      Guarded.Unfailing (first.run [.push [7] ⟨5, 6⟩ 10, .pop ⟨5, 6⟩ [0]]).2 := by
  have hg : Geometry.Admissible ⟨18446744073709551615, 1⟩ :=
    ⟨by decide, by decide, by decide, by decide⟩
  have hinit := init_fresh hg
  simp only [Nat.mul_one] at hinit
  exact ⟨_, hinit, (Reachable.unfailing ⟨_, _, _, hinit, rfl⟩).2⟩

end Ring

end MessagePipe
