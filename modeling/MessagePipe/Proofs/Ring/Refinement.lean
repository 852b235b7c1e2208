import MessagePipe.Proofs.Ring.WellFormed

/-!
# MessagePipe.Proofs.Ring.Refinement

A ring behaves like a bounded queue.  `Ring.toQueue` reads the messages off the
slots from `tail` on; seen through it, writing a slot appends a message
(`messages_store`) and releasing one drops the first message
(`messages_release`).  From these two each operation of a well-formed ring is
the operation of the queue of the same name, with the same reply
(`toQueue_push`, `toQueue_pop`, `toQueue_sweep`, `toQueue_clear`), and so is
every sequence of them (`toQueue_run`).
-/

namespace MessagePipe.Ring

variable {r : Ring}

/-! ## Bytes in slots -/

/-- All bytes of a slot, whether they belong to a message or not. -/
def bytesAt (r : Ring) (slot : Nat) : Bytes := r.base.slice (r.offset slot) r.dataSize

/-- The bytes of a slot lie before those of a later slot. -/
theorem offset_le_offset {slot other : Nat} (h : slot < other) :
    r.offset slot + r.dataSize ≤ r.offset other := by
  rw [offset, offset, ← Nat.succ_mul]
  exact Nat.mul_le_mul_right _ h

/-- A slot stays as it is while another one is written. -/
theorem bytesAt_store_ne {data : Bytes} {slot : Nat} (h : r.WellFormed)
    (hd : data.length ≤ r.dataSize) (owner : Credentials) (stamp : UInt64) (hs : r.head ≠ slot) :
    (r.store data owner stamp).bytesAt slot = r.bytesAt slot := by
  have hb := h.offset_add_le h.head_lt
  cases Nat.lt_or_gt_of_ne hs with
  | inl hlt =>
      have ho := @offset_le_offset r _ _ hlt
      rw [← Bytes.length_append_zeros hd] at ho
      exact Bytes.slice_patch_after ho (by omega)
  | inr hgt =>
      have ho := @offset_le_offset r _ _ hgt
      exact Bytes.slice_patch_before ho (by omega)

/-- The slot that was written holds what was written, and zeros behind it. -/
theorem bytesAt_store_self {data : Bytes} (h : r.WellFormed) (hd : data.length ≤ r.dataSize)
    (owner : Credentials) (stamp : UInt64) :
    (r.store data owner stamp).bytesAt r.head =
      data ++ Bytes.zeros (r.dataSize - data.length) := by
  have hb := h.offset_add_le h.head_lt
  have hread := @Bytes.slice_patch_self r.base
    (data ++ Bytes.zeros (r.dataSize - data.length)) (r.offset r.head) (by omega)
  rwa [Bytes.length_append_zeros hd] at hread

/-! ## Messages in slots -/

/-- The payload of a message are the first bytes of its slot. -/
theorem messageAt_eq {slot : Nat} (h : (r.recordAt slot).len.toNat ≤ r.dataSize) :
    r.messageAt slot = ⟨(r.bytesAt slot).take (r.recordAt slot).len.toNat,
      (r.recordAt slot).owner, (r.recordAt slot).stamp⟩ := by
  unfold messageAt bytesAt Bytes.slice
  rw [List.take_take, Nat.min_eq_left h]

/-- A message stays as it is while another slot is written. -/
theorem messageAt_store_ne {data : Bytes} {slot : Nat} (h : r.WellFormed)
    (hd : data.length ≤ r.dataSize) (owner : Credentials) (stamp : UInt64) (hs : r.head ≠ slot)
    (hv : (r.recordAt slot).valid = true) :
    (r.store data owner stamp).messageAt slot = r.messageAt slot := by
  have hlen := h.len_le slot hv
  have hrecord := @recordAt_store_ne r data owner stamp slot hs
  rw [messageAt_eq hlen, messageAt_eq (by rw [hrecord]; exact hlen), hrecord,
    bytesAt_store_ne h hd owner stamp hs]

/-- The message that was written is found in its slot. -/
theorem messageAt_store_self {data : Bytes} (h : r.WellFormed) (hd : data.length ≤ r.dataSize)
    (owner : Credentials) (stamp : UInt64) :
    (r.store data owner stamp).messageAt r.head = ⟨data, owner, stamp⟩ := by
  have hrecord := recordAt_store_self h data owner stamp
  have hlen := h.toNat_ofNat_length hd
  rw [messageAt_eq (by rw [hrecord, hlen]; exact hd), hrecord, hlen,
    bytesAt_store_self h hd owner stamp, List.take_left]

theorem messageAt_release_ne {slot : Nat} (h : r.tail ≠ slot) :
    r.release.messageAt slot = r.messageAt slot := by
  unfold messageAt
  rw [recordAt_release_ne h]
  rfl

/-! ## The queue of a ring -/

/-- Writing the free slot at `head` appends a message. -/
theorem messages_store {data : Bytes} (h : r.WellFormed) (hf : r.isFull = false)
    (hd : data.length ≤ r.dataSize) (owner : Credentials) (stamp : UInt64) :
    (r.store data owner stamp).toQueue.messages =
      r.toQueue.messages ++ [⟨data, owner, stamp⟩] := by
  have hc := h.count_lt hf
  simp only [toQueue, count_store h hf, List.range_succ, List.map_append, List.map_cons,
    List.map_nil]
  congr 1
  · refine List.map_congr_left fun i hi => ?_
    have hi : i < r.count := List.mem_range.mp hi
    have hne : r.head ≠ r.slotFromTail i := by
      rw [h.head_eq, Ne, slotFromTail_inj h.tail_lt hc (by omega)]; omega
    exact messageAt_store_ne h hd owner stamp hne ((h.valid_iff i (by omega)).mpr hi)
  · have hs : (r.store data owner stamp).slotFromTail r.count = r.head := h.head_eq.symm
    rw [hs, messageAt_store_self h hd]

/-- Releasing the slot at `tail` drops the first message. -/
theorem messages_release (h : r.WellFormed) (h0 : 0 < r.count) :
    r.toQueue.messages = r.messageAt r.tail :: r.release.toQueue.messages := by
  have hcount := count_release (h.valid_tail_iff.mpr h0)
  have hc := h.count_le
  simp only [toQueue]
  rw [← hcount, List.range_succ_eq_map, List.map_cons, List.map_map, slotFromTail_zero h.tail_lt]
  congr 1
  refine List.map_congr_left fun i hi => ?_
  have hi : i < r.release.count := List.mem_range.mp hi
  have hne := slotFromTail_ne_tail h.tail_lt (Nat.succ_pos i) (by omega)
  rw [slotFromTail_release, messageAt_release_ne hne.symm]
  rfl

theorem length_messages : r.toQueue.messages.length = r.count := by
  simp [toQueue]

theorem messages_eq_nil_iff : r.toQueue.messages = [] ↔ r.count = 0 := by
  rw [← length_messages, List.length_eq_zero_iff]

/-! ## The operations -/

theorem toQueue_push (h : r.WellFormed) (data : Bytes) (owner : Credentials) (stamp : UInt64) :
    r.toQueue.push data owner stamp =
      ((r.push data owner stamp).1, (r.push data owner stamp).2.toQueue) := by
  unfold Queue.push Ring.push
  by_cases hd : r.dataSize < data.length
  · rw [if_pos hd, if_pos (show r.toQueue.geometry.dataSize < data.length from hd)]
    rfl
  · rw [if_neg hd, if_neg (show ¬ r.toQueue.geometry.dataSize < data.length from hd),
      length_messages]
    cases hf : r.isFull
    · have hlt : ¬ r.toQueue.geometry.capacity ≤ r.count := Nat.not_le.mpr (h.count_lt hf)
      rw [if_neg hlt, ← messages_store h hf (by omega)]
      rfl
    · have he := h.isFull_iff.mp hf
      rw [if_pos (show r.toQueue.geometry.capacity ≤ r.count from Nat.le_of_eq he.symm)]
      rfl

/-- The message at `tail`, as its record tells it. -/
theorem length_payload (h : r.WellFormed) (h0 : 0 < r.count) :
    (r.messageAt r.tail).payload.length = (r.recordAt r.tail).len.toNat := by
  have hlen := h.len_le r.tail (h.valid_tail_iff.mpr h0)
  have hr := h.offset_add_le h.tail_lt
  exact Bytes.length_slice (by omega)

/-- What a pop does is told by the message at `tail`. -/
theorem pop_of_pos (h : r.WellFormed) (h0 : 0 < r.count) (reader : Credentials) (out : Bytes) :
    let m := r.messageAt r.tail
    r.pop reader out =
      if !reader.mayRead m.owner then (.error .accessDenied, out, r)
      else if out.length < m.payload.length then (.error (.invalidArgument .shortBuffer), out, r)
      else (.ok m.payload.length, m.payload ++ out.drop m.payload.length, r.release) := by
  dsimp only
  have hlen := length_payload h h0
  have hpatch : out.patch 0 (r.base.slice (r.offset r.tail) (r.recordAt r.tail).len.toNat) =
      (r.messageAt r.tail).payload ++ out.drop (r.messageAt r.tail).payload.length :=
    Bytes.patch_zero out (r.messageAt r.tail).payload
  unfold Ring.pop
  dsimp only
  rw [h.valid_tail_iff.mpr h0, hpatch, hlen]
  rfl

/-- Nothing can be popped from an empty ring. -/
theorem pop_of_zero (h : r.WellFormed) (h0 : r.count = 0) (reader : Credentials) (out : Bytes) :
    r.pop reader out = (.error .noData, out, r) := by
  have hv : r.isEmpty = true := h.isEmpty_iff.mpr h0
  unfold Ring.pop
  dsimp only
  rw [if_pos (show (!(r.recordAt r.tail).valid) = true from hv)]

theorem toQueue_pop (h : r.WellFormed) (reader : Credentials) (out : Bytes) :
    r.toQueue.pop reader out =
      ((r.pop reader out).1, (r.pop reader out).2.1, (r.pop reader out).2.2.toQueue) := by
  unfold Queue.pop
  cases Nat.eq_zero_or_pos r.count with
  | inl h0 =>
      rw [messages_eq_nil_iff.mpr h0, pop_of_zero h h0]
  | inr h0 =>
      rw [messages_release h h0, pop_of_pos h h0]
      dsimp only
      split
      · rfl
      · split <;> rfl

/-- A sweep with budget enough is held back by nothing. -/
theorem toQueue_sweepUpTo (cutoff : UInt64) (budget : Nat) (h : r.WellFormed)
    (hb : r.count ≤ budget) :
    r.toQueue.sweep cutoff =
      ((sweepUpTo cutoff budget r).1, (sweepUpTo cutoff budget r).2.toQueue) := by
  induction budget generalizing r with
  | zero =>
      have hn : r.toQueue.messages = [] := messages_eq_nil_iff.mpr (by omega)
      simp only [Queue.sweep, hn, sweepUpTo, List.takeWhile_nil, List.dropWhile_nil,
        List.length_nil]
      rw [← hn]
  | succ budget ih =>
      unfold sweepUpTo
      split
      · next he =>
          have hv := Record.isExpired_iff.mp he
          have h0 := h.valid_tail_iff.mp hv.1
          have hcount := count_release hv.1
          have hm : Queue.expired cutoff (r.messageAt r.tail) = true := decide_eq_true hv.2
          have hrest := ih (h.release h0) (by omega)
          simp only [Queue.sweep] at hrest ⊢
          rw [messages_release h h0, List.takeWhile_cons_of_pos hm, List.dropWhile_cons_of_pos hm,
            List.length_cons]
          rw [Prod.mk.injEq] at hrest ⊢
          exact ⟨congrArg (· + 1) hrest.1, hrest.2⟩
      · next he =>
          cases Nat.eq_zero_or_pos r.count with
          | inl h0 =>
              have hn : r.toQueue.messages = [] := messages_eq_nil_iff.mpr h0
              simp only [Queue.sweep, hn, List.takeWhile_nil, List.dropWhile_nil, List.length_nil]
              rw [← hn]
          | inr h0 =>
              have hm : ¬ Queue.expired cutoff (r.messageAt r.tail) = true := by
                intro hx
                have hs : (r.recordAt r.tail).stamp < cutoff := of_decide_eq_true hx
                exact he (Record.isExpired_iff.mpr ⟨h.valid_tail_iff.mpr h0, hs⟩)
              have hmr := messages_release h h0
              simp only [Queue.sweep, hmr]
              rw [List.takeWhile_cons_of_neg hm, List.dropWhile_cons_of_neg hm, ← hmr]
              rfl

theorem toQueue_sweep (h : r.WellFormed) (cutoff : UInt64) :
    r.toQueue.sweep cutoff = ((r.sweep cutoff).1, (r.sweep cutoff).2.toQueue) :=
  toQueue_sweepUpTo cutoff r.capacity h h.count_le

theorem toQueue_wiped (g : Geometry) (s : Storage) : (wiped g s).toQueue = Queue.empty g := by
  simp only [toQueue, count_wiped]
  rfl

theorem toQueue_clear (r : Ring) : r.toQueue.clear = (r.clear.1, r.clear.2.toQueue) := by
  have hw : r.clear.2.toQueue = Queue.empty r.toGeometry := toQueue_wiped _ _
  rw [hw]
  unfold Queue.clear
  rw [length_messages]
  rfl

/-- Each operation of a well-formed ring is the operation of its queue. -/
theorem toQueue_step (h : r.WellFormed) (op : Op) :
    r.toQueue.step op = ((r.step op).1, (r.step op).2.toQueue) := by
  cases op with
  | push data owner stamp => simp only [Queue.step, Ring.step, toQueue_push h]
  | pop reader out => simp only [Queue.step, Ring.step, toQueue_pop h]
  | sweep cutoff => simp only [Queue.step, Ring.step, toQueue_sweep h]
  | clear => simp only [Queue.step, Ring.step, toQueue_clear]

/-- And so is every sequence of operations. -/
theorem toQueue_run (h : r.WellFormed) (ops : List Op) :
    r.toQueue.run ops = ((r.run ops).1, (r.run ops).2.toQueue) := by
  induction ops generalizing r with
  | nil => rfl
  | cons op ops ih =>
      have hrest := ih (h.step op)
      simp only [Queue.run, Ring.run, toQueue_step h, hrest]

/-! ## From the start -/

/-- What can be seen of the oldest message without taking it. -/
theorem peek_eq (h : r.WellFormed) :
    r.peek = r.toQueue.messages.head?.map fun m =>
      ⟨m.stamp, m.owner, UInt16.ofNat m.payload.length, true⟩ := by
  unfold peek
  cases Nat.eq_zero_or_pos r.count with
  | inl h0 =>
      have hv : ¬ (r.recordAt r.tail).valid = true := by rw [h.valid_tail_iff]; omega
      rw [messages_eq_nil_iff.mpr h0, if_neg hv]
      rfl
  | inr h0 =>
      have hv := h.valid_tail_iff.mpr h0
      have hlen := length_payload h h0
      rw [messages_release h h0, if_pos hv, List.head?_cons, Option.map_some, hlen,
        UInt16.ofNat_toNat, ← hv]
      rfl

/-- **Refinement**: over any storage that is accepted, whatever it held, a ring answers every
sequence of operations as the empty queue of its geometry does, and what it holds in the end
is what that queue holds. -/
theorem run_init_eq_run_empty {g : Geometry} {s : Storage} {first : Ring}
    (h : (init g s).1 = .ok first) (ops : List Op) :
    let r := (first.run ops).2
    let q := ((Queue.empty g).run ops).2
    (first.run ops).1 = ((Queue.empty g).run ops).1 ∧ r.toQueue = q ∧
      r.count = q.messages.length ∧
      (r.isEmpty = true ↔ q.messages = []) ∧
      (r.isFull = true ↔ q.messages.length = g.capacity) ∧
      (r.state = if q.messages.length = g.capacity then .full
        else if q.messages = [] then .empty else .partly) ∧
      r.peek = q.messages.head?.map fun m =>
        ⟨m.stamp, m.owner, UInt16.ofNat m.payload.length, true⟩ := by
  dsimp only
  have hw := (wellFormed_init h).run ops
  have hrun := toQueue_run (wellFormed_init h) ops
  have hg := congrArg Geometry.capacity (toGeometry_run first ops)
  obtain ⟨rfl, -⟩ := init_eq_ok h
  rw [toQueue_wiped] at hrun
  rw [hrun]
  have hempty : (((wiped g s).run ops).2.isEmpty = true ↔
      ((wiped g s).run ops).2.toQueue.messages = []) := by
    rw [hw.isEmpty_iff, messages_eq_nil_iff]
  have hfull : (((wiped g s).run ops).2.isFull = true ↔
      ((wiped g s).run ops).2.toQueue.messages.length = g.capacity) := by
    rw [hw.isFull_iff, length_messages, hg]
    rfl
  refine ⟨rfl, rfl, length_messages.symm, hempty, hfull, ?_, peek_eq hw⟩
  unfold state
  simp only [hempty, hfull]

/-- Two slots that held other messages before; the cursors go around, a reader is denied, a
buffer is too short, and a sweep stops at a fresh message. -/
theorem run_init_eq_run_empty_dirty :
    let g : Geometry := ⟨2, 3⟩
    let s : Storage := ⟨List.replicate 6 170, List.replicate 2 ⟨77, ⟨88, 99⟩, 1, true⟩⟩
    let ops : List Op :=
      [.push [1, 2, 3] ⟨5, 6⟩ 10, .push [4] ⟨7, 8⟩ 4, .push [] ⟨0, 0⟩ 0, .pop ⟨9, 9⟩ [0, 0, 0],
        .pop ⟨5, 9⟩ [0, 0], .sweep 5, .pop ⟨9, 6⟩ [0, 0, 0, 0], .push [6, 7] ⟨5, 6⟩ 20, .sweep 15]
    ∃ first, (init g s).1 = .ok first ∧
      (first.run ops).1 = ((Queue.empty g).run ops).1 ∧
      (first.run ops).2.toQueue = ((Queue.empty g).run ops).2 := by
  dsimp only
  refine ⟨wiped ⟨2, 3⟩ ⟨List.replicate 6 170, List.replicate 2 ⟨77, ⟨88, 99⟩, 1, true⟩⟩, rfl, ?_⟩
  obtain ⟨hreplies, hqueue, -⟩ := run_init_eq_run_empty
    (show (init ⟨2, 3⟩ ⟨List.replicate 6 170, List.replicate 2 ⟨77, ⟨88, 99⟩, 1, true⟩⟩).1 = .ok _
      from rfl) _
  exact ⟨hreplies, hqueue⟩

end MessagePipe.Ring
