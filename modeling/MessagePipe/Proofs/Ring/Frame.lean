import MessagePipe.Proofs.Ring.Refinement
import MessagePipe.Ring.History
import MessagePipe.Proofs.Thinning

/-!
# MessagePipe.Proofs.Ring.Frame

What an operation of a ring leaves as it was.  A push or a pop that fails
leaves everything, the buffer of the caller included.  A push that succeeds
changes its slot and `head` (`Wrote`), a pop that succeeds changes one flag,
`tail`, and as much of the buffer as it returns bytes (`Took`).

Failures can therefore be left out of a sequence of operations: the others
return what they returned, and the ring at the end is the same
(`run_of_thinned`).
-/

namespace MessagePipe

/-- Whether an operation failed. -/
def Op.Reply.failed : Op.Reply → Bool
  | pushed (.error _) | popped (.error _) _ => true
  | _ => false

namespace Ring

variable {r r' : Ring} {g : Geometry}

/-! ## Failures -/

/-- A pop that fails leaves the ring and the buffer as they are. -/
theorem pop_snd_of_error {reader : Credentials} {out : Bytes} {e : RingError}
    (h : (r.pop reader out).1 = .error e) : (r.pop reader out).2 = (out, r) := by
  unfold pop at h ⊢
  dsimp only at h ⊢
  split
  · rfl
  next hv =>
  split
  · rfl
  next hr =>
  split
  · rfl
  · next hl =>
      rw [if_neg hv, if_neg hr, if_neg hl] at h
      contradiction

/-- An operation that fails leaves the ring as it is. -/
theorem step_of_failed {op : Op} (h : (r.step op).1.failed = true) : (r.step op).2 = r := by
  cases op with
  | push data owner stamp =>
      cases hp : (r.push data owner stamp).1 with
      | error e => exact push_ring_of_error hp
      | ok n => simp [step, hp, Op.Reply.failed] at h
  | pop reader out =>
      cases hp : (r.pop reader out).1 with
      | error e => exact congrArg Prod.snd (pop_snd_of_error hp)
      | ok n => simp [step, hp, Op.Reply.failed] at h
  | sweep cutoff => contradiction
  | clear => contradiction

/-- A sequence of operations is taken step by step. -/
theorem steps_iff_run {l : List (Op × Op.Reply)} :
    Steps (fun r (e : Op × Op.Reply) r' => r.step e.1 = (e.2, r')) r l r' ↔
      r.run (l.map Prod.fst) = (l.map Prod.snd, r') := by
  induction l generalizing r with
  | nil =>
      constructor
      · intro h
        cases h
        rfl
      · intro h
        obtain rfl := (Prod.mk.inj h).2
        exact .nil r
  | cons e l ih =>
      obtain ⟨op, reply⟩ := e
      simp only [List.map_cons, run, Prod.mk.injEq, List.cons.injEq]
      constructor
      · rintro (_ | ⟨first, rest⟩)
        obtain ⟨hrest, rfl⟩ := Prod.mk.inj (ih.mp rest)
        dsimp only at first
        rw [first]
        exact ⟨⟨rfl, hrest⟩, rfl⟩
      · rintro ⟨⟨hreply, hreplies⟩, hfinal⟩
        exact .cons (Prod.ext hreply rfl) (ih.mpr (Prod.ext hreplies hfinal))

/-- Failures can be left out of a sequence of operations. -/
theorem run_of_thinned {ops : List Op} {kept : List (Op × Op.Reply)}
    (h : Thinned (·.2.failed = true) (ops.zip (r.run ops).1) kept) :
    r.run (kept.map Prod.fst) = (kept.map Prod.snd, (r.run ops).2) := by
  have hlen : ∀ (r : Ring) (ops : List Op), (r.run ops).1.length = ops.length := by
    intro r ops
    induction ops generalizing r with
    | nil => rfl
    | cons op ops ih => exact congrArg (· + 1) (ih _)
  have hall : r.run ((ops.zip (r.run ops).1).map Prod.fst) =
      ((ops.zip (r.run ops).1).map Prod.snd, (r.run ops).2) := by
    rw [List.map_fst_zip (Nat.le_of_eq (hlen r ops).symm),
      List.map_snd_zip (Nat.le_of_eq (hlen r ops))]
  refine steps_iff_run.mp ((steps_iff_run.mpr hall).of_thinned ?_ h)
  rintro s ⟨op, reply⟩ t hfailed hstep
  have hsame : (s.step op).2 = s := step_of_failed (hstep ▸ hfailed)
  exact (congrArg Prod.snd hstep).symm.trans hsame

/-! ## Successes -/

/-- What a push makes of a ring: another slot at `head`, and the next one is `head` now. -/
structure Wrote (r : Ring) (data : Bytes) (owner : Credentials) (stamp : UInt64) (r' : Ring) :
    Prop where
  geometry : r'.toGeometry = r.toGeometry
  tail : r'.tail = r.tail
  head : r'.head = r.next r.head
  length_base : r'.base.length = r.base.length
  bytes_self : r'.bytesAt r.head = data ++ Bytes.zeros (r.dataSize - data.length)
  /-- Bytes outside the slot. -/
  bytes_ne : ∀ start n, start + n ≤ r.offset r.head ∨ r.offset r.head + r.dataSize ≤ start →
    r'.base.slice start n = r.base.slice start n
  record_self : r'.records[r.head]? = some ⟨stamp, owner, UInt16.ofNat data.length, true⟩
  record_ne : ∀ slot, slot ≠ r.head → r'.records[slot]? = r.records[slot]?

/-- What a pop of `n` bytes makes of a ring and of the buffer `out`. -/
structure Took (r : Ring) (out : Bytes) (n : Nat) (out' : Bytes) (r' : Ring) : Prop where
  geometry : r'.toGeometry = r.toGeometry
  base : r'.base = r.base
  head : r'.head = r.head
  tail : r'.tail = r.next r.tail
  /-- The flag of the record is lowered, and nothing else in it changes. -/
  record_self : (r.recordAt r.tail).valid = true ∧
    r'.records[r.tail]? = some { r.recordAt r.tail with valid := false }
  record_ne : ∀ slot, slot ≠ r.tail → r'.records[slot]? = r.records[slot]?
  length : (r.recordAt r.tail).len.toNat = n
  taken : out'.take n = (r.bytesAt r.tail).take n
  left : out'.drop n = out.drop n
  length_out : out'.length = out.length

theorem wrote_of_ok (h : r.WellFormed) {data : Bytes} {owner : Credentials} {stamp : UInt64}
    {n : Nat} (hok : (r.push data owner stamp).1 = .ok n) :
    n = data.length ∧ r.Wrote data owner stamp (r.push data owner stamp).2 := by
  unfold push at hok ⊢
  split at hok
  · contradiction
  next hlong =>
  split at hok
  · contradiction
  next hfull =>
  have hfit : data.length ≤ r.dataSize := Nat.not_lt.mp hlong
  have hbytes := Bytes.length_append_zeros hfit
  have hslot := h.offset_add_le h.head_lt
  refine ⟨(Except.ok.inj hok).symm, ?_⟩
  rw [if_neg hlong, if_neg hfull]
  exact {
    geometry := rfl
    tail := rfl
    head := rfl
    length_base := Bytes.length_patch (by rw [hbytes]; exact hslot)
    bytes_self := bytesAt_store_self h hfit owner stamp
    bytes_ne := by
      rintro start n (hbefore | hafter)
      · exact Bytes.slice_patch_before hbefore (by omega)
      · exact Bytes.slice_patch_after (by rw [hbytes]; exact hafter) (by omega)
    record_self := List.getElem?_set_self (h.length_records ▸ h.head_lt)
    record_ne := fun slot hne => List.getElem?_set_ne hne.symm }

theorem took_of_ok (h : r.WellFormed) {reader : Credentials} {out : Bytes} {n : Nat}
    (hok : (r.pop reader out).1 = .ok n) :
    r.Took out n (r.pop reader out).2.1 (r.pop reader out).2.2 := by
  unfold pop at hok ⊢
  dsimp only at hok ⊢
  split at hok
  · contradiction
  next hvalid =>
  split at hok
  · contradiction
  next hread =>
  split at hok
  · contradiction
  next hshort =>
  obtain rfl := Except.ok.inj hok
  have hv : (r.recordAt r.tail).valid = true := by simpa using hvalid
  have hle := h.len_le r.tail hv
  have hslot := h.offset_add_le h.tail_lt
  have hlen := @Bytes.length_slice r.base (r.offset r.tail) (r.recordAt r.tail).len.toNat (by omega)
  rw [if_neg hvalid, if_neg hread, if_neg hshort]
  exact {
    geometry := rfl
    base := rfl
    head := rfl
    tail := rfl
    record_self := ⟨hv, List.getElem?_set_self (h.length_records ▸ h.tail_lt)⟩
    record_ne := fun slot hne => List.getElem?_set_ne hne.symm
    length := rfl
    taken := by
      rw [Bytes.patch_zero, List.take_append_of_le_length (Nat.le_of_eq hlen.symm),
        List.take_of_length_le (Nat.le_of_eq hlen), bytesAt, Bytes.slice, Bytes.slice,
        List.take_take, Nat.min_eq_left hle]
    left := by
      rw [Bytes.patch_zero, hlen, List.drop_append_of_le_length (Nat.le_of_eq hlen.symm),
        List.drop_of_length_le (Nat.le_of_eq hlen), List.nil_append]
    length_out := Bytes.length_patch (by omega) }

/-- A buffer only matters by its length: whatever it held, a pop does the same to the ring, and
leaves the same message in front. -/
theorem pop_of_length (h : r.WellFormed) (reader : Credentials) {out out' : Bytes}
    (hl : out.length = out'.length) :
    (r.pop reader out).1 = (r.pop reader out').1 ∧
      (r.pop reader out).2.2 = (r.pop reader out').2.2 ∧
        ∀ n, (r.pop reader out).1 = .ok n →
          (r.pop reader out).2.1.take n = (r.pop reader out').2.1.take n := by
  have hsame : (r.pop reader out).1 = (r.pop reader out').1 ∧
      (r.pop reader out).2.2 = (r.pop reader out').2.2 := by
    unfold pop
    dsimp only
    rw [hl]
    split
    · exact ⟨rfl, rfl⟩
    split
    · exact ⟨rfl, rfl⟩
    split <;> exact ⟨rfl, rfl⟩
  refine ⟨hsame.1, hsame.2, fun n hok => ?_⟩
  rw [(took_of_ok h hok).taken, (took_of_ok h (hsame.1 ▸ hok)).taken]

/-! ## All together -/

/-- Failures of a ring leave no trace, and successes have a frame. -/
structure Traceless (r : Ring) : Prop where
  push_error : ∀ data owner stamp e, (r.push data owner stamp).1 = .error e →
    (r.push data owner stamp).2 = r
  pop_error : ∀ reader out e, (r.pop reader out).1 = .error e → (r.pop reader out).2 = (out, r)
  push_ok : ∀ data owner stamp n, (r.push data owner stamp).1 = .ok n →
    n = data.length ∧ r.Wrote data owner stamp (r.push data owner stamp).2
  pop_ok : ∀ reader out n, (r.pop reader out).1 = .ok n →
    r.Took out n (r.pop reader out).2.1 (r.pop reader out).2.2
  /-- Failures can be left out of any sequence of operations. -/
  run : ∀ ops kept, Thinned (·.2.failed = true) (ops.zip (r.run ops).1) kept →
    r.run (kept.map Prod.fst) = (kept.map Prod.snd, (r.run ops).2)

theorem WellFormed.traceless (h : r.WellFormed) : r.Traceless where
  push_error _ _ _ _ := push_ring_of_error
  pop_error _ _ _ := pop_snd_of_error
  push_ok _ _ _ _ := wrote_of_ok h
  pop_ok _ _ _ := took_of_ok h
  run _ _ := run_of_thinned

end Ring

end MessagePipe
