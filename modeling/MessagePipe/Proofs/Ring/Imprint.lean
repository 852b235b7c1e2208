import Mathlib.Order.Bounds.Basic
import MessagePipe.Proofs.Ring.Refinement

/-!
# MessagePipe.Proofs.Ring.Imprint

What the storage of a ring holds, byte for byte.  A slot that was never written
since the ring was set up or cleared is blank; every other slot holds the last
message that was written into it, zeros behind that, and the record of the
message, whether it is still there or not.  So the storage is told by the
messages that were written and by how many were taken or removed (`Traffic`),
and by the last of the messages alone.

* `Traced.store` / `Traced.release` — writing and releasing a slot move on
  the traffic by one message;
* `Traced.step` / `Traced.run` — every operation keeps the storage as the
  traffic tells;
* `Imprint.unique` — rings with the same recent traffic are the same;
* `run_imprint` — what every ring holds that can come up.
-/

namespace MessagePipe.Ring

/-! ## Traffic -/

/-- What went through a ring since it was set up or, if that was later, cleared. -/
structure Traffic where
  /-- The messages that were written, first to last. -/
  pushed : List Message
  /-- How many messages were taken or removed. -/
  removed : Nat

namespace Traffic

def none : Traffic := ⟨[], 0⟩

/-- One more operation, by what it was asked and what it returned. -/
def note (t : Traffic) : Op → Op.Reply → Traffic
  | .push data owner stamp, .pushed (.ok _) =>
    { t with pushed := t.pushed ++ [⟨data, owner, stamp⟩] }
  | .pop _ _, .popped (.ok _) _ => { t with removed := t.removed + 1 }
  | .sweep _, .swept removed => { t with removed := t.removed + removed }
  | .clear, _ => none
  | _, _ => t

/-- All that went through a ring that was asked these operations and gave these replies. -/
def of (ops : List Op) (replies : List Op.Reply) : Traffic :=
  (ops.zip replies).foldl (fun t call => t.note call.1 call.2) none

/-- Of the messages that were written into a slot, this is the number of the last one. -/
def IsLast (t : Traffic) (capacity slot i : Nat) : Prop :=
  IsGreatest {i | i < t.pushed.length ∧ i % capacity = slot} i

/-- As much was written and removed, and of what was written the last messages, as many as there
are slots, are the same. -/
structure Resembles (capacity : Nat) (t t' : Traffic) : Prop where
  length : t.pushed.length = t'.pushed.length
  removed : t.removed = t'.removed
  last : ∀ i, t.pushed.length ≤ i + capacity → t.pushed[i]? = t'.pushed[i]?

end Traffic

/-! ## Numbers that share a slot -/

/-- Numbers less than a turn apart that share a slot are the same. -/
theorem eq_of_mod_eq {capacity i j : Nat} (hmod : i % capacity = j % capacity) (hij : i ≤ j)
    (hj : j < i + capacity) : i = j := by
  have hsub := Nat.sub_mod_eq_zero_of_mod_eq hmod.symm
  rw [Nat.mod_eq_of_lt (by omega)] at hsub
  omega

/-- The last message of a slot is less than a turn before the next message to come. -/
theorem Traffic.isLast_iff {t : Traffic} {capacity slot i : Nat} (hc : 0 < capacity) :
    t.IsLast capacity slot i ↔
      i < t.pushed.length ∧ i % capacity = slot ∧ t.pushed.length ≤ i + capacity := by
  constructor
  · rintro ⟨⟨hi, hslot⟩, hmax⟩
    refine ⟨hi, hslot, Nat.not_lt.mp fun hlt => ?_⟩
    have hle := hmax ⟨hlt, by rw [Nat.add_mod_right]; exact hslot⟩
    omega
  · rintro ⟨hi, hslot, hle⟩
    refine ⟨⟨hi, hslot⟩, fun j hj => Nat.not_lt.mp fun hlt => ?_⟩
    have hsame := eq_of_mod_eq (hslot.trans hj.2.symm) (Nat.le_of_lt hlt) (by have := hj.1; omega)
    omega

/-- A slot that was written holds a last message. -/
theorem Traffic.exists_isLast {t : Traffic} {capacity slot : Nat} (hs : slot < capacity)
    (hw : slot < t.pushed.length) : ∃ i, t.IsLast capacity slot i := by
  -- go on from the first message of the slot by whole turns, as far as there are messages
  refine ⟨slot + capacity * ((t.pushed.length - 1 - slot) / capacity),
    (isLast_iff (Nat.zero_lt_of_lt hs)).mpr ⟨?_, ?_, ?_⟩⟩
  · have hle := Nat.mul_div_le (t.pushed.length - 1 - slot) capacity
    omega
  · rw [Nat.add_mul_mod_self_left, Nat.mod_eq_of_lt hs]
  · have hlt := Nat.lt_mul_div_succ (t.pushed.length - 1 - slot) (Nat.zero_lt_of_lt hs)
    rw [Nat.mul_add, Nat.mul_one] at hlt
    omega

/-! ## Storage and traffic -/

/-- The storage of a ring is as its traffic tells. -/
structure Traced (t : Traffic) (r : Ring) : Prop where
  head : r.head = t.pushed.length % r.capacity
  tail : r.tail = t.removed % r.capacity
  /-- What was written and not removed is still there. -/
  count : t.removed + r.count = t.pushed.length
  /-- Nothing was ever written here. -/
  blank : ∀ slot < r.capacity, t.pushed.length ≤ slot →
    r.bytesAt slot = Bytes.zeros r.dataSize ∧ r.recordAt slot = .empty
  /-- Nothing was written here since. -/
  written : ∀ i m, t.pushed[i]? = some m → t.pushed.length ≤ i + r.capacity →
    m.payload.length ≤ r.dataSize ∧
      r.bytesAt (i % r.capacity) = m.payload ++ Bytes.zeros (r.dataSize - m.payload.length) ∧
      r.recordAt (i % r.capacity) =
        ⟨m.stamp, m.owner, UInt16.ofNat m.payload.length, decide (t.removed ≤ i)⟩

namespace Traced

variable {r : Ring} {t : Traffic}

theorem store {data : Bytes} (h : Traced t r) (hw : r.WellFormed) (hf : r.isFull = false)
    (hd : data.length ≤ r.dataSize) (owner : Credentials) (stamp : UInt64) :
    Traced { t with pushed := t.pushed ++ [⟨data, owner, stamp⟩] }
      (r.store data owner stamp) := by
  have hcount := h.count
  have hlt := hw.count_lt hf
  constructor
  · show r.next r.head = (t.pushed ++ [_]).length % r.capacity
    rw [next, h.head, Nat.mod_add_mod, List.length_append, List.length_singleton]
  · exact h.tail
  · show t.removed + (r.store data owner stamp).count = (t.pushed ++ [_]).length
    rw [count_store hw hf, List.length_append, List.length_singleton, ← Nat.add_assoc, hcount]
  · intro slot hs hle
    rw [List.length_append, List.length_singleton] at hle
    have hs : slot < r.capacity := hs
    have hne : r.head ≠ slot := by
      rw [h.head, Nat.mod_eq_of_lt (by omega)]; omega
    rw [bytesAt_store_ne hw hd owner stamp hne, recordAt_store_ne hne]
    exact h.blank slot hs (by omega)
  · intro i m hm hle
    rw [List.length_append, List.length_singleton] at hle
    have hle : t.pushed.length + 1 ≤ i + r.capacity := hle
    show _ ∧ (r.store data owner stamp).bytesAt (i % r.capacity) = _ ∧
      (r.store data owner stamp).recordAt (i % r.capacity) = _
    cases Nat.lt_or_ge i t.pushed.length with
    | inl hi =>
        rw [List.getElem?_append_left hi] at hm
        have hne : r.head ≠ i % r.capacity := by
          rw [h.head]
          intro hmod
          have := eq_of_mod_eq hmod.symm (Nat.le_of_lt hi) (by omega)
          omega
        rw [bytesAt_store_ne hw hd owner stamp hne, recordAt_store_ne hne]
        exact h.written i m hm (by omega)
    | inr hge =>
        -- the message is the one that was just written
        rw [List.getElem?_append_right hge, List.getElem?_singleton] at hm
        obtain ⟨hi, hm⟩ := Option.ite_none_right_eq_some.mp hm
        obtain rfl := Option.some.inj hm
        obtain rfl : i = t.pushed.length := by omega
        have hlive : t.removed ≤ t.pushed.length := by omega
        rw [← h.head, bytesAt_store_self hw hd, recordAt_store_self hw]
        exact ⟨hd, rfl, by simp only [hlive, decide_true]⟩

theorem release (h : Traced t r) (hw : r.WellFormed) (hv : (r.recordAt r.tail).valid = true) :
    Traced { t with removed := t.removed + 1 } r.release := by
  have hcount := h.count
  have hone := count_release hv
  have hle := hw.count_le
  constructor
  · exact h.head
  · show r.next r.tail = (t.removed + 1) % r.capacity
    rw [next, h.tail, Nat.mod_add_mod]
  · show t.removed + 1 + r.release.count = t.pushed.length
    omega
  · intro slot hs hblank
    obtain ⟨hbytes, hrecord⟩ := h.blank slot hs hblank
    have hne : r.tail ≠ slot := by
      rintro rfl
      rw [hrecord] at hv
      contradiction
    rw [recordAt_release_ne hne]
    exact ⟨hbytes, hrecord⟩
  · intro i m hm hlast
    obtain ⟨hfits, hbytes, hrecord⟩ := h.written i m hm hlast
    refine ⟨hfits, hbytes, ?_⟩
    show r.release.recordAt (i % r.capacity) = _
    have hi : i < t.pushed.length := (List.getElem?_eq_some_iff.mp hm).1
    by_cases hs : r.tail = i % r.capacity
    · -- the message that is released is the oldest one
      rw [hs, hrecord] at hv
      have hlive : t.removed ≤ i := of_decide_eq_true hv
      have hoff : ¬ t.removed + 1 ≤ i := by
        have := eq_of_mod_eq (h.tail.symm.trans hs) hlive (by omega)
        omega
      rw [← hs, recordAt_release_self, hs, hrecord]
      simp only [Record.taken, hoff, decide_false]
    · have hiff : t.removed ≤ i ↔ t.removed + 1 ≤ i := by
        have : t.removed ≠ i := by rintro rfl; exact hs h.tail
        omega
      rw [recordAt_release_ne hs, hrecord]
      simp only [hiff]

theorem wiped {g : Geometry} {s : Storage} (hs : s.base.length = g.capacity * g.dataSize) :
    Traced .none (Ring.wiped g s) := by
  constructor
  · exact (Nat.zero_mod _).symm
  · exact (Nat.zero_mod _).symm
  · exact (Nat.zero_add _).trans (count_wiped g s)
  · intro slot hslot _
    have hend : slot * g.dataSize + g.dataSize ≤ g.capacity * g.dataSize := by
      rw [← Nat.succ_mul]
      exact Nat.mul_le_mul_right _ hslot
    constructor
    · show ((Bytes.zeros s.base.length).drop (slot * g.dataSize)).take g.dataSize = _
      rw [Bytes.zeros, List.drop_replicate, List.take_replicate, Nat.min_eq_left (by omega)]
      rfl
    · simp only [recordAt, Ring.wiped, Storage.cleared, List.getD_eq_getElem?_getD,
        List.getElem?_replicate]
      split <;> rfl
  · intro i m hm _
    contradiction

/-! ## The operations -/

theorem push (h : Traced t r) (hw : r.WellFormed) (data : Bytes) (owner : Credentials)
    (stamp : UInt64) :
    Traced (t.note (.push data owner stamp) (.pushed (r.push data owner stamp).1))
      (r.push data owner stamp).2 := by
  unfold Ring.push
  split
  · exact h
  · next hd =>
      split
      · exact h
      · next hf => exact h.store hw (by simpa using hf) (by omega) owner stamp

theorem pop (h : Traced t r) (hw : r.WellFormed) (reader : Credentials) (out : Bytes) :
    Traced (t.note (.pop reader out) (.popped (r.pop reader out).1 (r.pop reader out).2.1))
      (r.pop reader out).2.2 := by
  unfold Ring.pop
  dsimp only
  split
  · exact h
  · next hv =>
      split
      · exact h
      · split
        · exact h
        · exact h.release hw (by simpa using hv)

theorem sweepUpTo (h : Traced t r) (hw : r.WellFormed) (cutoff : UInt64) (budget : Nat) :
    Traced { t with removed := t.removed + (Ring.sweepUpTo cutoff budget r).1 }
      (Ring.sweepUpTo cutoff budget r).2 := by
  induction budget generalizing r t with
  | zero => exact h
  | succ budget ih =>
      unfold Ring.sweepUpTo
      split
      · next he =>
          have hv := (Record.isExpired_iff.mp he).1
          have hrest := ih (h.release hw hv) (hw.release (hw.valid_tail_iff.mp hv))
          rwa [Nat.add_assoc, Nat.add_comm 1] at hrest
      · exact h

theorem step (h : Traced t r) (hw : r.WellFormed) (op : Op) :
    Traced (t.note op (r.step op).1) (r.step op).2 := by
  cases op with
  | push data owner stamp => exact h.push hw data owner stamp
  | pop reader out => exact h.pop hw reader out
  | sweep cutoff => exact h.sweepUpTo hw cutoff r.capacity
  | clear => exact wiped hw.length_base

/-- Whatever operations a ring goes through, its storage is as its traffic tells. -/
theorem run (h : Traced t r) (hw : r.WellFormed) (ops : List Op) :
    Traced ((ops.zip (r.run ops).1).foldl (fun t call => t.note call.1 call.2) t)
      (r.run ops).2 := by
  induction ops generalizing r t with
  | nil => exact h
  | cons op ops ih => exact ih (h.step hw op) (hw.step op)

end Traced

/-! ## The whole storage -/

/-- The storage of a ring of a given geometry, slot by slot. -/
structure Imprint (g : Geometry) (t : Traffic) (r : Ring) : Prop where
  geometry : r.toGeometry = g
  base : r.base.length = g.capacity * g.dataSize
  records : r.records.length = g.capacity
  head : r.head = t.pushed.length % g.capacity
  tail : r.tail = t.removed % g.capacity
  /-- A slot that nothing was written into is blank. -/
  blank : ∀ slot < g.capacity, t.pushed.length ≤ slot →
    r.bytesAt slot = Bytes.zeros g.dataSize ∧ r.records[slot]? = some .empty
  /-- Any other slot holds the last message that was written into it, and its record, which is
  valid until the message is removed. -/
  written : ∀ slot < g.capacity, slot < t.pushed.length → ∃ i m record,
    t.IsLast g.capacity slot i ∧ t.pushed[i]? = some m ∧
      m.payload.length ≤ g.dataSize ∧
      r.bytesAt slot = m.payload ++ Bytes.zeros (g.dataSize - m.payload.length) ∧
      r.records[slot]? = some record ∧ record.stamp = m.stamp ∧ record.owner = m.owner ∧
      record.len.toNat = m.payload.length ∧ (record.valid = true ↔ t.removed ≤ i)

variable {g : Geometry} {t t' : Traffic} {r r' : Ring}

theorem Traced.imprint (h : Traced t r) (hw : r.WellFormed) : Imprint r.toGeometry t r := by
  have hrecord : ∀ slot < r.capacity, r.records[slot]? = some (r.recordAt slot) := by
    intro slot hs
    have hl : slot < r.records.length := hw.length_records ▸ hs
    rw [recordAt_eq_getElem hl, List.getElem?_eq_getElem hl]
  refine ⟨rfl, hw.length_base, hw.length_records, h.head, h.tail, ?_, ?_⟩
  · intro slot hs hblank
    obtain ⟨hbytes, hempty⟩ := h.blank slot hs hblank
    exact ⟨hbytes, by rw [hrecord slot hs, hempty]⟩
  · intro slot hs hlt
    obtain ⟨i, hlast⟩ := t.exists_isLast hs hlt
    obtain ⟨hi, rfl, hle⟩ := (Traffic.isLast_iff hw.capacity_pos).mp hlast
    have hm := List.getElem?_eq_getElem hi
    obtain ⟨hfits, hbytes, hwritten⟩ := h.written i _ hm hle
    refine ⟨i, _, _, hlast, hm, hfits, hbytes, hrecord _ hs, ?_⟩
    rw [hwritten]
    exact ⟨rfl, rfl, hw.toNat_ofNat_length hfits, decide_eq_true_iff⟩

/-- A region is told by its slots. -/
theorem base_eq_of_bytesAt (hg : r.toGeometry = r'.toGeometry)
    (hb : r.base.length = r.capacity * r.dataSize)
    (hb' : r'.base.length = r'.capacity * r'.dataSize)
    (h : ∀ slot < r.capacity, r.bytesAt slot = r'.bytesAt slot) : r.base = r'.base := by
  have hc : r'.capacity = r.capacity := congrArg Geometry.capacity hg.symm
  have hd : r'.dataSize = r.dataSize := congrArg Geometry.dataSize hg.symm
  rw [hc, hd] at hb'
  refine List.ext_getElem? fun i => ?_
  cases Nat.lt_or_ge i (r.capacity * r.dataSize) with
  | inr hge => rw [List.getElem?_eq_none (by omega), List.getElem?_eq_none (by omega)]
  | inl hlt =>
      have hpos : 0 < r.dataSize := Nat.pos_of_lt_mul_left hlt
      have hbyte := congrArg (fun bytes => bytes[i % r.dataSize]?)
        (h (i / r.dataSize) (Nat.div_lt_of_lt_mul (by rwa [Nat.mul_comm])))
      simp only [bytesAt, Bytes.slice, offset, hd, List.getElem?_take,
        if_pos (Nat.mod_lt i hpos), List.getElem?_drop, Nat.div_add_mod'] at hbyte
      exact hbyte

/-- A slot is the same in rings with the same recent traffic. -/
theorem Imprint.slot_eq (h : Imprint g t r) (h' : Imprint g t' r')
    (hsame : t.Resembles g.capacity t') {slot : Nat} (hs : slot < g.capacity) :
    r.bytesAt slot = r'.bytesAt slot ∧ r.records[slot]? = r'.records[slot]? := by
  cases Nat.lt_or_ge slot t.pushed.length with
  | inr hblank =>
      obtain ⟨hbytes, hrecord⟩ := h.blank slot hs hblank
      obtain ⟨hbytes', hrecord'⟩ := h'.blank slot hs (hsame.length ▸ hblank)
      exact ⟨hbytes.trans hbytes'.symm, hrecord.trans hrecord'.symm⟩
  | inl hlt =>
      obtain ⟨i, m, ⟨stamp, owner, len, valid⟩, hlast, hm, -, hbytes, hrecord, hfields⟩ :=
        h.written slot hs hlt
      obtain ⟨i', m', ⟨stamp', owner', len', valid'⟩, hlast', hm', -, hbytes', hrecord',
        hfields'⟩ := h'.written slot hs (hsame.length ▸ hlt)
      -- both slots hold the same message: the last one of its slot is a recent one
      unfold Traffic.IsLast at hlast'
      rw [← hsame.length] at hlast'
      obtain rfl := hlast.unique hlast'
      have hle := ((Traffic.isLast_iff (Nat.zero_lt_of_lt hs)).mp hlast).2.2
      rw [hsame.last i hle, hm', Option.some.injEq] at hm
      subst hm
      refine ⟨hbytes.trans hbytes'.symm, ?_⟩
      obtain ⟨hstamp, howner, hlen, hvalid⟩ := hfields
      obtain ⟨hstamp', howner', hlen', hvalid'⟩ := hfields'
      rw [hrecord, hrecord', Option.some.injEq, Record.mk.injEq]
      refine ⟨hstamp.trans hstamp'.symm, howner.trans howner'.symm,
        UInt16.toNat_inj.mp (hlen.trans hlen'.symm), ?_⟩
      rw [Bool.eq_iff_iff]
      exact hvalid.trans (hsame.removed ▸ hvalid'.symm)

/-- Nothing but the last messages, as many as there are slots, is left in a ring. -/
theorem Imprint.unique (h : Imprint g t r) (h' : Imprint g t' r')
    (hsame : t.Resembles g.capacity t') : r = r' := by
  have hg : r.toGeometry = r'.toGeometry := h.geometry.trans h'.geometry.symm
  have hc : r.capacity = g.capacity := congrArg Geometry.capacity h.geometry
  have hbase : r.base = r'.base :=
    base_eq_of_bytesAt hg (h.geometry ▸ h.base) (h'.geometry ▸ h'.base)
      fun slot hs => (h.slot_eq h' hsame (hc ▸ hs)).1
  have hrecords : r.records = r'.records := by
    refine List.ext_getElem? fun slot => ?_
    cases Nat.lt_or_ge slot g.capacity with
    | inl hs => exact (h.slot_eq h' hsame hs).2
    | inr hge =>
        rw [List.getElem?_eq_none (by rw [h.records]; exact hge),
          List.getElem?_eq_none (by rw [h'.records]; exact hge)]
  have hhead : r.head = r'.head := by rw [h.head, h'.head, hsame.length]
  have htail : r.tail = r'.tail := by rw [h.tail, h'.tail, hsame.removed]
  obtain ⟨geometry, ⟨base, records⟩, head, tail⟩ := r
  obtain ⟨geometry', ⟨base', records'⟩, head', tail'⟩ := r'
  simp only at hg hbase hrecords hhead htail
  subst hg hbase hrecords hhead htail
  rfl

/-- **Imprint**: whatever operations a ring went through, and whatever its storage held before,
each slot is blank or holds the last message that was written into it; so two rings are the
same that had the same recent traffic, and nothing older is left in them. -/
theorem run_imprint {s : Storage} {first : Ring} (h : (init g s).1 = .ok first) (ops : List Op) :
    let t := Traffic.of ops (first.run ops).1
    Imprint g t (first.run ops).2 ∧
      ∀ s' first' ops', (init g s').1 = .ok first' →
        t.Resembles g.capacity (Traffic.of ops' (first'.run ops').1) →
          (first.run ops).2 = (first'.run ops').2 := by
  have himprint : ∀ {s : Storage} {first : Ring} (ops : List Op), (init g s).1 = .ok first →
      Imprint g (Traffic.of ops (first.run ops).1) (first.run ops).2 := by
    intro s first ops h
    have hw := wellFormed_init h
    have hg := toGeometry_run first ops
    obtain ⟨rfl, -, -, hb, -⟩ := init_eq_ok h
    have hrun := ((Traced.wiped hb).run hw ops).imprint (hw.run ops)
    rw [hg] at hrun
    exact hrun
  exact ⟨himprint ops h, fun s' first' ops' h' hsame =>
    (himprint ops h).unique (himprint ops' h') hsame⟩

/-- A short message takes the place of a long one, after a clear and over storage that was dirty.
What the long one was makes no difference any more. -/
theorem run_imprint_short_over_long :
    let ops (long : Bytes) : List Op :=
      [.push long ⟨5, 6⟩ 10, .push [4] ⟨5, 6⟩ 20, .pop ⟨5, 6⟩ [0, 0, 0], .push [7, 8] ⟨5, 6⟩ 30]
    let cleared : List Op := .push [9] ⟨1, 1⟩ 5 :: .clear :: ops [1, 2, 3]
    let dirty : Storage := ⟨List.replicate 6 170, List.replicate 2 ⟨77, ⟨88, 99⟩, 1, true⟩⟩
    ∃ first first', (init ⟨2, 3⟩ dirty).1 = .ok first ∧
      (init ⟨2, 3⟩ (.fresh ⟨2, 3⟩ 6)).1 = .ok first' ∧
      (first.run cleared).2 = (first'.run (ops [6, 6])).2 ∧
      (first'.run (ops [6, 6])).2.base = [7, 8, 0, 4, 0, 0] := by
  intro ops cleared dirty
  have hinit : (init ⟨2, 3⟩ dirty).1 = .ok (wiped ⟨2, 3⟩ dirty) := rfl
  have hinit' : (init ⟨2, 3⟩ (.fresh ⟨2, 3⟩ 6)).1 = .ok (wiped ⟨2, 3⟩ (.fresh ⟨2, 3⟩ 6)) := rfl
  have traffic : Traffic.of cleared ((wiped ⟨2, 3⟩ dirty).run cleared).1 =
      ⟨[⟨[1, 2, 3], ⟨5, 6⟩, 10⟩, ⟨[4], ⟨5, 6⟩, 20⟩, ⟨[7, 8], ⟨5, 6⟩, 30⟩], 1⟩ := by
    dsimp only [cleared, ops, dirty]; rfl
  have traffic' : Traffic.of (ops [6, 6])
      ((wiped ⟨2, 3⟩ (.fresh ⟨2, 3⟩ 6)).run (ops [6, 6])).1 =
      ⟨[⟨[6, 6], ⟨5, 6⟩, 10⟩, ⟨[4], ⟨5, 6⟩, 20⟩, ⟨[7, 8], ⟨5, 6⟩, 30⟩], 1⟩ := by
    dsimp only [ops]; rfl
  refine ⟨_, _, hinit, hinit', (run_imprint hinit cleared).2 _ _ _ hinit' ?_, rfl⟩
  rw [traffic, traffic']
  refine ⟨rfl, rfl, fun i hi => ?_⟩
  cases i with
  | zero => exact absurd hi (by decide)
  | succ i => rfl

end MessagePipe.Ring
