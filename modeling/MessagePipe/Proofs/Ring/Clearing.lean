import MessagePipe.Proofs.Ring.Occupancy
import MessagePipe.Proofs.Ring.Refinement

/-!
# MessagePipe.Proofs.Ring.Clearing

A ring begins anew when it is cleared.  Taking and removing messages leaves
their bytes and records behind, and the cursors wherever they were; a clear
leaves nothing of that.  The ring after it is blank, as is a ring that is set up
over storage of the right size, whatever that held, and one that allots its own.

* `wiped_eq_blank` — storage of the right size is forgotten;
* `WellFormed.clear_eq`, `Geometry.Admissible.init_eq`,
  `Geometry.Admissible.create_eq` — the three ways to a blank ring;
* `run_clear` — what was before a clear makes no difference to what comes after;
* `begins_anew` — all together.
-/

namespace MessagePipe

namespace Ring

variable {r : Ring} {g : Geometry} {s : Storage}

/-! ## Blank rings -/

/-- A ring that nothing was written into: all its bytes are zero, all its records are empty, and
the cursors are at slot 0. -/
def blank (g : Geometry) : Ring where
  toGeometry := g
  base := Bytes.zeros (g.capacity * g.dataSize)
  records := List.replicate g.capacity .empty
  head := 0
  tail := 0

/-- Nothing but the size of the storage matters once it is wiped. -/
theorem wiped_eq_blank (hb : s.base.length = g.capacity * g.dataSize)
    (hr : s.records.length = g.capacity) : wiped g s = blank g := by
  simp [wiped, Storage.cleared, blank, hb, hr]

theorem WellFormed.clear_eq (h : r.WellFormed) : r.clear = (r.count, blank r.toGeometry) := by
  rw [← wiped_eq_blank (s := r.toStorage) h.length_base h.length_records]
  rfl

end Ring

namespace Geometry.Admissible

variable {g : Geometry} {s : Storage}

theorem init_eq (h : g.Admissible) (hb : s.base.length = g.capacity * g.dataSize)
    (hr : s.records.length = g.capacity) :
    Ring.init g s = (.ok (.blank g), (Ring.blank g).toStorage) := by
  have hok : (Ring.init g s).1 = .ok (.blank g) :=
    Ring.init_eq_ok_iff.mpr ⟨h, hb, hr, (Ring.wiped_eq_blank hb hr).symm⟩
  exact Prod.ext hok (Ring.init_storage_of_ok hok)

theorem create_eq (h : g.Admissible) : Ring.create g = .ok (.blank g) :=
  Ring.create_eq_ok_iff.mpr
    ⟨h, (Ring.wiped_eq_blank (Bytes.length_zeros _) List.length_replicate).symm⟩

end Geometry.Admissible

namespace Ring

variable {r first : Ring} {g : Geometry} {s dirty : Storage}

/-! ## Before and after a clear -/

/-- Operations that follow others go on from the ring that those have left. -/
theorem run_append (r : Ring) (ops later : List Op) :
    r.run (ops ++ later) =
      ((r.run ops).1 ++ ((r.run ops).2.run later).1, ((r.run ops).2.run later).2) := by
  induction ops generalizing r with
  | nil => rfl
  | cons op ops ih => simp only [List.cons_append, run, ih]

/-- After a clear everything goes as in a blank ring. -/
theorem WellFormed.run_clear (h : r.WellFormed) (later : List Op) :
    r.run (.clear :: later) =
      (.cleared r.count :: ((blank r.toGeometry).run later).1,
        ((blank r.toGeometry).run later).2) := by
  simp only [Ring.run, Ring.step, h.clear_eq]

/-- As many messages are there as in a queue that was asked the same. -/
theorem count_run_init (h : (init g s).1 = .ok first) (ops : List Op) :
    (first.run ops).2.count = ((Queue.empty g).run ops).2.messages.length := by
  have hrun := toQueue_run (wellFormed_init h) ops
  rw [(init_eq_ok h).1, toQueue_wiped] at hrun
  rw [(init_eq_ok h).1, hrun, length_messages]

/-- How a ring begins anew that was set up as `first` and has gone through `past`, and how storage
does that was left `dirty` by somebody else. -/
structure BeginsAnew (g : Geometry) (first : Ring) (past : List Op) (dirty : Storage) : Prop where
  /-- A clear returns how many messages there are, as many as a queue holds after the same past;
  it leaves a blank ring. -/
  clear : (first.run past).2.clear = ((first.run past).2.count, blank g) ∧
    (first.run past).2.count = ((Queue.empty g).run past).2.messages.length
  /-- A ring over the dirty storage is blank, and so is the storage then; -/
  init : Ring.init g dirty = (.ok (blank g), (blank g).toStorage)
  /-- the same goes for the storage that this ring leaves, -/
  reuse : Ring.init g (first.run past).2.toStorage = (.ok (blank g), (blank g).toStorage)
  /-- and for a ring that allots its own. -/
  create : Ring.create g = .ok (blank g)
  /-- Whatever follows on a clear gets the replies, the buffers of its callers included, that it
  gets from a ring that was just set up, and leaves the same ring. -/
  later : ∀ fresh, (Ring.init g dirty).1 = .ok fresh ∨ Ring.create g = .ok fresh → ∀ ops,
    first.run (past ++ .clear :: ops) =
      ((first.run past).1 ++ .cleared (first.run past).2.count :: (fresh.run ops).1,
        (fresh.run ops).2)

/-- **A new beginning**: whatever has happened to a ring since it was set up, clearing it leaves
the ring, byte for byte and record for record, that is set up over any other storage of the right
size or over its own. No later operation can tell them apart. -/
theorem begins_anew (h : (init g s).1 = .ok first) (past : List Op)
    (hb : dirty.base.length = g.capacity * g.dataSize) (hr : dirty.records.length = g.capacity) :
    BeginsAnew g first past dirty := by
  have hg : g.Admissible := (init_eq_ok_iff.mp h).1
  have hreach : Reachable g (first.run past).2 := ⟨s, first, past, h, rfl⟩
  have hw := hreach.wellFormed
  have hshape := hreach.toGeometry
  have hclear := hw.clear_eq
  have hbase := hw.length_base
  have hrecords := hw.length_records
  rw [hshape] at hclear hbase hrecords
  exact {
    clear := ⟨hclear, count_run_init h past⟩
    init := hg.init_eq hb hr
    reuse := hg.init_eq hbase hrecords
    create := hg.create_eq
    later := by
      intro fresh hfresh ops
      have hblank : fresh = blank g := by
        cases hfresh with
        | inl hi =>
            have hinit := congrArg Prod.fst (hg.init_eq hb hr)
            exact (Except.ok.inj (hinit.symm.trans hi)).symm
        | inr hc => exact (Except.ok.inj (hg.create_eq.symm.trans hc)).symm
      rw [run_append, hw.run_clear, hshape, hblank] }

/-- Messages were taken, removed and written until the cursors met in the middle of a full ring;
the storage that is used anew is dirty, and its records are valid. -/
theorem begins_anew_full :
    ∃ first, (init ⟨3, 2⟩ (.fresh ⟨3, 2⟩ 6)).1 = .ok first ∧
      let past : List Op :=
        [.push [1] ⟨5, 6⟩ 10, .push [2, 3] ⟨5, 6⟩ 20, .push [] ⟨7, 8⟩ 30, .pop ⟨5, 6⟩ [0, 0],
          .sweep 25, .push [4, 5] ⟨5, 6⟩ 40, .push [9] ⟨7, 8⟩ 50]
      let dirty : Storage := ⟨List.replicate 6 170, List.replicate 3 ⟨77, ⟨88, 99⟩, 1, true⟩⟩
      (first.run past).2.head = 2 ∧ (first.run past).2.tail = 2 ∧ (first.run past).2.count = 3 ∧
        dirty.base.length = 6 ∧ dirty.records.length = 3 ∧ BeginsAnew ⟨3, 2⟩ first past dirty :=
  ⟨_, rfl, rfl, rfl, rfl, rfl, rfl, begins_anew (s := .fresh ⟨3, 2⟩ 6) rfl _ rfl rfl⟩

end Ring

end MessagePipe
