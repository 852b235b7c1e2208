import MessagePipe.Ring.Basic

/-!
# MessagePipe.Proofs.Ring.Setup

When a ring can be set up.  The rules for its shape are written down twice: a
configuration is checked before anything is allotted, and a ring checks its
shape once more when it is handed its storage.  Both checks accept the same
shapes, those that are `Geometry.Admissible`, and refuse any other for the same
reason.

* `validate_eq_ok_iff` — which shapes are accepted;
* `init_eq` — a ring over given storage checks its shape in the same way, and
  then the sizes of the two regions;
* `init_storage_of_error`, `init_storage_of_ok` — the storage is wiped only if
  nothing was wrong with it;
* `create_eq` — storage that a ring allots for itself has the right sizes, so
  that nothing but the shape can be wrong;
* `Geometry.checks_agree` — all together.
-/

namespace MessagePipe

/-! ## Shapes -/

/-- The shapes that a ring can have. -/
structure Geometry.Admissible (g : Geometry) : Prop where
  capacity_pos : 0 < g.capacity
  dataSize_pos : 0 < g.dataSize
  dataSize_le : g.dataSize ≤ maxDataSize
  payload_lt : g.capacity * g.dataSize < wordLimit

namespace Geometry

variable {g : Geometry}

/-- Slots are counted in words. -/
theorem Admissible.capacity_lt (h : g.Admissible) : g.capacity < wordLimit :=
  Nat.lt_of_le_of_lt (Nat.le_mul_of_pos_right _ h.dataSize_pos) h.payload_lt

theorem Admissible.payloadBytes?_eq (h : g.Admissible) :
    g.payloadBytes? = some (g.capacity * g.dataSize) :=
  if_pos h.payload_lt

theorem payloadBytes?_eq_none_iff : g.payloadBytes? = none ↔ wordLimit ≤ g.capacity * g.dataSize := by
  simp [payloadBytes?]

/-- A shape that is not accepted is an invalid argument. -/
theorem validate_cases (g : Geometry) :
    (g.validate = .ok () ∧ g.Admissible) ∨
      ∃ reason, g.validate = .error (.invalidArgument reason) ∧ ¬ g.Admissible := by
  unfold validate
  split
  · next hc => exact .inr ⟨_, rfl, fun h => Nat.ne_of_gt h.capacity_pos hc⟩
  next hc =>
  split
  · next hd => exact .inr ⟨_, rfl, fun h => Nat.ne_of_gt h.dataSize_pos hd⟩
  next hd =>
  split
  · next hl => exact .inr ⟨_, rfl, fun h => Nat.not_lt.mpr h.dataSize_le hl⟩
  next hl =>
  split
  · next hp =>
      rw [payloadBytes?_eq_none_iff] at hp
      exact .inr ⟨_, rfl, fun h => Nat.not_le.mpr h.payload_lt hp⟩
  · next hp =>
      rw [payloadBytes?_eq_none_iff] at hp
      exact .inl ⟨rfl, by omega, by omega, by omega, by omega⟩

theorem validate_eq_ok_iff : g.validate = .ok () ↔ g.Admissible := by
  rcases g.validate_cases with ⟨hv, h⟩ | ⟨reason, hv, h⟩
  · exact ⟨fun _ => h, fun _ => hv⟩
  · rw [hv]
    exact ⟨fun hok => by contradiction, fun hg => absurd hg h⟩

end Geometry

namespace Ring

variable {g : Geometry} {r : Ring}

/-- A ring over storage that was wiped. -/
def wiped (g : Geometry) (s : Storage) : Ring :=
  { toGeometry := g, toStorage := s.cleared, head := 0, tail := 0 }

/-! ## Rings -/

/-- A ring first checks its shape as any configuration does, and then its storage. -/
theorem init_eq (g : Geometry) (s : Storage) :
    (init g s).1 = (do
      g.validate
      if s.base.length ≠ g.capacity * g.dataSize then .error (.invalidArgument .payloadMismatch)
      else if s.records.length ≠ g.capacity then .error (.invalidArgument .recordMismatch)
      else .ok (wiped g s)) := by
  unfold init Geometry.validate
  split
  · rfl
  split
  · rfl
  split
  · rfl
  by_cases hp : g.capacity * g.dataSize < wordLimit
  · rw [show g.payloadBytes? = some (g.capacity * g.dataSize) from if_pos hp]
    dsimp only
    split
    · rfl
    split <;> rfl
  · rw [show g.payloadBytes? = none from if_neg hp]
    rfl

theorem init_eq_ok_iff {s : Storage} :
    (init g s).1 = .ok r ↔ g.Admissible ∧ s.base.length = g.capacity * g.dataSize ∧
      s.records.length = g.capacity ∧ r = wiped g s := by
  rw [init_eq]
  rcases g.validate_cases with ⟨hv, hg⟩ | ⟨reason, hv, hg⟩
  · rw [hv]
    show (if s.base.length ≠ g.capacity * g.dataSize then _ else _) = _ ↔ _
    split
    · next hb => exact ⟨fun h => by contradiction, fun h => absurd h.2.1 hb⟩
    next hb =>
    split
    · next hr => exact ⟨fun h => by contradiction, fun h => absurd h.2.2.1 hr⟩
    · next hr =>
        have hb := Decidable.not_not.mp hb
        have hr := Decidable.not_not.mp hr
        exact ⟨fun h => ⟨hg, hb, hr, (Except.ok.inj h).symm⟩, fun h => by rw [h.2.2.2]⟩
  · rw [hv]
    exact ⟨fun h => by contradiction, fun h => absurd h.1 hg⟩

/-- Storage is returned as it was, or as the ring has it that was set up on it. -/
theorem init_storage (g : Geometry) (s : Storage) :
    (init g s).2 = match (init g s).1 with | .ok r => r.toStorage | .error _ => s := by
  unfold init
  split
  · rfl
  split
  · rfl
  split
  · rfl
  split
  · rfl
  split
  · rfl
  split <;> rfl

theorem init_storage_of_error {s : Storage} {e : RingError} (h : (init g s).1 = .error e) :
    (init g s).2 = s := by
  rw [init_storage, h]

theorem init_storage_of_ok {s : Storage} (h : (init g s).1 = .ok r) :
    (init g s).2 = r.toStorage := by
  rw [init_storage, h]

/-- Storage that is allotted for a shape has the right size. -/
theorem init_fresh (h : g.Admissible) :
    (init g (.fresh g (g.capacity * g.dataSize))).1 =
      .ok (wiped g (.fresh g (g.capacity * g.dataSize))) :=
  init_eq_ok_iff.mpr ⟨h, Bytes.length_zeros _, List.length_replicate, rfl⟩

/-- A ring over storage of its own can be had for every shape that is accepted. -/
theorem create_eq (g : Geometry) :
    create g = (do
      g.validate
      .ok (wiped g (.fresh g (g.capacity * g.dataSize)))) := by
  unfold create
  rcases g.validate_cases with ⟨hv, hg⟩ | ⟨reason, hv, -⟩
  · rw [hv, hg.payloadBytes?_eq, ← init_fresh hg]
  · rw [hv]
    rfl

theorem create_eq_ok_iff :
    create g = .ok r ↔ g.Admissible ∧ r = wiped g (.fresh g (g.capacity * g.dataSize)) := by
  rw [create_eq]
  rcases g.validate_cases with ⟨hv, hg⟩ | ⟨reason, hv, hg⟩
  · rw [hv]
    exact ⟨fun h => ⟨hg, (Except.ok.inj h).symm⟩, fun h => by rw [h.2]; rfl⟩
  · rw [hv]
    exact ⟨fun h => by contradiction, fun h => absurd h.1 hg⟩

end Ring

/-- Storage that no ring could be set up on is given back as it was lent. -/
theorem Storage.lend_snd_of_error {α : Type} {s : Storage} {g : Geometry} {use : Ring → α × Ring}
    {e : RingError} (h : (s.lend g use).1 = .error e) : (s.lend g use).2 = s := by
  have hstorage := Ring.init_storage g s
  unfold lend at h ⊢
  generalize Ring.init g s = found at h hstorage ⊢
  obtain ⟨result, lent⟩ := found
  cases result with
  | error e' => exact hstorage
  | ok r => contradiction

/-! ## All together -/

/-- What comes of a shape wherever it is checked. -/
structure Geometry.ChecksAgree (g : Geometry) : Prop where
  validate : g.validate = .ok () ↔ g.Admissible
  create : (∃ r, Ring.create g = .ok r) ↔ g.Admissible
  /-- A shape that a ring cannot have is refused everywhere for one reason, whatever storage is
  given for it, and the storage is given back as it was. -/
  refused : ¬ g.Admissible → ∃ reason, g.validate = .error (.invalidArgument reason) ∧
    Ring.create g = .error (.invalidArgument reason) ∧
    ∀ s, Ring.init g s = (.error (.invalidArgument reason), s)
  /-- Once a shape is accepted, the size of its payload region is known, and storage of the right
  sizes passes all checks. -/
  passes : g.validate = .ok () → ∃ payloadBytes, g.payloadBytes? = some payloadBytes ∧
    ∃ r, (Ring.init g (.fresh g payloadBytes)).1 = .ok r
  /-- Given storage is accepted if the shape is, and both regions have the size for it. -/
  init : ∀ s, (∃ r, (Ring.init g s).1 = .ok r) ↔
    g.validate = .ok () ∧ s.base.length = g.capacity * g.dataSize ∧ s.records.length = g.capacity

/-- **One set of rules**: the check of a configuration, the creation of a ring and its setting up
over given storage accept the same shapes, and refuse the others for the same reason. -/
theorem Geometry.checks_agree (g : Geometry) : g.ChecksAgree where
  validate := validate_eq_ok_iff
  create := ⟨fun ⟨_, h⟩ => (Ring.create_eq_ok_iff.mp h).1,
    fun hg => ⟨_, Ring.create_eq_ok_iff.mpr ⟨hg, rfl⟩⟩⟩
  refused hg := by
    rcases g.validate_cases with ⟨-, hg'⟩ | ⟨reason, hv, -⟩
    · exact absurd hg' hg
    · refine ⟨reason, hv, ?_, fun s => ?_⟩
      · rw [Ring.create_eq, hv]; rfl
      · have herror : (Ring.init g s).1 = .error (.invalidArgument reason) := by
          rw [Ring.init_eq, hv]; rfl
        exact Prod.ext herror (Ring.init_storage_of_error herror)
  passes hv :=
    have hg := validate_eq_ok_iff.mp hv
    ⟨_, hg.payloadBytes?_eq, _, Ring.init_fresh hg⟩
  init s := by
    rw [validate_eq_ok_iff]
    constructor
    · rintro ⟨r, h⟩
      obtain ⟨hg, hb, hr, -⟩ := Ring.init_eq_ok_iff.mp h
      exact ⟨hg, hb, hr⟩
    · rintro ⟨hg, hb, hr⟩
      exact ⟨_, Ring.init_eq_ok_iff.mpr ⟨hg, hb, hr, rfl⟩⟩

/-- Of two faults the first counts, here as there. -/
example (s : Storage) : Geometry.validate ⟨0, 70000⟩ = .error (.invalidArgument .zeroCapacity) ∧
    Ring.init ⟨0, 70000⟩ s = (.error (.invalidArgument .zeroCapacity), s) := ⟨rfl, rfl⟩

end MessagePipe
