import MessagePipe.Proofs.Pipe.Pool

/-!
# MessagePipe.Proofs.Pipe.Invariant

What holds of a pipe and its threads at all times (`Pool.Sound`): the ring is
well-formed, each thread is where its call can be, and the two counters of the
pipe count exactly the threads that are parked or were woken and do not hold
the lock yet.
-/

namespace MessagePipe

/-- How many callers the pipe counts as waiting on a side. -/
def Pipe.waiting (p : Pipe) : Side → Nat
  | .readable => p.readersWaiting
  | .writable => p.writersWaiting

namespace Pipe

variable {p : Pipe}

theorem waiting_enroll (p : Pipe) (s side : Side) :
    (p.enroll s).waiting side = p.waiting side + if s = side then 1 else 0 := by
  cases s <;> cases side <;> rfl

theorem waiting_withdraw (p : Pipe) (s side : Side) :
    (p.withdraw s).waiting side = p.waiting side - if s = side then 1 else 0 := by
  cases s <;> cases side <;> rfl

/-- A look by itself counts nobody in or out. -/
theorem waiting_visit (p : Pipe) (m : Moment) (call : Call) (side : Side) :
    (p.visit m call).2.waiting side = p.waiting side := by
  cases call with
  | send sender data wait =>
      rw [visit_send]
      split
      · rfl
      · split
        · rfl
        · split <;> cases side <;> rfl
  | recv reader out wait =>
      rw [visit_recv]
      split
      · split <;> rfl
      · cases side <;> rfl
  | sweep => cases side <;> rfl
  | setExpiry caller expiry =>
      rw [visit_setExpiry]
      rcases p.setExpiry_cases caller expiry with ⟨e, hset⟩ | ⟨-, ms, -, hset⟩
      · rw [hset]
      · rw [hset]
        cases side <;> rfl
  | clear caller =>
      simp only [visit, clear]
      split <;> cases side <;> rfl
  | close => cases side <;> rfl

end Pipe

namespace Thread

variable {t : Thread}

/-- The calls that a thread can be at its place with. -/
def Consistent (t : Thread) : Prop :=
  match t.phase with
  | .primed _ => t.call = .sweep
  | .parked side | .woken side => side = t.call.side ∧ t.call.wait ≠ .never
  | .entering | .leaving _ _ => True

theorem loads_phase (h : t.loads = true) : t.call = .sweep ∧ t.phase = .entering := by
  obtain ⟨party, call, phase⟩ := t
  cases call <;> cases phase <;> first | exact ⟨rfl, rfl⟩ | contradiction

@[simp] theorem waits_wake (side s : Side) (t : Thread) : (t.wake s).waits side = t.waits side := by
  obtain ⟨party, call, phase⟩ := t
  cases phase with
  | parked s' => by_cases h : s' = s <;> simp [wake, waits, h]
  | _ => rfl

theorem Consistent.wake (h : t.Consistent) (s : Side) : (t.wake s).Consistent := by
  obtain ⟨party, call, phase⟩ := t
  cases phase with
  | parked s' =>
      by_cases hs : s' = s
      · simp only [Thread.wake, hs, if_true]
        simp only [Consistent, hs] at h
        exact h
      · simp only [Thread.wake, hs, if_false]
        exact h
  | _ => exact h

theorem waiting_resume (t : Thread) (p : Pipe) (side : Side) (hp : ∀ s, t.phase ≠ .parked s) :
    (t.resume p).waiting side = p.waiting side - if t.waits side then 1 else 0 := by
  obtain ⟨party, call, phase⟩ := t
  cases phase with
  | parked s => exact absurd rfl (hp s)
  | woken s =>
      simp only [resume, Pipe.waiting_withdraw, waits, decide_eq_true_eq]
  | _ => rfl

/-- A thread that takes the lock to look is counted no longer. -/
theorem waiting_look {p q : Pipe} {m : Moment} {answer : Option Reply}
    (h : t.look p m = some (answer, q)) (side : Side) :
    q.waiting side = p.waiting side - if t.waits side then 1 else 0 := by
  rcases look_cases h with ⟨hphase, hv⟩ | ⟨expiryMs, hphase, hs⟩
  · rw [show q = ((t.resume p).visit m t.call).2 from congrArg Prod.snd hv, Pipe.waiting_visit]
    refine waiting_resume t p side fun s hs => ?_
    rcases hphase with hp | ⟨s', hp⟩ <;> rw [hs] at hp <;> contradiction
  · rw [show q = (p.sweepReply expiryMs m.now).2 from congrArg Prod.snd hs]
    simp only [waits, hphase, Bool.false_eq_true, if_false, Nat.sub_zero]
    cases side <;> rfl

theorem waits_park (t : Thread) (side : Side) :
    t.park.waits side = decide (t.call.side = side) := rfl

theorem Consistent.park {p q : Pipe} {m : Moment} (h : t.look p m = some (none, q)) :
    t.park.Consistent := by
  obtain ⟨-, -, hw⟩ := look_none h
  refine ⟨rfl, fun hn => ?_⟩
  have hn : t.call.wait = .never := hn
  rw [hn] at hw
  contradiction

end Thread

namespace Pool

/-- What holds of a pipe and its threads at all times. -/
structure Sound (P : Pool) : Prop where
  ring : P.pipe.ring.WellFormed
  consistent : ∀ t ∈ P.crowd, t.Consistent
  waiting : ∀ side, P.pipe.waiting side = P.crowd.countP fun t => t.waits side

theorem countP_wake (s side : Side) (others : Multiset Thread) :
    (others.map (Thread.wake s)).countP (fun t => t.waits side) =
      others.countP fun t => t.waits side := by
  rw [Multiset.countP_map, Multiset.countP_eq_card_filter]
  simp only [Thread.waits_wake]

variable {m : Moment} {before after : Pool} {v : Option Visit}

/-- One thread goes on, and the pipe keeps count of it. -/
theorem Sound.replace {p q : Pipe} {t u : Thread} {others : Multiset Thread}
    (h : Sound ⟨p, t ::ₘ others⟩) (hring : q.ring.WellFormed) (hu : u.Consistent)
    (hw : ∀ side, q.waiting side =
      p.waiting side - (if t.waits side then 1 else 0) + if u.waits side then 1 else 0) :
    Sound ⟨q, u ::ₘ others⟩ := by
  constructor
  · exact hring
  · rw [Multiset.forall_mem_cons]
    exact ⟨hu, fun x hx => h.consistent x (Multiset.mem_cons_of_mem hx)⟩
  · intro side
    have hp := h.waiting side
    have hq := hw side
    rw [Multiset.countP_cons] at hp ⊢
    dsimp only at hp ⊢
    omega

theorem Sound.due (h : before.Sound) (hd : Due m before v after) : after.Sound := by
  have hring := h.ring
  cases hd with
  | @load p t others hl =>
      obtain ⟨hcall, hphase⟩ := Thread.loads_phase hl
      exact h.replace hring hcall fun side => by simp [Thread.waits, hphase]
  | @answer p q t others reply hl =>
      refine h.replace (Thread.wellFormed_look hring hl) trivial fun side => ?_
      rw [Thread.waiting_look hl side]
      rfl
  | @park p q t others hl =>
      refine h.replace ?_ (.park hl) fun side => ?_
      · rw [Pipe.ring_enroll]
        exact Thread.wellFormed_look hring hl
      · rw [Pipe.waiting_enroll, Thread.waiting_look hl side, Thread.waits_park]
        simp only [decide_eq_true_eq]
  | @signal p t others side owed reply hphase =>
      constructor
      · exact hring
      · rw [Multiset.forall_mem_cons]
        refine ⟨trivial, fun u hu => ?_⟩
        obtain ⟨u', hu', rfl⟩ := Multiset.mem_map.mp hu
        exact (h.consistent u' (Multiset.mem_cons_of_mem hu')).wake side
      · intro s
        have hw := h.waiting s
        rw [Multiset.countP_cons] at hw ⊢
        rw [countP_wake]
        simpa [Thread.waits, hphase] using hw

/-- Whatever happens keeps the invariant. -/
theorem Sound.step (h : before.Sound) (hs : Step before v after) : after.Sound := by
  cases hs with
  | due hd => exact h.due hd
  | @start p others party call =>
      constructor
      · exact h.ring
      · rw [Multiset.forall_mem_cons]
        exact ⟨trivial, h.consistent⟩
      · intro side
        rw [Multiset.countP_cons]
        exact h.waiting side
  | @rouse p t others side hphase =>
      have ht := h.consistent t (Multiset.mem_cons_self t others)
      simp only [Thread.Consistent, hphase] at ht
      refine h.replace h.ring ht fun s => ?_
      have hw := h.waiting s
      rw [Multiset.countP_cons] at hw
      simp only [Thread.waits, hphase, decide_eq_true_eq] at hw ⊢
      omega

end Pool

/-! ## From the start -/

/-- What a new pipe is made of. -/
theorem Pipe.create_eq_ok_iff {c : PipeConfig} {p : Pipe} :
    Pipe.create c = .ok p ↔ c.geometry.Admissible ∧ ∃ ms, expiryMillis c.expiry = .ok ms ∧
      p = ⟨.wiped c.geometry (.fresh c.geometry (c.geometry.capacity * c.geometry.dataSize)), ms,
        false, 0, 0⟩ := by
  unfold create PipeConfig.validate
  rcases c.geometry.validate_cases with ⟨hv, hg⟩ | ⟨reason, hv, hg⟩
  · rw [hv, Ring.create_eq_ok_iff.mpr ⟨hg, rfl⟩]
    cases he : expiryMillis c.expiry with
    | error e =>
        refine ⟨fun h => ?_, fun ⟨_, _, hms, _⟩ => by contradiction⟩
        split at h <;> contradiction
    | ok ms =>
        have hpos := (expiryMillis_eq_ok_iff.mp he).1
        have hz : c.expiry.isZero = false := by
          unfold Duration.wholeMillis at hpos
          simp only [Duration.isZero, beq_eq_false_iff_ne]
          omega
        rw [hz]
        exact ⟨fun h => ⟨hg, ms, rfl, (Except.ok.inj h).symm⟩,
          fun ⟨_, ms', hms, hp⟩ => by cases hms; rw [hp]; rfl⟩
  · rw [hv]
    exact ⟨fun h => by contradiction, fun h => absurd h.1 hg⟩

/-- A new pipe is open, over a ring that was just set up, and nobody waits. -/
theorem Pipe.create_eq_ok {c : PipeConfig} {p : Pipe} (h : Pipe.create c = .ok p) :
    ∃ s, (Ring.init c.geometry s).1 = .ok p.ring ∧ p.closed = false ∧
      ∀ side, p.waiting side = 0 := by
  obtain ⟨hg, ms, -, rfl⟩ := Pipe.create_eq_ok_iff.mp h
  exact ⟨_, Ring.init_fresh hg, rfl, fun side => by cases side <;> rfl⟩

/-- A new pipe that nobody works on. -/
theorem Pool.sound_create {c : PipeConfig} {p : Pipe} (h : Pipe.create c = .ok p) :
    Sound ⟨p, 0⟩ := by
  obtain ⟨s, hinit, -, hwait⟩ := Pipe.create_eq_ok h
  exact ⟨Ring.wellFormed_init hinit, fun t ht => absurd ht (Multiset.notMem_zero t), hwait⟩

theorem World.Reachable.sound {c : PipeConfig} {w : World} (h : w.Reachable c) : w.pool.Sound :=
  h.invariant (fun P _ => P.Sound) (fun _ hp => Pool.sound_create hp) fun hs hstep => hs.step hstep

theorem World.Reachable.consistent {c : PipeConfig} {w : World} (h : w.Reachable c) {i : Nat}
    {t : Thread} (ht : w.threads[i]? = some t) : t.Consistent :=
  h.sound.consistent t (Multiset.mem_coe.mpr (List.mem_of_getElem? ht))

end MessagePipe
