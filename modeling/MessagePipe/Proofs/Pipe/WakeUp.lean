import MessagePipe.Proofs.Pipe.Invariant

/-!
# MessagePipe.Proofs.Pipe.WakeUp

No wake-up is lost.  A thread that is parked although its side is ready has
been seen: some other call still owes that side a signal (`Pool.Covered`).  A
look can make a side ready only if it goes on to owe it a signal, a thread
parks only while its side is not ready, and a signal leaves nobody parked on
its side.  When all threads are at rest nothing is owed any more, and whoever
is parked then waits for good reason (`World.Reachable.wakeUp_owed`).
-/

namespace MessagePipe

/-- The thread still has to wake those who are parked on a side. -/
def Thread.Owes (t : Thread) (side : Side) : Prop :=
  match t.phase with
  | .leaving owed _ => side ∈ owed
  | _ => False

/-- Every thread has returned or is parked, and nobody has anybody to wake. -/
def World.Quiet (w : World) : Prop :=
  ∀ t ∈ w.threads, (∃ side, t.phase = .parked side) ∨ ∃ reply, t.phase = .leaving [] reply

namespace Pool

/-- If a thread is parked on a side that is ready, some call owes that side a signal. -/
def Covered (P : Pool) (side : Side) : Prop :=
  (∃ t ∈ P.crowd, t.phase = .parked side) → P.pipe.ready side = true →
    ∃ t ∈ P.crowd, t.Owes side

/-! ## One thread goes on -/

/-- A thread that wants the lock has decided nothing yet, so it owes nothing. -/
theorem not_owes_of_look {t : Thread} {p : Pipe} {m : Moment} {found : Option Reply × Pipe}
    (h : t.look p m = some found) (side : Side) : ¬ t.Owes side := by
  obtain ⟨party, call, phase⟩ := t
  cases phase with
  | leaving owed reply => contradiction
  | _ => exact id

/-- One thread goes on and is not parked then; if it made the side ready it owes a signal. -/
theorem Covered.replace {p q : Pipe} {t u : Thread} {others : Multiset Thread} {side : Side}
    (h : Covered ⟨p, t ::ₘ others⟩ side) (ht : ¬ t.Owes side) (hu : u.phase ≠ .parked side)
    (hr : q.ready side = true → p.ready side = true ∨ u.Owes side) :
    Covered ⟨q, u ::ₘ others⟩ side := by
  intro hparked hready
  simp only [Multiset.mem_cons, exists_eq_or_imp] at hparked ⊢
  rcases hparked with hp | ⟨x, hx, hp⟩
  · exact absurd hp hu
  cases hr hready with
  | inl hready =>
      obtain ⟨y, hy, ho⟩ := h ⟨x, Multiset.mem_cons_of_mem hx, hp⟩ hready
      rcases Multiset.mem_cons.mp hy with rfl | hy
      · exact absurd ho ht
      · exact .inr ⟨y, hy, ho⟩
  | inr howed =>
      exact .inl howed

/-! ## Signals -/

/-- A signal leaves nobody parked on its side. -/
theorem not_parked_wake (side : Side) (t : Thread) : (t.wake side).phase ≠ .parked side := by
  obtain ⟨party, call, phase⟩ := t
  cases phase with
  | parked s => by_cases h : s = side <;> simp [Thread.wake, h]
  | _ => exact fun h => by contradiction

/-- Nobody is parked after a signal who was not before. -/
theorem parked_of_wake {side s : Side} {t : Thread} (h : (t.wake s).phase = .parked side) :
    t.phase = .parked side := by
  obtain ⟨party, call, phase⟩ := t
  cases phase with
  | parked s' =>
      by_cases hs : s' = s
      · simp [Thread.wake, hs] at h
      · simpa [Thread.wake, hs] using h
  | _ => exact h

theorem owes_wake {side s : Side} {t : Thread} (h : t.Owes side) : (t.wake s).Owes side := by
  obtain ⟨party, call, phase⟩ := t
  cases phase with
  | parked s' => exact h.elim
  | _ => exact h

/-- A signal that one thread gives is no longer owed, but then nobody needs it. -/
theorem Covered.signal {p : Pipe} {t : Thread} {others : Multiset Thread} {side s : Side}
    {owed : List Side} {reply : Reply} (h : Covered ⟨p, t ::ₘ others⟩ side)
    (hphase : t.phase = .leaving (s :: owed) reply) :
    Covered ⟨p, { t with phase := .leaving owed reply } ::ₘ others.map (Thread.wake s)⟩ side := by
  intro hparked hready
  simp only [Multiset.mem_cons, exists_eq_or_imp] at hparked ⊢
  rcases hparked with hp | ⟨x, hx, hp⟩
  · contradiction
  obtain ⟨x, hx', rfl⟩ := Multiset.mem_map.mp hx
  obtain ⟨y, hy, ho⟩ := h ⟨x, Multiset.mem_cons_of_mem hx', parked_of_wake hp⟩ hready
  rcases Multiset.mem_cons.mp hy with rfl | hy
  · left
    simp only [Thread.Owes, hphase, List.mem_cons] at ho
    rcases ho with rfl | ho
    · exact absurd hp (not_parked_wake side x)
    · exact ho
  · exact .inr ⟨y.wake s, Multiset.mem_map_of_mem _ hy, owes_wake ho⟩

/-! ## Whatever happens -/

theorem Covered.step {before after : Pool} {v : Option Visit} (hsound : before.Sound) {side : Side}
    (h : before.Covered side) (hs : Step before v after) : after.Covered side := by
  have hring := hsound.ring
  cases hs with
  | @start p others party call =>
      intro hparked hready
      simp only [Multiset.mem_cons, exists_eq_or_imp] at hparked ⊢
      cases hparked with
      | inl hp =>
          contradiction
      | inr hparked =>
          exact .inr (h hparked hready)
  | @rouse p t others s hphase =>
      refine h.replace (fun ho => ?_) (fun hp => by contradiction) .inl
      simp only [Thread.Owes, hphase] at ho
  | @due m _ _ _ hd =>
      cases hd with
      | @load p t others hl =>
          refine h.replace (fun ho => ?_) (fun hp => by contradiction) .inl
          simp only [Thread.Owes, (Thread.loads_phase hl).2] at ho
      | @answer p q t others reply hl =>
          exact h.replace (not_owes_of_look hl side) (fun hp => by contradiction)
            (Thread.ready_look hring hl)
      | @park p q t others hl =>
          obtain ⟨rfl, hnot, -⟩ := Thread.look_none hl
          have hready : ((t.resume p).enroll t.call.side).ready side = p.ready side :=
            Pipe.ready_congr (by simp) (by simp) side
          by_cases he : t.call.side = side
          · -- it parks only because this very side is not ready
            subst he
            intro _ hr
            rw [show Pipe.ready _ _ = _ from hready, hnot] at hr
            contradiction
          · exact h.replace (not_owes_of_look hl side)
              (fun hp => he (Phase.parked.inj hp)) fun hr => .inl (hready ▸ hr)
      | @signal p t others s owed reply hphase => exact h.signal hphase

end Pool

/-! ## Readiness, counted -/

theorem Pipe.ready_readable_iff {p : Pipe} (h : p.ring.WellFormed) :
    p.ready .readable = true ↔ 0 < p.ring.count ∨ p.closed = true := by
  have he := h.isEmpty_iff
  unfold ready
  cases hb : p.ring.isEmpty
  · simp only [hb, Bool.false_eq_true, false_iff] at he
    simp only [Bool.not_false, Bool.true_or, true_iff]; omega
  · simp only [hb, true_iff] at he
    simp only [Bool.not_true, Bool.false_or, he, Nat.lt_irrefl, false_or]

theorem Pipe.ready_writable_iff {p : Pipe} (h : p.ring.WellFormed) :
    p.ready .writable = true ↔ p.ring.count < p.ring.capacity ∨ p.closed = true := by
  have hf := h.isFull_iff
  unfold ready
  cases hb : p.ring.isFull
  · simp only [Bool.not_false, Bool.true_or, true_iff]
    exact .inl (h.count_lt hb)
  · simp only [hb, true_iff] at hf
    simp only [Bool.not_true, Bool.false_or, hf, Nat.lt_irrefl, false_or]

namespace World

variable {c : PipeConfig} {w : World}

theorem Reachable.covered (h : w.Reachable c) (side : Side) : w.pool.Covered side := by
  refine (h.invariant (fun P _ => P.Sound ∧ ∀ side, P.Covered side) (fun p hp => ?_) ?_).2 side
  · refine ⟨Pool.sound_create hp, fun side hparked => ?_⟩
    obtain ⟨t, ht, -⟩ := hparked
    exact absurd ht (Multiset.notMem_zero t)
  · intro before after v history hinv hs
    exact ⟨hinv.1.step hs, fun side => (hinv.2 side).step hinv.1 hs⟩

/-- Nothing is owed in a world at rest. -/
theorem Quiet.not_owes (h : w.Quiet) {t : Thread} (ht : t ∈ w.threads) (side : Side) :
    ¬ t.Owes side := by
  unfold Thread.Owes
  rcases h t ht with ⟨s, hp⟩ | ⟨reply, hp⟩ <;> rw [hp]
  · exact id
  · exact List.not_mem_nil

/-- Whoever is parked in a world at rest is parked on a side that is not ready. -/
theorem Reachable.not_ready (h : w.Reachable c) (hq : w.Quiet) {t : Thread} (ht : t ∈ w.threads)
    {side : Side} (hp : t.phase = .parked side) : ¬ w.pipe.ready side = true := by
  intro hready
  obtain ⟨u, hu, ho⟩ := h.covered side ⟨t, ht, hp⟩ hready
  exact hq.not_owes hu side ho

/-- **No lost wake-up**: as long as a reader is parked although there is a message or the pipe
is closed, or a writer although there is room or the pipe is closed, some call still has to
wake that side. Hence, when all is at rest, readers are parked only on an empty open pipe and
writers only on a full open one, and never both. -/
theorem Reachable.wakeUp_owed (h : w.Reachable c) :
    (∀ t ∈ w.threads, t.phase = .parked .readable →
      0 < w.pipe.ring.count ∨ w.pipe.closed = true → ∃ u ∈ w.threads, u.Owes .readable) ∧
    (∀ t ∈ w.threads, t.phase = .parked .writable →
      w.pipe.ring.count < w.pipe.ring.capacity ∨ w.pipe.closed = true →
        ∃ u ∈ w.threads, u.Owes .writable) ∧
    (w.Quiet →
      (∀ t ∈ w.threads, t.phase = .parked .readable →
        w.pipe.ring.count = 0 ∧ w.pipe.closed = false) ∧
      (∀ t ∈ w.threads, t.phase = .parked .writable →
        w.pipe.ring.count = w.pipe.ring.capacity ∧ w.pipe.closed = false) ∧
      ∀ t ∈ w.threads, ∀ u ∈ w.threads,
        t.phase = .parked .readable → u.phase ≠ .parked .writable) := by
  have hring : w.pipe.ring.WellFormed := h.sound.ring
  have hreadable := Pipe.ready_readable_iff hring
  have hwritable := Pipe.ready_writable_iff hring
  refine ⟨fun t ht hp hr => ?_, fun t ht hp hr => ?_, fun hq => ?_⟩
  · exact h.covered .readable ⟨t, ht, hp⟩ (hreadable.mpr hr)
  · exact h.covered .writable ⟨t, ht, hp⟩ (hwritable.mpr hr)
  · have hempty : ∀ t ∈ w.threads, t.phase = .parked .readable →
        w.pipe.ring.count = 0 ∧ w.pipe.closed = false := by
      intro t ht hp
      have hn := h.not_ready hq ht hp
      rw [hreadable, not_or] at hn
      exact ⟨by omega, by simpa using hn.2⟩
    have hfull : ∀ t ∈ w.threads, t.phase = .parked .writable →
        w.pipe.ring.count = w.pipe.ring.capacity ∧ w.pipe.closed = false := by
      intro t ht hp
      have hn := h.not_ready hq ht hp
      rw [hwritable, not_or] at hn
      have hle := hring.count_le
      exact ⟨by omega, by simpa using hn.2⟩
    refine ⟨hempty, hfull, fun t ht u hu hp hp' => ?_⟩
    have hzero := (hempty t ht hp).1
    have hcap := (hfull u hu hp').1
    have hpos := hring.capacity_pos
    omega

/-- A reader parks, and a message is sent that it has not been woken for yet. -/
theorem wakeUp_owed_sent :
    let c : PipeConfig := ⟨⟨1, 4⟩, .ofMillis 5⟩
    ∃ w : World, w.Reachable c ∧ (∃ t ∈ w.threads, t.phase = .parked .readable) ∧
      0 < w.pipe.ring.count ∧ ∃ u ∈ w.threads, u.Owes .readable := by
  let moves : List Move :=
    [.start none (.recv ⟨1, 1⟩ [0, 0] .forever), .lock 0 ⟨7, false⟩,
      .start none (.send ⟨1, 1⟩ [9] .forever), .lock 1 ⟨8, false⟩]
  have hreach : ∃ w : World, w.Reachable ⟨⟨1, 4⟩, .ofMillis 5⟩ ∧
      w.threads[0]?.map Thread.phase = some (.parked .readable) ∧ w.pipe.ring.count = 1 :=
    ⟨_, ⟨_, moves, rfl, rfl⟩, rfl, rfl⟩
  obtain ⟨w, hw, ht, hc⟩ := hreach
  obtain ⟨t, ht, hp⟩ := Option.map_eq_some_iff.mp ht
  have hmem := List.mem_of_getElem? ht
  refine ⟨w, hw, ⟨t, hmem, hp⟩, by omega, ?_⟩
  exact hw.wakeUp_owed.1 t hmem hp (.inl (by omega))

end World

end MessagePipe
