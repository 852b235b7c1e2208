import MessagePipe.Proofs.Pipe.Meet
import MessagePipe.Proofs.Pipe.WakeUp

/-!
# MessagePipe.Proofs.Pipe.Confluence

Groups of callers come to rest in one way only.  A world is at rest, those who
are parked on one side are alike, and one thing more happens: a group starts to
send or to receive on a side where nobody is parked, or somebody makes a call
that does not wait (`World.Further`).  Then the threads go on, in whatever
order, only so often, and when they are at rest again the pipe, the number of
those parked, and what was returned do not depend on the order
(`Reachable.confluent`).

All this is shown of bare threads; what follows first is that threads go on as
their bare pictures do (`Goes.turn`), and rest when these do.
-/

namespace MessagePipe

open Relation

/-- Calls that differ at most in what their buffers hold. -/
def Call.Alike (a b : Call) : Prop := a.bare = b.bare

/-- Whether the thread is parked on a side. -/
def Thread.parkedOn (side : Side) (t : Thread) : Bool :=
  match t.phase with
  | .parked s => decide (s = side)
  | _ => false

namespace World

/-- A thread does what is due for it. -/
def Goes (m : Moment) (w w' : World) : Prop :=
  ∃ (i : Nat) (t : Thread) (move : Move),
    w.threads[i]? = some t ∧ t.due i m = some move ∧ w.step move = some w'

/-- Those who are parked on one side are of one party and alike. -/
def Grouped (w : World) : Prop :=
  ∀ t ∈ w.threads, ∀ u ∈ w.threads, ∀ side, t.phase = .parked side → u.phase = .parked side →
    t.party = u.party ∧ t.call.Alike u.call

/-- One thing more happens: a group of callers that are ready to wait starts on a side where
nobody is parked, or one caller starts that is not. -/
inductive Further (w : World) : World → Prop
  | group {party : Option Nat} {calls : List Call} {w' : World}
      (hwait : ∀ call ∈ calls, call.wait ≠ .never)
      (halike : ∀ a ∈ calls, ∀ b ∈ calls, a.Alike b)
      (hfree : ∀ call ∈ calls, ∀ t ∈ w.threads, t.phase ≠ .parked call.side)
      (h : w.run (calls.map (Move.start party)) = some w') : Further w w'
  | single {party : Option Nat} {call : Call} {w' : World} (hwait : call.wait = .never)
      (h : w.step (.start party call) = some w') : Further w w'

/-- How many threads are parked on a side. -/
def parked (w : World) (side : Side) : Nat := w.threads.countP (Thread.parkedOn side)

/-- What was returned to whom, without what buffers held before. -/
def outcomes (w : World) : List (Option Nat × Reply) :=
  w.results.map fun (party, reply) => (party, reply.bare)

variable {w w' w₁ w₂ : World} {m : Moment} {c : PipeConfig}

/-! ## Going on, seen bare -/

theorem due_of_goes (h : w.Goes m w') : ∃ v, Pool.Due m w.pool v w'.pool := by
  obtain ⟨i, ⟨party, call, phase⟩, move, -, hdue, hstep⟩ := h
  cases phase with
  | entering =>
      simp only [Thread.due] at hdue
      split at hdue
      · obtain rfl := Option.some.inj hdue
        exact ⟨none, (pool_load m hstep).1⟩
      · obtain rfl := Option.some.inj hdue
        obtain ⟨v, hd, -⟩ := pool_lock hstep
        exact ⟨v, hd⟩
  | primed expiryMs | woken side =>
      obtain rfl := Option.some.inj hdue
      obtain ⟨v, hd, -⟩ := pool_lock hstep
      exact ⟨v, hd⟩
  | parked side => contradiction
  | leaving owed reply =>
      cases owed with
      | nil => contradiction
      | cons side owed =>
          obtain rfl := Option.some.inj hdue
          exact ⟨none, (pool_signal m hstep).1⟩

theorem Goes.turn (hs : w.pool.Sound) (h : w.Goes m w') :
    w'.pool.Sound ∧ Pool.Turn m w.pool.bare w'.pool.bare := by
  obtain ⟨v, hd⟩ := due_of_goes h
  exact ⟨hs.due hd, Pool.turn_of_due hs hd⟩

theorem turns_of_goes (hs : w.pool.Sound) (h : ReflTransGen (Goes m) w w') :
    w'.pool.Sound ∧ ReflTransGen (Pool.Turn m) w.pool.bare w'.pool.bare := by
  induction h with
  | refl => exact ⟨hs, .refl⟩
  | tail _ hgoes ih =>
      obtain ⟨hs', hturn⟩ := hgoes.turn ih.1
      exact ⟨hs', ih.2.tail hturn⟩

/-- Threads go on only so often. -/
theorem not_goes_forever (m : Moment) (f : ℕ → World) (hs : (f 0).pool.Sound) :
    ¬ ∀ k, (f k).Goes m (f (k + 1)) := by
  intro hall
  generalize hP : (f 0).pool.bare = P
  have hacc := Pool.acc_turn m P
  induction hacc generalizing f with
  | intro P _ ih =>
      subst hP
      obtain ⟨hs', hturn⟩ := (hall 0).turn hs
      exact ih _ hturn (fun k => f (k + 1)) hs' (fun k => hall (k + 1)) rfl

/-! ## Rest -/

theorem step_of_due {i : Nat} {t : Thread} {move : Move} (hi : w.threads[i]? = some t)
    (h : t.due i m = some move) : (w.step move).isSome = true := by
  obtain ⟨party, call, phase⟩ := t
  cases phase with
  | entering =>
      simp only [Thread.due] at h
      split at h <;> obtain rfl := Option.some.inj h
      · next hl => simp [step, hi, hl]
      · next hl => simp [step, hi, Thread.look, hl]
  | primed expiryMs | woken side =>
      obtain rfl := Option.some.inj h
      simp [step, hi, Thread.look]
  | parked side => contradiction
  | leaving owed reply =>
      cases owed with
      | nil => contradiction
      | cons side owed =>
          obtain rfl := Option.some.inj h
          simp [step, hi]

/-- Something is due for every thread that is not at rest. -/
theorem due_eq_none_iff (t : Thread) (i : Nat) (m : Moment) : t.due i m = none ↔ t.Rests := by
  obtain ⟨party, call, phase⟩ := t
  cases phase with
  | entering =>
      simp only [Thread.due, Thread.Rests]
      split <;> simp
  | leaving owed reply => cases owed <;> simp [Thread.due, Thread.Rests]
  | _ => simp [Thread.due, Thread.Rests]

/-- At rest, and only there, nobody goes on. -/
theorem quiet_iff (w : World) (m : Moment) : w.Quiet ↔ ∀ w', ¬ w.Goes m w' := by
  constructor
  · rintro hq w' ⟨i, t, move, hi, hdue, -⟩
    rw [(due_eq_none_iff t i m).mpr (hq t (List.mem_of_getElem? hi))] at hdue
    contradiction
  · intro hnone t ht
    obtain ⟨i, hi⟩ := List.getElem?_of_mem ht
    cases hdue : t.due i m with
    | none => exact (due_eq_none_iff t i m).mp hdue
    | some move =>
        obtain ⟨w', hstep⟩ := Option.isSome_iff_exists.mp (step_of_due hi hdue)
        exact absurd ⟨i, t, move, hi, hdue, hstep⟩ (hnone w')

theorem mem_bare {t : Thread} : t ∈ w.pool.bare.crowd ↔ ∃ x ∈ w.threads, x.bare = t := by
  simp only [pool, Pool.bare, Multiset.mem_map, Multiset.mem_coe]

theorem rests_bare {t : Thread} (h : t.Rests) : t.bare.Rests := by
  rcases h with ⟨side, hp⟩ | ⟨reply, hp⟩
  · exact .inl ⟨side, by simp only [Thread.bare, hp]⟩
  · exact .inr ⟨reply.bare, by simp only [Thread.bare, hp]⟩

/-- Threads at rest are at rest seen bare. -/
theorem Quiet.not_turn (hq : w.Quiet) (m : Moment) (P : Pool) : ¬ Pool.Turn m w.pool.bare P := by
  intro hturn
  obtain ⟨t, others, u, q, s, hP, hact, -⟩ := hturn.inv
  have ht : t ∈ w.pool.bare.crowd := by rw [hP]; exact Multiset.mem_cons_self t others
  obtain ⟨x, hx, rfl⟩ := mem_bare.mp ht
  exact Thread.not_rests_of_act hact (rests_bare (hq x hx))

/-! ## Groups of callers -/

/-- A thread at rest that is one of a group is parked. -/
theorem parked_of_blocking {t : Thread} (hr : t.Rests) (hb : t.bare.Blocking) :
    t.phase = .parked t.call.side := by
  rcases hr with ⟨side, hp⟩ | ⟨reply, hp⟩
  · have hphase := hb.2
    simp only [Thread.bare, hp, Call.side_bare] at hphase
    cases hphase with
    | inl hphase =>
        rw [hp, hphase]
    | inr hphase =>
        contradiction
  · have hd : t.bare.Decided := ⟨[], reply.bare, by simp only [Thread.bare, hp]⟩
    exact absurd hb hd.not_blocking

/-- A thread at rest is one of a group, or decided. -/
theorem blocking_of_rests {t : Thread} (hr : t.Rests) (hc : t.Consistent) :
    t.bare.Blocking ∨ t.bare.Decided := by
  rcases hr with ⟨side, hp⟩ | ⟨reply, hp⟩
  · simp only [Thread.Consistent, hp] at hc
    refine .inl ⟨by rw [Thread.bare, Call.wait_bare]; exact hc.2, .inl ?_⟩
    simp only [Thread.bare, hp, Call.side_bare, hc.1]
  · exact .inr ⟨[], reply.bare, by simp only [Thread.bare, hp]⟩

/-- A caller that is ready to wait starts as one of a group. -/
theorem blocking_start (party : Option Nat) {call : Call} (h : call.wait ≠ .never) :
    (Thread.bare ⟨party, call, .entering⟩).Blocking := by
  have hl : Thread.loads ⟨party, call, .entering⟩ = false := by
    cases call <;> first | rfl | exact absurd rfl h
  refine ⟨by rw [Thread.bare, Call.wait_bare]; exact h, .inr ?_⟩
  simp [Thread.bare, hl]

/-- A caller that is not starts as such. -/
theorem prompt_start (party : Option Nat) {call : Call} (h : call.wait = .never) :
    (Thread.bare ⟨party, call, .entering⟩).Prompt := by
  refine ⟨by rw [Thread.bare, Call.wait_bare]; exact h, ?_⟩
  simp only [Thread.bare]
  split
  · exact .inl rfl
  · exact .inr (.inr ⟨_, rfl⟩)

/-- Threads at rest, grouped, seen bare. -/
theorem uniform_bare (hs : w.pool.Sound) (hq : w.Quiet) (hg : w.Grouped) : w.pool.bare.Uniform := by
  refine ⟨hs.ring, fun t ht => ?_, fun t ht u hu htb hub hside => ?_⟩
  · obtain ⟨x, hx, rfl⟩ := mem_bare.mp ht
    exact blocking_of_rests (hq x hx) (hs.consistent x hx)
  · obtain ⟨x, hx, rfl⟩ := mem_bare.mp ht
    obtain ⟨y, hy, rfl⟩ := mem_bare.mp hu
    have hxp := parked_of_blocking (hq x hx) htb
    have hyp := parked_of_blocking (hq y hy) hub
    simp only [Thread.bare, Call.side_bare] at hside
    rw [← hside] at hyp
    exact hg x hx y hy x.call.side hxp hyp

theorem run_start {party : Option Nat} {calls : List Call}
    (h : w.run (calls.map (Move.start party)) = some w') :
    w'.pipe = w.pipe ∧
      w'.threads = w.threads ++ calls.map fun call => ⟨party, call, .entering⟩ := by
  induction calls generalizing w with
  | nil =>
      obtain rfl := Option.some.inj h
      exact ⟨rfl, (List.append_nil _).symm⟩
  | cons call calls ih =>
      simp only [List.map_cons, run, step, Option.bind_eq_bind, Option.bind_some] at h
      obtain ⟨hp, ht⟩ := ih h
      refine ⟨hp, ?_⟩
      rw [ht, List.append_assoc]
      rfl

theorem Reachable.further (h : w.Reachable c) (hf : w.Further w') : w'.Reachable c := by
  cases hf with
  | group hwait halike hfree hrun => exact h.after hrun
  | single hwait hstep => exact h.after_step hstep

/-- What a world at rest becomes when one thing more happens. -/
theorem Further.uniform_or_solo (hf : w.Further w') (hs : w.pool.Sound) (hq : w.Quiet)
    (hg : w.Grouped) : w'.pool.bare.Uniform ∨ w'.pool.bare.Solo := by
  have hu := uniform_bare hs hq hg
  cases hf with
  | @group party calls _ hwait halike hfree h =>
      obtain ⟨hp, ht⟩ := run_start h
      left
      -- a caller of a group was parked before, or has just started
      have hmem : ∀ x ∈ w'.threads, x.bare.Blocking ∨ x.bare.Decided := by
        intro x hx
        rw [ht, List.mem_append, List.mem_map] at hx
        rcases hx with hx | ⟨call, hcall, rfl⟩
        · exact blocking_of_rests (hq x hx) (hs.consistent x hx)
        · exact .inl (blocking_start party (hwait call hcall))
      have hkind : ∀ x ∈ w'.threads, x.bare.Blocking →
          x ∈ w.threads ∧ x.phase = .parked x.call.side ∨ x.party = party ∧ x.call ∈ calls := by
        intro x hx hb
        rw [ht, List.mem_append, List.mem_map] at hx
        rcases hx with hx | ⟨call, hcall, rfl⟩
        · exact .inl ⟨hx, parked_of_blocking (hq x hx) hb⟩
        · exact .inr ⟨rfl, hcall⟩
      refine ⟨?_, fun t ht => ?_, fun t ht u hu htb hub hside => ?_⟩
      · show w'.pipe.ring.WellFormed
        rw [hp]
        exact hs.ring
      · obtain ⟨x, hx, rfl⟩ := mem_bare.mp ht
        exact hmem x hx
      · obtain ⟨x, hx, rfl⟩ := mem_bare.mp ht
        obtain ⟨y, hy, rfl⟩ := mem_bare.mp hu
        simp only [Thread.bare, Call.side_bare] at hside
        rcases hkind x hx htb with ⟨hxw, hxp⟩ | ⟨hxp, hxc⟩
        · rcases hkind y hy hub with ⟨hyw, hyp⟩ | ⟨hyp, hyc⟩
          · rw [← hside] at hyp
            exact hg x hxw y hyw x.call.side hxp hyp
          · rw [hside] at hxp
            exact absurd hxp (hfree y.call hyc x hxw)
        · rcases hkind y hy hub with ⟨hyw, hyp⟩ | ⟨hyp, hyc⟩
          · rw [← hside] at hyp
            exact absurd hyp (hfree x.call hxc y hyw)
          · exact ⟨hxp.trans hyp.symm, halike x.call hxc y.call hyc⟩
  | @single party call _ hwait h =>
      obtain rfl := Option.some.inj h
      right
      refine ⟨_, w.pool.bare.crowd, ?_, prompt_start party hwait, hu, fun u hu => ?_⟩
      · simp only [Pool.bare, pool]
        rw [← Multiset.map_cons]
        congr 2
        exact Multiset.coe_eq_coe.mpr (List.perm_append_singleton _ _)
      · obtain ⟨x, hx, rfl⟩ := mem_bare.mp hu
        exact rests_bare (hq x hx)

/-! ## What the bare threads tell -/

theorem parkedOn_bare (side : Side) (t : Thread) : t.bare.parkedOn side = t.parkedOn side := by
  obtain ⟨party, call, phase⟩ := t
  cases phase with
  | entering => cases call <;> rfl
  | _ => rfl

theorem result_bare (t : Thread) : t.bare.result = t.result.map Reply.bare := by
  obtain ⟨party, call, phase⟩ := t
  cases phase with
  | entering => cases call <;> rfl
  | leaving owed reply => cases owed <;> rfl
  | _ => rfl

theorem parked_eq (w : World) (side : Side) :
    w.parked side = (w.threads.map Thread.bare).countP (Thread.parkedOn side) := by
  rw [parked, List.countP_map]
  congr 1
  exact funext fun t => (parkedOn_bare side t).symm

theorem outcomes_eq (w : World) :
    w.outcomes = (w.threads.map Thread.bare).filterMap fun t =>
      t.result.map fun reply => (t.party, reply) := by
  rw [outcomes, results, List.map_filterMap, List.filterMap_map]
  congr 1
  funext t
  simp only [Function.comp, result_bare, Option.map_map]
  rfl

/-- At rest the pipe counts exactly those who are parked. -/
theorem Quiet.waiting_eq (hq : w.Quiet) (hs : w.pool.Sound) (side : Side) :
    w.pipe.waiting side = w.parked side := by
  have hw := hs.waiting side
  rw [show w.pipe.waiting side = _ from hw, parked]
  show ((w.threads : Multiset Thread).countP fun t => t.waits side) = _
  rw [Multiset.coe_countP]
  refine List.countP_congr fun t ht => ?_
  rcases hq t ht with ⟨s, hp⟩ | ⟨reply, hp⟩ <;> simp [Thread.waits, Thread.parkedOn, hp]

theorem pipe_eq_of_bare {p q : Pipe} (h : p.bare = q.bare)
    (hw : ∀ side, p.waiting side = q.waiting side) : p = q := by
  obtain ⟨ring, expiryMs, closed, readers, writers⟩ := p
  obtain ⟨ring', expiryMs', closed', readers', writers'⟩ := q
  simp only [Pipe.bare, Pipe.mk.injEq] at h ⊢
  exact ⟨h.1, h.2.1, h.2.2.1, hw .readable, hw .writable⟩

/-! ## Coming to rest -/

theorem goes_of_advance? (h : w.advance? m = some w') : w.Goes m w' := by
  simp only [advance?, Option.bind_eq_some_iff] at h
  obtain ⟨move, hdue, hstep⟩ := h
  obtain ⟨⟨t, i⟩, hmem, ht⟩ := List.exists_of_findSome?_eq_some hdue
  exact ⟨i, t, move, List.mk_mem_zipIdx_iff_getElem?.mp hmem, ht, hstep⟩

theorem quiet_of_advance? (h : w.advance? m = none) : w.Quiet := by
  intro t ht
  obtain ⟨i, hi⟩ := List.getElem?_of_mem ht
  cases hdue : w.due m with
  | none =>
      rw [due, List.findSome?_eq_none_iff] at hdue
      exact (due_eq_none_iff t i m).mp (hdue (t, i) (List.mk_mem_zipIdx_iff_getElem?.mpr hi))
  | some move =>
      obtain ⟨⟨u, j⟩, hmem, hu⟩ := List.exists_of_findSome?_eq_some hdue
      have hsome := step_of_due (List.mk_mem_zipIdx_iff_getElem?.mp hmem) hu
      rw [advance?, hdue, Option.bind_some] at h
      rw [h] at hsome
      contradiction

/-- Always going on with the first thread that can leads to rest. -/
theorem goes_settle (w : World) (m : Moment) :
    ReflTransGen (Goes m) w (w.settle m) ∧ (w.settle m).Quiet := by
  fun_induction settle w m with
  | case1 w h => exact ⟨.refl, quiet_of_advance? h⟩
  | case2 w w' h ih => exact ⟨.head (goes_of_advance? h) ih.1, ih.2⟩

/-- **Confluence**: when one thing more happens to a world at rest whose parked threads are alike
on each side, and no time passes, then the threads go on only so often, whatever the order; they
stop only at rest; and wherever they come to rest, the pipe is the same, as many are parked, and
the same was returned. -/
theorem Reachable.confluent (now : UInt64) (h : w.Reachable c) (hq : w.Quiet) (hg : w.Grouped)
    (hf : w.Further w₁) :
    let m : Moment := ⟨now, false⟩
    (∀ f : ℕ → World, f 0 = w₁ → ¬ ∀ k, (f k).Goes m (f (k + 1))) ∧
      (∀ w₂, ReflTransGen (Goes m) w₁ w₂ → (∀ w₃, ¬ w₂.Goes m w₃) → w₂.Quiet) ∧
      (ReflTransGen (Goes m) w₁ (w₁.settle m) ∧ (w₁.settle m).Quiet) ∧
      ∀ w₂ w₃, ReflTransGen (Goes m) w₁ w₂ → ReflTransGen (Goes m) w₁ w₃ → w₂.Quiet → w₃.Quiet →
        w₂.pipe = w₃.pipe ∧ (∀ side, w₂.parked side = w₃.parked side) ∧
          w₂.outcomes.Perm w₃.outcomes := by
  intro m
  have hs : w₁.pool.Sound := (h.further hf).sound
  refine ⟨fun f hf0 => not_goes_forever m f (hf0 ▸ hs),
    fun w₂ _ hnone => (quiet_iff w₂ m).mpr hnone, goes_settle w₁ m, fun w₂ w₃ h₂ h₃ hq₂ hq₃ => ?_⟩
  obtain ⟨hs₂, hturns₂⟩ := turns_of_goes hs h₂
  obtain ⟨hs₃, hturns₃⟩ := turns_of_goes hs h₃
  have hbare : w₂.pool.bare = w₃.pool.bare :=
    Pool.turn_rest_unique (hf.uniform_or_solo h.sound hq hg) rfl hturns₂ hturns₃ (hq₂.not_turn m)
      (hq₃.not_turn m)
  have hperm : (w₂.threads.map Thread.bare).Perm (w₃.threads.map Thread.bare) :=
    Multiset.coe_eq_coe.mp (congrArg Pool.crowd hbare)
  have hparked : ∀ side, w₂.parked side = w₃.parked side := by
    intro side
    rw [parked_eq, parked_eq, hperm.countP_eq]
  refine ⟨pipe_eq_of_bare (congrArg Pool.pipe hbare) fun side => ?_, hparked, ?_⟩
  · rw [hq₂.waiting_eq hs₂, hq₃.waiting_eq hs₃, hparked]
  · rw [outcomes_eq, outcomes_eq]
    exact hperm.filterMap _

/-- Two senders wait for room, and somebody takes the message that is in the way: one of the two
gets in, whichever looks first. -/
theorem confluent_one_slot :
    let c : PipeConfig := ⟨⟨1, 4⟩, .ofMillis 5⟩
    let m : Moment := ⟨9, false⟩
    ∃ w w₁ : World, w.Reachable c ∧ w.Quiet ∧ w.parked .writable = 2 ∧ w.Further w₁ ∧
      (∀ w₂, ReflTransGen (Goes m) w₁ w₂ → w₂.Quiet →
        w₂.pipe = (w₁.settle m).pipe ∧ w₂.parked .writable = (w₁.settle m).parked .writable ∧
          w₂.outcomes.Perm (w₁.settle m).outcomes) := by
  let moves : List Move :=
    [.start (some 0) (.send ⟨1, 1⟩ [9] .forever), .lock 0 ⟨7, false⟩, .signal 0,
      .start (some 1) (.send ⟨1, 1⟩ [8] .forever), .lock 1 ⟨8, false⟩,
      .start (some 1) (.send ⟨1, 1⟩ [8] .forever), .lock 2 ⟨8, false⟩]
  have hreach : ∃ w : World, w.Reachable ⟨⟨1, 4⟩, .ofMillis 5⟩ ∧ w.threads =
      [⟨some 0, .send ⟨1, 1⟩ [9] .forever, .leaving [] (.sent (.ok 1))⟩,
        ⟨some 1, .send ⟨1, 1⟩ [8] .forever, .parked .writable⟩,
        ⟨some 1, .send ⟨1, 1⟩ [8] .forever, .parked .writable⟩] :=
    ⟨_, ⟨_, moves, rfl, rfl⟩, rfl⟩
  obtain ⟨w, hw, ht⟩ := hreach
  have hq : w.Quiet := by simp [Quiet, ht]
  have hg : w.Grouped := by simp [Grouped, ht, Call.Alike]
  have hf : w.Further _ := @Further.single w (some 2) (.recv ⟨1, 1⟩ [0, 0] .never) _ rfl rfl
  obtain ⟨-, -, ⟨hsettle, hrest⟩, hsame⟩ := hw.confluent 9 hq hg hf
  refine ⟨w, _, hw, hq, by rw [parked, ht]; rfl, hf, fun w₂ h₂ hq₂ => ?_⟩
  obtain ⟨hpipe, hparked, hperm⟩ := hsame w₂ _ h₂ hsettle hq₂ hrest
  exact ⟨hpipe, hparked .writable, hperm⟩

end World

end MessagePipe
