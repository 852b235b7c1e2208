import Mathlib.Algebra.BigOperators.Group.Multiset.Basic
import MessagePipe.Proofs.Pipe.Bare

/-!
# MessagePipe.Proofs.Pipe.Turn

Bare threads at work.  `Thread.Act` tells apart what one act can be; from it
follow what an act leaves alone, that threads act only so often (`acc_turn`),
and that groups of callers stay groups (`Uniform.turn`): all who are undecided
are ready to wait, and those of one side are alike.
-/

namespace MessagePipe

/-! ## Acts, case by case -/

namespace Thread

/-- All that an act can be. -/
inductive Act (p : Pipe) (m : Moment) (t : Thread) : Thread → Pipe → Option Side → Prop
  | load (h : t.phase = .entering) : Act p m t { t with phase := .primed p.expiryMs } p none
  | sweep {expiryMs : UInt64} (h : t.phase = .primed expiryMs) :
      Act p m t (t.leave (p.sweepReply expiryMs m.now).1) (p.sweepReply expiryMs m.now).2 none
  | answer {side : Side} {reply : Reply} {q : Pipe} (h : t.phase = .woken side)
      (hv : p.visit m t.call = (some reply, q)) : Act p m t (t.leave reply.bare) q none
  | park {side : Side} (h : t.phase = .woken side) (hv : p.visit m t.call = (none, p)) :
      Act p m t t.park p none
  | signal {side : Side} {owed : List Side} {reply : Reply}
      (h : t.phase = .leaving (side :: owed) reply) :
      Act p m t { t with phase := .leaving owed reply } p (some side)

variable {t u : Thread} {p q : Pipe} {m : Moment} {signal : Option Side}

theorem act_cases (h : t.act p m = some (u, q, signal)) : Act p m t u q signal := by
  obtain ⟨party, call, phase⟩ := t
  cases phase with
  | entering =>
      simp only [act, Option.some.injEq, Prod.mk.injEq] at h
      obtain ⟨rfl, rfl, rfl⟩ := h
      exact .load rfl
  | primed expiryMs =>
      simp only [act, Option.some.injEq, Prod.mk.injEq] at h
      obtain ⟨rfl, rfl, rfl⟩ := h
      exact .sweep rfl
  | parked side => contradiction
  | woken side =>
      simp only [act, Option.some.injEq, Prod.mk.injEq] at h
      obtain ⟨rfl, rfl, rfl⟩ := h
      cases hv : (p.visit m call).1 with
      | some reply => exact .answer rfl (Prod.ext hv rfl)
      | none =>
          have hq := (Pipe.visit_eq_none hv).1
          rw [hq]
          exact .park rfl (Prod.ext hv hq)
  | leaving owed reply =>
      cases owed with
      | nil => contradiction
      | cons side owed =>
          simp only [act, Option.some.injEq, Prod.mk.injEq] at h
          obtain ⟨rfl, rfl, rfl⟩ := h
          exact .signal rfl

/-- The thread has returned, or is parked. -/
def Rests (t : Thread) : Prop :=
  (∃ side, t.phase = .parked side) ∨ ∃ reply, t.phase = .leaving [] reply

/-- A thread at rest does not act, and only such a thread does not. -/
theorem act_eq_none_iff (p : Pipe) (m : Moment) : t.act p m = none ↔ t.Rests := by
  obtain ⟨party, call, phase⟩ := t
  cases phase with
  | leaving owed reply => cases owed <;> simp [act, Rests]
  | _ => simp [act, Rests]

theorem not_rests_of_act {found : Thread × Pipe × Option Side} (h : t.act p m = some found) :
    ¬ t.Rests := by
  rw [← act_eq_none_iff p m, h]
  exact Option.some_ne_none _

/-- A thread that acts does not mind a signal. -/
theorem hear_of_act {found : Thread × Pipe × Option Side} (h : t.act p m = some found)
    (s : Option Side) : t.hear s = t := by
  cases s with
  | none => rfl
  | some side =>
      obtain ⟨party, call, phase⟩ := t
      cases phase with
      | parked s => contradiction
      | _ => rfl

theorem hear_comm (t : Thread) (s s' : Option Side) : (t.hear s).hear s' = (t.hear s').hear s := by
  obtain ⟨party, call, phase⟩ := t
  cases phase with
  | parked side =>
      cases s with
      | none => rfl
      | some a =>
          cases s' with
          | none => rfl
          | some b => cases side <;> cases a <;> cases b <;> rfl
  | _ => cases s <;> cases s' <;> rfl

/-! ## Acts come to an end -/

/-- An act decides a call, or uses up a signal, or uses up effort and wakes nobody. -/
theorem act_nearer (h : t.act p m = some (u, q, signal)) :
    u.undecided < t.undecided ∨ u.undecided = t.undecided ∧
      (u.owed < t.owed ∨ u.owed = t.owed ∧ u.effort < t.effort ∧ signal = none) := by
  cases act_cases h with
  | load hp => exact .inr (by simp [undecided, owed, effort, hp])
  | sweep hp => exact .inl (by simp [undecided, leave, hp])
  | answer hp hv => exact .inl (by simp [undecided, leave, hp])
  | park hp hv => exact .inr (by simp [undecided, owed, effort, park, hp])
  | signal hp => exact .inr (by simp [undecided, owed, hp])

end Thread

namespace Pool

def undecided (P : Pool) : Nat := (P.crowd.map Thread.undecided).sum

def owed (P : Pool) : Nat := (P.crowd.map Thread.owed).sum

def effort (P : Pool) : Nat := (P.crowd.map Thread.effort).sum

variable {P P' : Pool} {m : Moment}

theorem Turn.nearer (h : Turn m P P') :
    P'.undecided < P.undecided ∨ P'.undecided = P.undecided ∧
      (P'.owed < P.owed ∨ P'.owed = P.owed ∧ P'.effort < P.effort) := by
  cases h with
  | @act p q t u others signal h =>
      have hu : (others.map (Thread.hear signal)).map Thread.undecided =
          others.map Thread.undecided := by
        rw [Multiset.map_map]
        exact Multiset.map_congr rfl fun x _ => by cases signal <;> simp [Thread.hear]
      have ho : (others.map (Thread.hear signal)).map Thread.owed = others.map Thread.owed := by
        rw [Multiset.map_map]
        exact Multiset.map_congr rfl fun x _ => by cases signal <;> simp [Thread.hear]
      simp only [undecided, owed, effort, Multiset.map_cons, Multiset.sum_cons, hu, ho]
      rcases Thread.act_nearer h with h1 | ⟨h1, h2 | ⟨h2, h3, rfl⟩⟩
      · exact .inl (by omega)
      · exact .inr ⟨by omega, .inl (by omega)⟩
      · rw [map_hear_none]
        exact .inr ⟨by omega, .inr ⟨by omega, by omega⟩⟩

/-- Threads act only so often. -/
theorem acc_turn (m : Moment) (P : Pool) : Acc (flip (Turn m)) P := by
  have hwf : WellFounded (InvImage (Prod.Lex (· < ·) (Prod.Lex (· < ·) (· < ·)))
      fun P : Pool => (P.undecided, P.owed, P.effort)) :=
    InvImage.wf _ (Prod.lex Nat.lt_wfRel (Prod.lex Nat.lt_wfRel Nat.lt_wfRel)).wf
  refine Subrelation.wf (fun {P' P} h => ?_) hwf |>.apply P
  show Prod.Lex _ _ (P'.undecided, P'.owed, P'.effort) (P.undecided, P.owed, P.effort)
  rcases Turn.nearer h with h1 | ⟨h1, h2 | ⟨h2, h3⟩⟩
  · exact .left _ _ h1
  · rw [h1]; exact .right _ (.left _ _ h2)
  · rw [h1, h2]; exact .right _ (.right _ h3)

end Pool

/-! ## Groups -/

namespace Thread

/-- A caller of a group: ready to wait, and parked on its side or woken there. -/
def Blocking (t : Thread) : Prop :=
  t.call.wait ≠ .never ∧ (t.phase = .parked t.call.side ∨ t.phase = .woken t.call.side)

/-- A caller that is not ready to wait, and undecided. -/
def Prompt (t : Thread) : Prop :=
  t.call.wait = .never ∧
    (t.phase = .entering ∨ (∃ expiryMs, t.phase = .primed expiryMs) ∨ ∃ side, t.phase = .woken side)

/-- The call is decided. -/
def Decided (t : Thread) : Prop := ∃ owed reply, t.phase = .leaving owed reply

variable {t u : Thread} {p q : Pipe} {m : Moment} {signal : Option Side}

theorem Decided.not_blocking (hd : t.Decided) : ¬ t.Blocking := by
  obtain ⟨owed, reply, h⟩ := hd
  rintro ⟨-, hp | hp⟩ <;> rw [h] at hp <;> contradiction

theorem Decided.hear (hd : t.Decided) (s : Option Side) : t.hear s = t := by
  obtain ⟨party, call, phase⟩ := t
  obtain ⟨owed, reply, rfl⟩ := hd
  cases s <;> rfl

/-- What is left of a decided call is to give signals, whatever the pipe is like. -/
theorem Decided.act_eq (hd : t.Decided) (h : t.act p m = some (u, q, signal)) :
    ∃ side, p = q ∧ signal = some side ∧ ∀ r, t.act r m = some (u, r, some side) := by
  obtain ⟨owed, reply, hphase⟩ := hd
  cases act_cases h with
  | load hp | sweep hp | answer hp | park hp => rw [hphase] at hp; contradiction
  | @signal side owed reply hp => exact ⟨side, rfl, rfl, fun r => act_of_signal hp r m⟩

theorem Decided.act (hd : t.Decided) (h : t.act p m = some (u, q, signal)) : u.Decided := by
  obtain ⟨owed, reply, hphase⟩ := hd
  cases act_cases h with
  | load hp | sweep hp | answer hp | park hp => rw [hphase] at hp; contradiction
  | signal hp => exact ⟨_, _, rfl⟩

/-- A caller of a group that acts was woken. -/
theorem Blocking.woken (hb : t.Blocking) (h : t.act p m = some (u, q, signal)) :
    t.phase = .woken t.call.side := by
  cases hb.2 with
  | inl hp =>
      exact absurd (.inl ⟨_, hp⟩) (not_rests_of_act h)
  | inr hp =>
      exact hp

/-- What an act leaves of the thread. -/
theorem act_frame (h : t.act p m = some (u, q, signal)) : u.party = t.party ∧ u.call = t.call := by
  cases act_cases h <;> exact ⟨rfl, rfl⟩

theorem act_wellFormed (hp : p.ring.WellFormed) (h : t.act p m = some (u, q, signal)) :
    q.ring.WellFormed := by
  cases act_cases h with
  | load | park | signal => exact hp
  | sweep => exact Pipe.wellFormed_sweepReply hp _ _
  | answer hphase hv =>
      have hw := Pipe.wellFormed_visit hp m t.call
      rwa [hv] at hw

/-- A caller that is not ready to wait owes nobody a signal yet. -/
theorem Prompt.signal_eq (ht : t.Prompt) (h : t.act p m = some (u, q, signal)) : signal = none := by
  cases act_cases h with
  | signal hp =>
      rcases ht.2 with hp' | ⟨_, hp'⟩ | ⟨_, hp'⟩ <;> rw [hp] at hp' <;> contradiction
  | _ => rfl

/-- It is decided by its look; before that it may have to read the expiry. -/
theorem Prompt.act (ht : t.Prompt) (h : t.act p m = some (u, q, signal)) :
    p = q ∧ u.Prompt ∨ u.Decided := by
  cases act_cases h with
  | load hp => exact .inl ⟨rfl, ht.1, .inr (.inl ⟨_, rfl⟩)⟩
  | sweep hp => exact .inr ⟨_, _, rfl⟩
  | answer hp hv => exact .inr ⟨_, _, rfl⟩
  | signal hp => exact .inr ⟨_, _, rfl⟩
  | park hp hv =>
      have hw := (Pipe.visit_eq_none (congrArg Prod.fst hv)).2.2
      rw [ht.1] at hw
      contradiction

/-- A caller of a group is decided by its act, or still one of the group. -/
theorem Blocking.act (hb : t.Blocking) (h : t.act p m = some (u, q, signal)) :
    u.Blocking ∨ u.Decided := by
  have hphase := hb.woken h
  cases act_cases h with
  | load hp | sweep hp | signal hp => rw [hphase] at hp; contradiction
  | answer hp hv => exact .inr ⟨_, _, rfl⟩
  | park hp hv => exact .inl ⟨hb.1, .inl rfl⟩

theorem hear_frame (t : Thread) (s : Option Side) :
    (t.hear s).party = t.party ∧ (t.hear s).call = t.call := by
  obtain ⟨party, call, phase⟩ := t
  cases s with
  | none => exact ⟨rfl, rfl⟩
  | some side =>
      cases phase with
      | parked s => by_cases h : s = side <;> simp [hear, wake, h]
      | _ => exact ⟨rfl, rfl⟩

theorem Blocking.hear (hb : t.Blocking) (s : Option Side) : (t.hear s).Blocking := by
  obtain ⟨party, call, phase⟩ := t
  cases s with
  | none => exact hb
  | some side =>
      cases phase with
      | parked s =>
          by_cases h : s = side
          · have hw : Thread.hear (some side) ⟨party, call, .parked s⟩ =
                ⟨party, call, .woken s⟩ := by
              simp only [Thread.hear, wake, h, if_true]
            rw [hw]
            refine ⟨hb.1, .inr ?_⟩
            cases hb.2 with
            | inl hp =>
                exact congrArg Phase.woken (Phase.parked.inj hp)
            | inr hp =>
                contradiction
          · have hw : Thread.hear (some side) ⟨party, call, .parked s⟩ =
                ⟨party, call, .parked s⟩ := by
              simp only [Thread.hear, wake, h, if_false]
            rwa [hw]
      | _ => exact hb

end Thread

namespace Pool

/-- All undecided callers are ready to wait, and those of one side are alike. -/
structure Uniform (P : Pool) : Prop where
  ring : P.pipe.ring.WellFormed
  members : ∀ t ∈ P.crowd, t.Blocking ∨ t.Decided
  alike : ∀ t ∈ P.crowd, ∀ u ∈ P.crowd, t.Blocking → u.Blocking → t.call.side = u.call.side →
    t.party = u.party ∧ t.call = u.call

/-- One caller that is not ready to wait comes to threads at rest. -/
def Solo (P : Pool) : Prop :=
  ∃ t others, P = ⟨P.pipe, t ::ₘ others⟩ ∧ t.Prompt ∧ Uniform ⟨P.pipe, others⟩ ∧
    ∀ u ∈ others, u.Rests

variable {P P' : Pool} {p q : Pipe} {t u : Thread} {others : Multiset Thread} {m : Moment}
  {signal : Option Side}

/-- A caller of a group after some act was one before, with the same party and call. -/
theorem Uniform.origin (hu : Uniform ⟨p, t ::ₘ others⟩) (h : t.act p m = some (u, q, signal))
    {x : Thread} (hx : x ∈ u ::ₘ others.map (Thread.hear signal)) (hb : x.Blocking) :
    ∃ y ∈ t ::ₘ others, y.Blocking ∧ x.party = y.party ∧ x.call = y.call := by
  rcases Multiset.mem_cons.mp hx with rfl | hx
  · refine ⟨t, Multiset.mem_cons_self t others, ?_, Thread.act_frame h⟩
    cases hu.members t (Multiset.mem_cons_self t others) with
    | inl ht =>
        exact ht
    | inr hd =>
        exact absurd hb (hd.act h).not_blocking
  · obtain ⟨y, hy, rfl⟩ := Multiset.mem_map.mp hx
    have hy : y ∈ t ::ₘ others := Multiset.mem_cons_of_mem hy
    refine ⟨y, hy, ?_, Thread.hear_frame y signal⟩
    cases hu.members y hy with
    | inl hyb =>
        exact hyb
    | inr hd =>
        rw [hd.hear] at hb
        exact hb

theorem Uniform.turn (hu : P.Uniform) (h : Turn m P P') : P'.Uniform := by
  cases h with
  | @act p q t u others signal h =>
      refine ⟨Thread.act_wellFormed hu.ring h, fun x hx => ?_, fun x hx y hy hxb hyb hside => ?_⟩
      · rcases Multiset.mem_cons.mp hx with rfl | hx
        · cases hu.members t (Multiset.mem_cons_self t others) with
          | inl ht =>
              exact ht.act h
          | inr hd =>
              exact .inr (hd.act h)
        · obtain ⟨y, hy, rfl⟩ := Multiset.mem_map.mp hx
          cases hu.members y (Multiset.mem_cons_of_mem hy) with
          | inl hyb =>
              exact .inl (hyb.hear signal)
          | inr hd =>
              rw [hd.hear]
              exact .inr hd
      · obtain ⟨x', hx', hxb', hxp, hxc⟩ := hu.origin h hx hxb
        obtain ⟨y', hy', hyb', hyp, hyc⟩ := hu.origin h hy hyb
        rw [hxc, hyc] at hside
        obtain ⟨hp, hc⟩ := hu.alike x' hx' y' hy' hxb' hyb' hside
        exact ⟨hxp.trans (hp.trans hyp.symm), hxc.trans (hc.trans hyc.symm)⟩

/-- Where one is alone at work, only that one acts. -/
theorem Solo.inv (hs : P.Solo) (h : Turn m P P') :
    ∃ t others u q, P = ⟨P.pipe, t ::ₘ others⟩ ∧ t.Prompt ∧ Uniform ⟨P.pipe, others⟩ ∧
      (∀ x ∈ others, x.Rests) ∧ t.act P.pipe m = some (u, q, none) ∧ P' = ⟨q, u ::ₘ others⟩ := by
  obtain ⟨t, others, hP, ht, hu, hrest⟩ := hs
  obtain ⟨x, others', u, q, s, hP', hact, rfl⟩ := h.inv
  rw [hP', Pool.mk.injEq] at hP
  rcases Multiset.cons_eq_cons.mp hP.2 with ⟨rfl, rfl⟩ | ⟨-, rest, -, rfl⟩
  · obtain rfl : s = none := ht.signal_eq hact
    rw [map_hear_none]
    exact ⟨x, others', u, q, hP', ht, hu, hrest, hact, rfl⟩
  · exact absurd (hrest x (Multiset.mem_cons_self x rest)) (Thread.not_rests_of_act hact)

/-- It goes on, or is decided and leaves groups only. -/
theorem Solo.turn (hs : P.Solo) (h : Turn m P P') : P'.Uniform ∨ P'.Solo := by
  obtain ⟨t, others, u, q, -, ht, hu, hrest, hact, rfl⟩ := hs.inv h
  have hring := Thread.act_wellFormed hu.ring hact
  rcases ht.act hact with ⟨rfl, hp⟩ | hd
  · exact .inr ⟨u, others, rfl, hp, hu, hrest⟩
  · refine .inl ⟨hring, fun x hx => ?_, fun x hx y hy hxb hyb => ?_⟩
    · rcases Multiset.mem_cons.mp hx with rfl | hx
      · exact .inr hd
      · exact hu.members x hx
    · rcases Multiset.mem_cons.mp hx with rfl | hx
      · exact absurd hxb hd.not_blocking
      rcases Multiset.mem_cons.mp hy with rfl | hy
      · exact absurd hyb hd.not_blocking
      exact hu.alike x hx y hy hxb hyb

end Pool

end MessagePipe
