import Mathlib.Data.Multiset.Filter
import MessagePipe.Pipe.Settle
import MessagePipe.Proofs.Pipe.Visit

/-!
# MessagePipe.Proofs.Pipe.Pool

Threads without their places.  A `World` lists its threads so that moves can
name them; what happens to the pipe does not depend on the order.  A `Pool` is
a pipe with the multiset of threads at work on it, and `Pool.Due` and
`Pool.Step` say all that one move can do to it:

1. a sweep reads the expiry (`load`);
2. a look ends a call, which then owes some signals (`answer`), or leaves its
   caller parked (`park`);
3. a thread that owes a signal gives it to all who are parked on that side
   (`signal`);
4. a thread appears (`start`), or wakes up without a signal (`rouse`).

Every move of a world is a step of its pool (`World.pool_step`), so an
invariant is shown once for each of these six and then holds of every world
that can come up (`World.Reachable.invariant`).
-/

namespace MessagePipe

/-- A pipe and the threads at work on it, in no order. -/
structure Pool where
  pipe : Pipe
  crowd : Multiset Thread

/-- A world without the order of its threads. -/
def World.pool (w : World) : Pool := ⟨w.pipe, w.threads⟩

/-- A world that moves can lead to from a new pipe. -/
def World.Reachable (c : PipeConfig) (w : World) : Prop :=
  ∃ p moves, Pipe.create c = .ok p ∧ (World.ofPipe p).run moves = some w

/-! ## Threads -/

namespace Thread

variable {t : Thread}

/-- The thread once its call is decided. -/
def leave (t : Thread) (reply : Reply) : Thread :=
  { t with phase := .leaving reply.signals reply }

/-- The thread once it has nothing to do but wait. -/
def park (t : Thread) : Thread := { t with phase := .parked t.call.side }

/-- Whether the thread is parked on a side, or was woken there and does not hold the lock yet. -/
def waits (side : Side) (t : Thread) : Bool :=
  match t.phase with
  | .parked s | .woken s => decide (s = side)
  | _ => false

/-- The pipe once the thread holds the lock: a thread that waited is no longer counted. -/
def resume (t : Thread) (p : Pipe) : Pipe :=
  match t.phase with
  | .woken side => p.withdraw side
  | _ => p

@[simp] theorem ring_resume (t : Thread) (p : Pipe) : (t.resume p).ring = p.ring := by
  obtain ⟨party, call, phase⟩ := t
  cases phase <;> simp [resume]

@[simp] theorem closed_resume (t : Thread) (p : Pipe) : (t.resume p).closed = p.closed := by
  obtain ⟨party, call, phase⟩ := t
  cases phase <;> simp [resume]

/-- A look is a visit of the pipe, unless it is the sweep of a thread that has read the expiry. -/
theorem look_cases {p : Pipe} {m : Moment} {found : Option Reply × Pipe}
    (h : t.look p m = some found) :
    ((t.phase = .entering ∨ ∃ side, t.phase = .woken side) ∧
        found = (t.resume p).visit m t.call) ∨
      ∃ expiryMs, t.phase = .primed expiryMs ∧
        found = (some (p.sweepReply expiryMs m.now).1, (p.sweepReply expiryMs m.now).2) := by
  obtain ⟨party, call, phase⟩ := t
  cases phase with
  | entering =>
      simp only [look] at h
      split at h
      · contradiction
      · exact .inl ⟨.inl rfl, (Option.some.inj h).symm⟩
  | primed expiryMs => exact .inr ⟨expiryMs, rfl, (Option.some.inj h).symm⟩
  | woken side => exact .inl ⟨.inr ⟨side, rfl⟩, (Option.some.inj h).symm⟩
  | parked side => contradiction
  | leaving owed reply => contradiction

/-- A look without a reply changes nothing: the side of the call is not ready, and the caller
may still wait. -/
theorem look_none {p q : Pipe} {m : Moment} (h : t.look p m = some (none, q)) :
    q = t.resume p ∧ p.ready t.call.side = false ∧ t.call.wait.refusal m.late = none := by
  rcases look_cases h with ⟨-, hv⟩ | ⟨expiryMs, -, hs⟩
  · obtain ⟨hq, hr, hw⟩ := Pipe.visit_eq_none (congrArg Prod.fst hv).symm
    refine ⟨(congrArg Prod.snd hv).trans hq, ?_, hw⟩
    rw [← hr]
    exact Pipe.ready_congr (ring_resume t p).symm (closed_resume t p).symm _
  · cases hs

theorem wellFormed_look {p q : Pipe} {m : Moment} {answer : Option Reply}
    (hr : p.ring.WellFormed) (h : t.look p m = some (answer, q)) : q.ring.WellFormed := by
  rcases look_cases h with ⟨-, hv⟩ | ⟨expiryMs, -, hs⟩
  · rw [show q = ((t.resume p).visit m t.call).2 from congrArg Prod.snd hv]
    exact Pipe.wellFormed_visit (by rw [ring_resume]; exact hr) m t.call
  · rw [show q = (p.sweepReply expiryMs m.now).2 from congrArg Prod.snd hs]
    exact Pipe.wellFormed_sweepReply hr expiryMs m.now

/-- A look that makes a side ready owes it a signal. -/
theorem ready_look {p q : Pipe} {m : Moment} {reply : Reply} {side : Side}
    (hr : p.ring.WellFormed) (h : t.look p m = some (some reply, q)) (hq : q.ready side = true) :
    p.ready side = true ∨ side ∈ reply.signals := by
  rcases look_cases h with ⟨-, hv⟩ | ⟨expiryMs, -, hs⟩
  · rw [Prod.mk.injEq] at hv
    obtain ⟨hreply, rfl⟩ := hv
    have hready := Pipe.ready_visit (by rw [ring_resume]; exact hr) hreply.symm hq
    rwa [Pipe.ready_congr (ring_resume t p) (closed_resume t p)] at hready
  · rw [Prod.mk.injEq, Option.some.injEq] at hs
    obtain ⟨rfl, rfl⟩ := hs
    exact Pipe.ready_sweepReply hr hq

end Thread

/-! ## Steps -/

namespace Pool

/-- What a thread does by itself at a given moment, with the look that ended its call. -/
inductive Due (m : Moment) : Pool → Option Visit → Pool → Prop
  | load {p : Pipe} {t : Thread} {others : Multiset Thread} (h : t.loads = true) :
      Due m ⟨p, t ::ₘ others⟩ none ⟨p, { t with phase := .primed p.expiryMs } ::ₘ others⟩
  | answer {p q : Pipe} {t : Thread} {others : Multiset Thread} {reply : Reply}
      (h : t.look p m = some (some reply, q)) :
      Due m ⟨p, t ::ₘ others⟩ (some ⟨t.party, t.call, m.now, reply⟩) ⟨q, t.leave reply ::ₘ others⟩
  | park {p q : Pipe} {t : Thread} {others : Multiset Thread}
      (h : t.look p m = some (none, q)) :
      Due m ⟨p, t ::ₘ others⟩ none ⟨q.enroll t.call.side, t.park ::ₘ others⟩
  | signal {p : Pipe} {t : Thread} {others : Multiset Thread} {side : Side} {owed : List Side}
      {reply : Reply} (h : t.phase = .leaving (side :: owed) reply) :
      Due m ⟨p, t ::ₘ others⟩ none
        ⟨p, { t with phase := .leaving owed reply } ::ₘ others.map (Thread.wake side)⟩

/-- Whatever can happen. -/
inductive Step : Pool → Option Visit → Pool → Prop
  | due {m : Moment} {before after : Pool} {v : Option Visit} (h : Due m before v after) :
      Step before v after
  | start {p : Pipe} {others : Multiset Thread} (party : Option Nat) (call : Call) :
      Step ⟨p, others⟩ none ⟨p, ⟨party, call, .entering⟩ ::ₘ others⟩
  | rouse {p : Pipe} {t : Thread} {others : Multiset Thread} {side : Side}
      (h : t.phase = .parked side) :
      Step ⟨p, t ::ₘ others⟩ none ⟨p, { t with phase := .woken side } ::ₘ others⟩

end Pool

/-- A list of threads, one of which is singled out. -/
theorem coe_eq_cons {l : List Thread} {i : Nat} {t : Thread} (h : l[i]? = some t) :
    ∃ others : Multiset Thread, (l : Multiset Thread) = t ::ₘ others ∧
      ∀ u, (l.set i u : Multiset Thread) = u ::ₘ others := by
  obtain ⟨hi, ht⟩ := List.getElem?_eq_some_iff.mp h
  subst ht
  refine ⟨(l.eraseIdx i : List Thread), ?_, fun u => ?_⟩
  · exact Multiset.coe_eq_coe.mpr (List.getElem_cons_eraseIdx_perm hi).symm
  · exact Multiset.coe_eq_coe.mpr (List.set_perm_cons_eraseIdx hi u)

namespace World

variable {w w' : World}

theorem pool_load {i : Nat} (m : Moment) (h : w.step (.load i) = some w') :
    Pool.Due m w.pool none w'.pool ∧ w'.history = w.history := by
  obtain ⟨t, ht, hl, rfl⟩ := load_eq_some h
  obtain ⟨others, hw, hset⟩ := coe_eq_cons ht
  refine ⟨?_, rfl⟩
  simp only [pool, setThread, hw, hset]
  exact .load hl

theorem pool_lock {i : Nat} {m : Moment} (h : w.step (.lock i m) = some w') :
    ∃ v, Pool.Due m w.pool v w'.pool ∧ w'.history = w.history ++ v.toList := by
  obtain ⟨t, ⟨answer, q⟩, ht, hf, rfl⟩ := lock_eq_some h
  obtain ⟨others, hw, hset⟩ := coe_eq_cons ht
  cases answer with
  | some reply =>
      simp only [pool, conclude, hw, hset]
      exact ⟨_, .answer hf, rfl⟩
  | none =>
      simp only [pool, conclude, hw, hset]
      exact ⟨_, .park hf, (List.append_nil _).symm⟩

theorem pool_signal {i : Nat} (m : Moment) (h : w.step (.signal i) = some w') :
    Pool.Due m w.pool none w'.pool ∧ w'.history = w.history := by
  obtain ⟨t, side, owed, reply, ht, hp, rfl⟩ := signal_eq_some h
  obtain ⟨others, hw, hset⟩ := coe_eq_cons ht
  refine ⟨?_, rfl⟩
  simp only [pool, ← Multiset.map_coe, hw, hset, Multiset.map_cons]
  exact .signal hp

/-- Every move of a world is a step of its pool; a look that ends a call is added to the
history. -/
theorem pool_step {move : Move} (h : w.step move = some w') :
    ∃ v, Pool.Step w.pool v w'.pool ∧ w'.history = w.history ++ v.toList := by
  cases move with
  | start party call =>
      obtain rfl := Option.some.inj h
      refine ⟨none, ?_, (List.append_nil _).symm⟩
      have hc : ((w.threads ++ [⟨party, call, .entering⟩] : List Thread) : Multiset Thread) =
          ⟨party, call, .entering⟩ ::ₘ (w.threads : Multiset Thread) :=
        Multiset.coe_eq_coe.mpr (List.perm_append_singleton _ _)
      simp only [pool, hc]
      exact .start party call
  | load i =>
      obtain ⟨hd, hh⟩ := pool_load ⟨0, false⟩ h
      exact ⟨none, .due hd, by rw [hh]; exact (List.append_nil _).symm⟩
  | lock i m =>
      obtain ⟨v, hd, hh⟩ := pool_lock h
      exact ⟨v, .due hd, hh⟩
  | signal i =>
      obtain ⟨hd, hh⟩ := pool_signal ⟨0, false⟩ h
      exact ⟨none, .due hd, by rw [hh]; exact (List.append_nil _).symm⟩
  | rouse i =>
      obtain ⟨t, side, ht, hp, rfl⟩ := rouse_eq_some h
      obtain ⟨others, hw, hset⟩ := coe_eq_cons ht
      simp only [pool, setThread, hw, hset]
      exact ⟨none, .rouse hp, (List.append_nil _).symm⟩

theorem run_append (w : World) (moves moves' : List Move) :
    w.run (moves ++ moves') = (w.run moves).bind fun w' => w'.run moves' := by
  induction moves generalizing w with
  | nil => rfl
  | cons move moves ih =>
      simp only [List.cons_append, run, Option.bind_eq_bind, ih, Option.bind_assoc]

/-- Whatever happens to a world that can come up. -/
theorem Reachable.after {c : PipeConfig} {moves : List Move} (h : w.Reachable c)
    (hrun : w.run moves = some w') : w'.Reachable c := by
  obtain ⟨p, before, hp, hbefore⟩ := h
  refine ⟨p, before ++ moves, hp, ?_⟩
  rw [run_append, hbefore, Option.bind_some, hrun]

theorem Reachable.after_step {c : PipeConfig} {move : Move} (h : w.Reachable c)
    (hs : w.step move = some w') : w'.Reachable c :=
  h.after (show w.run [move] = some w' from run_cons.mpr ⟨w', hs, rfl⟩)

/-- What was told of a world is told of every later one. -/
theorem history_run {moves : List Move} (h : w.run moves = some w') : w.history <+: w'.history := by
  induction moves generalizing w with
  | nil =>
      obtain rfl := Option.some.inj h
      exact List.prefix_rfl
  | cons move moves ih =>
      obtain ⟨w₁, hs, hrun⟩ := run_cons.mp h
      obtain ⟨v, -, hh⟩ := pool_step hs
      have hfirst : w.history <+: w₁.history := hh ▸ List.prefix_append _ _
      exact hfirst.trans (ih hrun)

/-- The calls that ended since an earlier world. -/
def since (w w' : World) : List Visit := w'.history.drop w.history.length

theorem since_eq {new : List Visit} (h : w'.history = w.history ++ new) : w.since w' = new := by
  rw [since, h, List.drop_left]

theorem history_eq {moves : List Move} (h : w.run moves = some w') :
    w'.history = w.history ++ w.since w' := by
  obtain ⟨new, hnew⟩ := history_run h
  rw [since_eq hnew.symm, hnew]

/-- What was told since is the look of the first move, if it ended a call, and the rest. -/
theorem since_step {w₁ : World} {moves : List Move} {v : Option Visit}
    (hv : w₁.history = w.history ++ v.toList) (hrun : w₁.run moves = some w') :
    w.since w' = v.toList ++ w₁.since w' := by
  refine since_eq ?_
  rw [← List.append_assoc, ← hv]
  exact history_eq hrun

/-- What holds of a new pipe, and goes on to hold whatever happens, holds of every world that
can come up. -/
theorem Reachable.invariant {c : PipeConfig} (Inv : Pool → List Visit → Prop)
    (start : ∀ p, Pipe.create c = .ok p → Inv ⟨p, 0⟩ [])
    (keep : ∀ {before after v history}, Inv before history → Pool.Step before v after →
      Inv after (history ++ v.toList))
    (h : w.Reachable c) : Inv w.pool w.history := by
  obtain ⟨p, moves, hp, hrun⟩ := h
  suffices hall : ∀ w₀ : World, Inv w₀.pool w₀.history → w₀.run moves = some w →
      Inv w.pool w.history from hall (World.ofPipe p) (start p hp) hrun
  clear hrun
  induction moves with
  | nil =>
      intro w₀ h₀ hrun
      obtain rfl := Option.some.inj hrun
      exact h₀
  | cons move moves ih =>
      intro w₀ h₀ hrun
      obtain ⟨w₁, hs, hrun⟩ := run_cons.mp hrun
      obtain ⟨v, hstep, hh⟩ := pool_step hs
      exact ih w₁ (hh ▸ keep h₀ hstep) hrun

end World

end MessagePipe
