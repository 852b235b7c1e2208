import MessagePipe.Proofs.Pipe.Confluence
import MessagePipe.Proofs.Pipe.Linearization

/-!
# MessagePipe.Proofs.Pipe.Places

Threads followed at their places.  A thread keeps its place, its party and its
call, and only three things happen to it: it stays as it is, it is roused while
it is parked, or it goes on by itself (`Onward`); what it can do then is listed
by `Acts`.

A `Course` is a sequence of worlds, one move or none apart, in which no thread
is kept from going on for ever.  A thread that is not at rest then stays as it
is until it goes on, and it does go on (`Course.goes`).
-/

namespace MessagePipe

/-- The place of the thread that makes the move. Nobody does who appears or is roused. -/
def Move.actor : Move → Option Nat
  | .load i | .lock i _ | .signal i => some i
  | .start _ _ | .rouse _ => none

namespace World

/-- The thread at a place goes on by itself. -/
def GoesAt (i : Nat) (w w' : World) : Prop :=
  ∃ move : Move, move.actor = some i ∧ w.step move = some w'

/-- What a thread that goes on makes of itself, and what is to be seen of it elsewhere. -/
inductive Acts (i : Nat) (w w' : World) (t : Thread) : Thread → Prop
  | load (h : t.loads = true) : Acts i w w' t { t with phase := .primed w.pipe.expiryMs }
  | answer {m : Moment} {reply : Reply} {q : Pipe} (h : t.look w.pipe m = some (some reply, q))
      (told : w'.history = w.history ++ [⟨t.party, t.call, m.now, reply⟩]) :
      Acts i w w' t (t.leave reply)
  | park {m : Moment} {q : Pipe} (h : t.look w.pipe m = some (none, q)) : Acts i w w' t t.park
  | signal {side : Side} {owed : List Side} {reply : Reply}
      (h : t.phase = .leaving (side :: owed) reply)
      (heard : ∀ j u, j ≠ i → w.threads[j]? = some u → w'.threads[j]? = some (u.wake side)) :
      Acts i w w' t { t with phase := .leaving owed reply }

/-- What one move makes of a thread that was there before. -/
inductive Onward (i : Nat) (w w' : World) (t : Thread) : Thread → Prop
  | same : Onward i w w' t t
  | roused {side : Side} (h : t.phase = .parked side) :
      Onward i w w' t { t with phase := .woken side }
  | goes {t' : Thread} (h : w.GoesAt i w') (ha : Acts i w w' t t') : Onward i w w' t t'

variable {w w' : World} {i : Nat} {t t' : Thread} {move : Move} {moves : List Move}

/-! ## One move -/

theorem lt_length_of_at (ht : w.threads[i]? = some t) : i < w.threads.length :=
  (List.getElem?_eq_some_iff.mp ht).1

/-- Whoever sees a signal stays as before, or was parked and is woken. -/
theorem onward_wake (side : Side) (t : Thread) : Onward i w w' t (t.wake side) := by
  obtain ⟨party, call, phase⟩ := t
  cases phase with
  | parked s =>
      simp only [Thread.wake]
      split
      · exact .roused rfl
      · exact .same
  | _ => exact .same

theorem GoesAt.acts (h : w.GoesAt i w') :
    ∃ t t', w.threads[i]? = some t ∧ w'.threads[i]? = some t' ∧ Acts i w w' t t' := by
  obtain ⟨move, hactor, hstep⟩ := h
  cases move with
  | start party call => contradiction
  | rouse j => contradiction
  | load j =>
      obtain rfl := Option.some.inj hactor
      obtain ⟨t, ht, hl, rfl⟩ := load_eq_some hstep
      exact ⟨t, _, ht, List.getElem?_set_self (lt_length_of_at ht), .load hl⟩
  | lock j m =>
      obtain rfl := Option.some.inj hactor
      obtain ⟨t, ⟨answer, q⟩, ht, hlook, rfl⟩ := lock_eq_some hstep
      have hset := fun u => List.getElem?_set_self (a := u) (lt_length_of_at ht)
      cases answer with
      | some reply => exact ⟨t, _, ht, hset _, .answer hlook rfl⟩
      | none => exact ⟨t, _, ht, hset _, .park hlook⟩
  | signal j =>
      obtain rfl := Option.some.inj hactor
      obtain ⟨t, side, owed, reply, ht, hphase, rfl⟩ := signal_eq_some hstep
      refine ⟨t, { t with phase := .leaving owed reply }, ht, ?_,
        .signal hphase fun k u hk hu => ?_⟩
      · rw [List.getElem?_map, List.getElem?_set_self (lt_length_of_at ht)]
        rfl
      · rw [List.getElem?_map, List.getElem?_set_ne hk.symm, hu]
        rfl

theorem step_at (h : w.step move = some w') (ht : w.threads[i]? = some t) :
    ∃ t', w'.threads[i]? = some t' ∧ Onward i w w' t t' := by
  have hi := lt_length_of_at ht
  by_cases hactor : move.actor = some i
  · have hgoes : w.GoesAt i w' := ⟨move, hactor, h⟩
    obtain ⟨u, t', hu, ht', ha⟩ := hgoes.acts
    obtain rfl := Option.some.inj (hu.symm.trans ht)
    exact ⟨t', ht', .goes hgoes ha⟩
  -- the move is another's: the place is left alone, unless its thread is roused or sees a signal
  cases move with
  | start party call =>
      obtain rfl := Option.some.inj h
      exact ⟨t, (List.getElem?_append_left hi).trans ht, .same⟩
  | load j =>
      have hne : j ≠ i := fun hj => hactor (congrArg some hj)
      obtain ⟨u, hu, hl, rfl⟩ := load_eq_some h
      exact ⟨t, (List.getElem?_set_ne hne).trans ht, .same⟩
  | lock j m =>
      have hne : j ≠ i := fun hj => hactor (congrArg some hj)
      obtain ⟨u, ⟨answer, q⟩, hu, hlook, rfl⟩ := lock_eq_some h
      cases answer <;> exact ⟨t, (List.getElem?_set_ne hne).trans ht, .same⟩
  | signal j =>
      have hne : j ≠ i := fun hj => hactor (congrArg some hj)
      obtain ⟨u, side, owed, reply, hu, hphase, rfl⟩ := signal_eq_some h
      refine ⟨t.wake side, ?_, onward_wake side t⟩
      rw [List.getElem?_map, List.getElem?_set_ne hne, ht]
      rfl
  | rouse j =>
      obtain ⟨u, side, hu, hphase, rfl⟩ := rouse_eq_some h
      by_cases hj : j = i
      · subst hj
        obtain rfl := Option.some.inj (hu.symm.trans ht)
        exact ⟨_, List.getElem?_set_self hi, .roused hphase⟩
      · exact ⟨t, (List.getElem?_set_ne hj).trans ht, .same⟩

/-- As many threads as before, or one more that has just appeared. -/
theorem threads_step (h : w.step move = some w') :
    w'.threads.length = w.threads.length ∨
      ∃ u : Thread, u.phase = .entering ∧ w'.threads = w.threads ++ [u] := by
  cases move with
  | start party call =>
      obtain rfl := Option.some.inj h
      exact .inr ⟨_, rfl, rfl⟩
  | load j =>
      obtain ⟨u, -, -, rfl⟩ := load_eq_some h
      exact .inl List.length_set
  | lock j m =>
      obtain ⟨u, ⟨answer, q⟩, -, -, rfl⟩ := lock_eq_some h
      cases answer <;> exact .inl List.length_set
  | signal j =>
      obtain ⟨u, side, owed, reply, -, -, rfl⟩ := signal_eq_some h
      exact .inl ((List.length_map _).trans List.length_set)
  | rouse j =>
      obtain ⟨u, side, -, -, rfl⟩ := rouse_eq_some h
      exact .inl List.length_set

/-- Whoever was not there before has just appeared. -/
theorem entering_of_step (h : w.step move = some w') (ht : w'.threads[i]? = some t')
    (hnone : w.threads[i]? = none) : t'.phase = .entering := by
  rw [List.getElem?_eq_none_iff] at hnone
  rcases threads_step h with hlen | ⟨u, hu, hthreads⟩
  · have hi := lt_length_of_at ht
    omega
  · rw [hthreads, List.getElem?_append_right hnone, List.getElem?_singleton] at ht
    split at ht
    · obtain rfl := Option.some.inj ht
      exact hu
    · contradiction

theorem Acts.not_rests (h : Acts i w w' t t') : ¬ t.Rests := by
  intro hr
  have phases : (∃ side, t.phase = .parked side) ∨ ∃ reply, t.phase = .leaving [] reply := hr
  cases h with
  | load hl => simp [(Thread.loads_phase hl).2] at phases
  | answer hlook | park hlook =>
      rcases phases with ⟨side, hp⟩ | ⟨reply, hp⟩ <;> simp [Thread.look, hp] at hlook
  | signal hp => simp [hp] at phases

namespace Onward

/-- A thread keeps its party and its call. -/
theorem frame (h : Onward i w w' t t') : t'.party = t.party ∧ t'.call = t.call := by
  cases h with
  | goes _ ha => cases ha <;> exact ⟨rfl, rfl⟩
  | _ => exact ⟨rfl, rfl⟩

/-- What was decided stays decided. -/
theorem verdict {x : Option Nat × Call × Reply} (h : Onward i w w' t t') (hx : t.verdict = some x) :
    t'.verdict = some x := by
  cases h with
  | same => exact hx
  | roused hp => simp [Thread.verdict, hp] at hx
  | goes _ ha =>
      cases ha with
      | load hl => simp [Thread.verdict, (Thread.loads_phase hl).2] at hx
      | answer hlook => rw [Thread.verdict_of_look hlook] at hx; contradiction
      | park hlook => rw [Thread.verdict_of_look hlook] at hx; contradiction
      | signal hp => simpa [Thread.verdict, hp] using hx

/-- What is decided now is told now. -/
theorem told (h : Onward i w w' t t') (ht : t.verdict = none) :
    t'.verdict = none ∨ ∃ v, w'.history = w.history ++ [v] ∧ t'.verdict = some v.verdict := by
  cases h with
  | same => exact .inl ht
  | roused hp => exact .inl rfl
  | goes _ ha =>
      cases ha with
      | load hl => exact .inl rfl
      | answer hlook htold => exact .inr ⟨_, htold, rfl⟩
      | park hlook => exact .inl rfl
      | signal hp => simp [Thread.verdict, hp] at ht

end Onward

/-! ## Many moves -/

/-- A thread keeps its place, its party and its call, and what was decided. -/
theorem run_at (h : w.run moves = some w') (ht : w.threads[i]? = some t) :
    ∃ t', w'.threads[i]? = some t' ∧ t'.party = t.party ∧ t'.call = t.call ∧
      ∀ x, t.verdict = some x → t'.verdict = some x := by
  induction moves generalizing w t with
  | nil =>
      obtain rfl := Option.some.inj h
      exact ⟨t, ht, rfl, rfl, fun _ hx => hx⟩
  | cons move moves ih =>
      obtain ⟨w₁, hs, hrun⟩ := run_cons.mp h
      obtain ⟨t₁, ht₁, hon⟩ := step_at hs ht
      obtain ⟨t', ht', hparty, hcall, hverdict⟩ := ih hrun ht₁
      obtain ⟨hparty₁, hcall₁⟩ := hon.frame
      exact ⟨t', ht', hparty.trans hparty₁, hcall.trans hcall₁,
        fun x hx => hverdict x (hon.verdict hx)⟩

/-- A call that was not decided is told of once it is. -/
theorem told_since (h : w.run moves = some w') (ht' : w'.threads[i]? = some t')
    (hw : ∀ t, w.threads[i]? = some t → t.verdict = none) :
    t'.verdict = none ∨ ∃ v ∈ w.since w', t'.verdict = some v.verdict := by
  induction moves generalizing w with
  | nil =>
      obtain rfl := Option.some.inj h
      exact .inl (hw t' ht')
  | cons move moves ih =>
      obtain ⟨w₁, hs, hrun⟩ := run_cons.mp h
      obtain ⟨u, -, hu⟩ := pool_step hs
      have hsplit := since_step hu hrun
      by_cases hw₁ : ∀ t, w₁.threads[i]? = some t → t.verdict = none
      · rcases ih hrun hw₁ with hnone | ⟨v, hv, htold⟩
        · exact .inl hnone
        · exact .inr ⟨v, hsplit ▸ List.mem_append_right _ hv, htold⟩
      -- the first move decided it
      simp only [not_forall] at hw₁
      obtain ⟨t₁, ht₁, hdecided⟩ := hw₁
      cases ht : w.threads[i]? with
      | none => simp [Thread.verdict, entering_of_step hs ht₁ ht] at hdecided
      | some t =>
          obtain ⟨t₂, ht₂, hon⟩ := step_at hs ht
          obtain rfl := Option.some.inj (ht₁.symm.trans ht₂)
          obtain hnone | ⟨v, hv, htold⟩ := hon.told (hw t ht)
          · contradiction
          obtain ⟨t₃, ht₃, -, -, hkept⟩ := run_at hrun ht₁
          obtain rfl := Option.some.inj (ht'.symm.trans ht₃)
          refine .inr ⟨v, ?_, hkept _ htold⟩
          rw [hu] at hv
          rw [hsplit, List.append_cancel_left hv]
          exact List.mem_append_left _ (List.mem_singleton_self v)

/-! ## Courses -/

/-- Worlds in turn: from one to the next there is a move or none, and no thread that can go on
from some time on, whatever happens, is kept from it for ever. -/
structure Course (f : Nat → World) : Prop where
  next : ∀ k, f (k + 1) = f k ∨ ∃ move, (f k).step move = some (f (k + 1))
  fair : ∀ i k, (∀ l, k ≤ l → ∃ w, (f l).GoesAt i w) → ∃ l, k ≤ l ∧ (f l).GoesAt i (f (l + 1))

/-- At rest nobody goes on. -/
theorem Quiet.not_goesAt (hq : w.Quiet) : ¬ w.GoesAt i w' := by
  intro hgoes
  obtain ⟨t, t', ht, -, ha⟩ := hgoes.acts
  exact ha.not_rests (hq t (List.mem_of_getElem? ht))

/-- A thread that is not at rest can go on. -/
theorem exists_goesAt (ht : w.threads[i]? = some t) (hr : ¬ t.Rests) : ∃ w', w.GoesAt i w' := by
  let m : Moment := ⟨0, false⟩
  cases hdue : t.due i m with
  | none => exact absurd ((due_eq_none_iff t i m).mp hdue) hr
  | some move =>
      obtain ⟨w', hstep⟩ := Option.isSome_iff_exists.mp (step_of_due ht hdue)
      refine ⟨w', move, ?_, hstep⟩
      obtain ⟨party, call, phase⟩ := t
      cases phase with
      | entering =>
          simp only [Thread.due] at hdue
          split at hdue <;> exact (Option.some.inj hdue) ▸ rfl
      | primed expiryMs | woken side => exact (Option.some.inj hdue) ▸ rfl
      | parked side => contradiction
      | leaving owed reply =>
          cases owed with
          | nil => contradiction
          | cons side owed => exact (Option.some.inj hdue) ▸ rfl

namespace Course

variable {f : Nat → World} {c : PipeConfig} {k l : Nat}

/-- Each world of a course comes after the earlier ones. -/
theorem exists_run (hf : Course f) (h : k ≤ l) : ∃ moves, (f k).run moves = some (f l) := by
  induction l, h using Nat.le_induction with
  | base => exact ⟨[], rfl⟩
  | succ l _ ih =>
      obtain ⟨moves, hrun⟩ := ih
      rcases hf.next l with hsame | ⟨move, hstep⟩
      · exact ⟨moves, hsame ▸ hrun⟩
      · refine ⟨moves ++ [move], ?_⟩
        rw [run_append, hrun, Option.bind_some, run, hstep]
        rfl

theorem next_at (hf : Course f) (ht : (f k).threads[i]? = some t) :
    ∃ t', (f (k + 1)).threads[i]? = some t' ∧ Onward i (f k) (f (k + 1)) t t' := by
  rcases hf.next k with hsame | ⟨move, hstep⟩
  · rw [hsame]
    exact ⟨t, ht, .same⟩
  · exact step_at hstep ht

/-- A thread that is not at rest stays as it is until it goes on, and at some time it does. -/
theorem goes (hf : Course f) (ht : (f k).threads[i]? = some t) (hr : ¬ t.Rests) :
    ∃ l t', k ≤ l ∧ (f (l + 1)).threads[i]? = some t' ∧ Acts i (f l) (f (l + 1)) t t' ∧
      (f l).threads[i]? = some t := by
  by_contra hnever
  have hkept : ∀ l, k ≤ l → (f l).threads[i]? = some t := by
    intro l hl
    induction l, hl using Nat.le_induction with
    | base => exact ht
    | succ l hl ih =>
        obtain ⟨t', ht', hon⟩ := hf.next_at ih
        cases hon with
        | same => exact ht'
        | roused hp => exact absurd (.inl ⟨_, hp⟩) hr
        | goes _ ha => exact absurd ⟨l, t', hl, ht', ha, ih⟩ hnever
  obtain ⟨l, hl, hgoes⟩ := hf.fair i k fun l hl => exists_goesAt (hkept l hl) hr
  obtain ⟨u, t', hu, ht', ha⟩ := hgoes.acts
  obtain rfl := Option.some.inj (hu.symm.trans (hkept l hl))
  exact hnever ⟨l, t', hl, ht', ha, hu⟩

end Course

/-- A world, and then those of another sequence. -/
def followedBy (w : World) (g : Nat → World) : Nat → World
  | 0 => w
  | k + 1 => g k

/-- Every run that comes to rest is a course in which nothing happens any more. -/
theorem exists_course (h : w.run moves = some w') (hq : w'.Quiet) :
    ∃ f, Course f ∧ f 0 = w ∧ f moves.length = w' := by
  induction moves generalizing w with
  | nil =>
      obtain rfl := Option.some.inj h
      refine ⟨fun _ => w, ⟨fun _ => .inl rfl, fun i k hall => ?_⟩, rfl, rfl⟩
      obtain ⟨w₁, hgoes⟩ := hall k (Nat.le_refl k)
      exact absurd hgoes hq.not_goesAt
  | cons move moves ih =>
      obtain ⟨w₁, hs, hrun⟩ := run_cons.mp h
      obtain ⟨g, hg, hstart, hend⟩ := ih hrun
      refine ⟨w.followedBy g, ⟨fun k => ?_, fun i k hall => ?_⟩, rfl, hend⟩
      · cases k with
        | zero => exact .inr ⟨move, hs.trans (congrArg some hstart.symm)⟩
        | succ k => exact hg.next k
      · obtain ⟨l, hl, hgoes⟩ := hg.fair i k fun l hl => hall (l + 1) (Nat.le_succ_of_le hl)
        exact ⟨l + 1, Nat.le_succ_of_le hl, hgoes⟩

end World

end MessagePipe
