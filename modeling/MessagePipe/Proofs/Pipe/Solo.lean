import MessagePipe.Pipe.Alone
import MessagePipe.Proofs.Pipe.Invariant

/-!
# MessagePipe.Proofs.Pipe.Solo

A call that is made while nobody else does anything.  Its thread takes the
lock, and perhaps parks and is roused again any number of times, and each time
it finds the pipe as it was before (`Pipe.SoloStage`).  So the call comes to
what one look comes to at which the time to wait is over, if that look gives a
reply (`ends_iff_visit`), and otherwise it is parked for good.

Other threads may be there, parked or on their way, as long as none of them
moves.  At each look the deadline of a timed call may have passed or not, so
every deadline is covered.

* `SoloStage.step` / `SoloStage.run` — what the moves of the thread keep;
* `SoloStage.exists_look` / `exists_result` — a thread that is not decided can
  look, and one that is decided can return.
-/

namespace MessagePipe

/-- A move of the thread at place `i`, at a time when the clock shows `now`. -/
def Move.IsOf (i : Nat) (now : UInt64) : Move → Prop
  | .start _ _ => False
  | .load j | .signal j | .rouse j => j = i
  | .lock j m => j = i ∧ m.now = now

theorem World.run_singleton {w w' : World} {move : Move} (h : w.step move = some w') :
    w.run [move] = some w' :=
  run_cons.mpr ⟨w', h, rfl⟩

/-- Where a thread is after a look. -/
def Phase.afterLook (call : Call) : Option Reply → Phase
  | some reply => .leaving reply.signals reply
  | none => .parked call.side

/-- Whether the call of a thread is decided. -/
def Phase.decided : Phase → Bool
  | leaving _ _ => true
  | _ => false

namespace Pipe

theorem withdraw_enroll (p : Pipe) (side : Side) : (p.enroll side).withdraw side = p := by
  cases side <;> rfl

/-- Who gives up at some time gives up for the same reason when the time is over. -/
theorem refusal_late {wait : Wait} {late : Bool} {e : PipeError}
    (h : wait.refusal late = some e) : wait.refusal true = some e := by
  cases wait with
  | never => exact h
  | forever => contradiction
  | timed =>
      cases late
      · contradiction
      · exact h

/-- A look that gives a reply gives the same one when the time to wait is over. -/
theorem visit_late {p q : Pipe} {call : Call} {now : UInt64} {late : Bool} {reply : Reply}
    (h : p.visit ⟨now, late⟩ call = (some reply, q)) :
    p.visit ⟨now, true⟩ call = (some reply, q) := by
  cases call with
  | send sender data wait =>
      rw [visit_send] at h ⊢
      split
      · next hd => rwa [if_pos hd] at h
      next hd =>
      split
      · next hc => rwa [if_neg hd, if_pos hc] at h
      next hc =>
      split
      · next hf =>
          rw [if_neg hd, if_neg hc, if_pos hf] at h
          obtain ⟨hreply, rfl⟩ := Prod.mk.inj h
          obtain ⟨e, he, rfl⟩ := Option.map_eq_some_iff.mp hreply
          rw [refusal_late he, Option.map_some]
      · next hf => rwa [if_neg hd, if_neg hc, if_neg hf] at h
  | recv reader out wait =>
      rw [visit_recv] at h ⊢
      split
      · next he =>
          rw [if_pos he] at h
          split
          · next hc => rwa [if_pos hc] at h
          · next hc =>
              rw [if_neg hc] at h
              obtain ⟨hreply, rfl⟩ := Prod.mk.inj h
              obtain ⟨e, he, rfl⟩ := Option.map_eq_some_iff.mp hreply
              rw [refusal_late he, Option.map_some]
      · next he => rwa [if_neg he] at h
  | sweep | setExpiry _ _ | clear _ | close => exact h

/-- How late it is makes a difference only to who gives up. -/
theorem visit_congr {p : Pipe} {call : Call} {now : UInt64} {late late' : Bool}
    (h : call.wait.refusal late = call.wait.refusal late') :
    p.visit ⟨now, late⟩ call = p.visit ⟨now, late'⟩ call := by
  cases call with
  | send sender data wait =>
      have h : wait.refusal late = wait.refusal late' := h
      simp only [visit_send, h]
  | recv reader out wait =>
      have h : wait.refusal late = wait.refusal late' := h
      simp only [visit_recv, h]
  | sweep | setExpiry _ _ | clear _ | close => rfl

/-- A call alone comes to what a look comes to once the time to wait is over. -/
theorem alone_of_visit {p q : Pipe} {call : Call} {now : UInt64} {reply : Reply}
    (h : p.visit ⟨now, true⟩ call = (some reply, q)) (late : Bool) :
    p.alone call now late = (some reply, q) := by
  unfold alone
  cases hv : p.visit ⟨now, late⟩ call with
  | mk answer p' =>
  cases answer with
  | some reply' => exact (visit_late hv).symm.trans h
  | none =>
      obtain ⟨-, -, hrefusal⟩ := visit_eq_none (congrArg Prod.fst hv)
      cases hwait : call.wait with
      | never => rw [hwait] at hrefusal; contradiction
      | forever =>
          have hsame : p.visit ⟨now, late⟩ call = p.visit ⟨now, true⟩ call :=
            visit_congr (by rw [hwait]; rfl)
          rw [hsame, h] at hv
          cases hv
      | timed =>
          have hp := (visit_eq_none (congrArg Prod.fst hv)).1
          rw [hv] at hp
          obtain rfl : p' = p := hp
          dsimp only
          rw [withdraw_enroll, h]

/-- If that look gives no reply, the call is parked for good. -/
theorem alone_of_visit_none {p : Pipe} {call : Call} {now : UInt64}
    (h : (p.visit ⟨now, true⟩ call).1 = none) (late : Bool) :
    p.alone call now late = (none, p.enroll call.side) := by
  obtain ⟨-, -, hrefusal⟩ := visit_eq_none h
  unfold alone
  cases hv : p.visit ⟨now, late⟩ call with
  | mk answer p' =>
  cases answer with
  | some reply => rw [visit_late hv] at h; contradiction
  | none =>
      have hp := (visit_eq_none (congrArg Prod.fst hv)).1
      rw [hv] at hp
      obtain rfl : p' = p := hp
      cases hwait : call.wait with
      | timed => rw [hwait] at hrefusal; contradiction
      | never | forever => rfl

/-- Where the thread can be that makes a call on the pipe `p` while nobody else does anything,
and what has become of the pipe then. -/
inductive SoloStage (p : Pipe) (call : Call) (now : UInt64) : Phase → Pipe → Prop
  | entering : SoloStage p call now .entering p
  | primed (hcall : call = .sweep) : SoloStage p call now (.primed p.expiryMs) p
  | parked {late : Bool} (h : p.visit ⟨now, late⟩ call = (none, p)) :
      SoloStage p call now (.parked call.side) (p.enroll call.side)
  | woken {late : Bool} (h : p.visit ⟨now, late⟩ call = (none, p)) :
      SoloStage p call now (.woken call.side) (p.enroll call.side)
  | leaving {late : Bool} {owed : List Side} {reply : Reply} {q : Pipe}
      (h : p.visit ⟨now, late⟩ call = (some reply, q)) :
      SoloStage p call now (.leaving owed reply) q

end Pipe

namespace Pipe.SoloStage

open World

variable {w w' : World} {p q : Pipe} {i : Nat} {t : Thread} {call : Call} {now : UInt64}
  {move : Move} {moves : List Move}

/-! ### What a stage tells -/

theorem of_entering (h : p.SoloStage call now .entering q) : q = p := by
  cases h
  rfl

theorem of_primed {expiryMs : UInt64} (h : p.SoloStage call now (.primed expiryMs) q) : q = p := by
  cases h
  rfl

theorem of_parked {side : Side} (h : p.SoloStage call now (.parked side) q) :
    ∃ late, p.visit ⟨now, late⟩ call = (none, p) ∧ q = p.enroll call.side := by
  cases h with
  | parked hv => exact ⟨_, hv, rfl⟩

theorem of_woken {side : Side} (h : p.SoloStage call now (.woken side) q) :
    ∃ late, p.visit ⟨now, late⟩ call = (none, p) ∧ q = p.enroll call.side := by
  cases h with
  | woken hv => exact ⟨_, hv, rfl⟩

theorem of_leaving {owed : List Side} {reply : Reply}
    (h : p.SoloStage call now (.leaving owed reply) q) :
    ∃ late, p.visit ⟨now, late⟩ call = (some reply, q) := by
  cases h with
  | leaving hv => exact ⟨_, hv⟩

/-! ### What the thread keeps -/

/-- Whenever the thread looks, it finds the pipe as it was before the call. -/
theorem look {m : Moment} {found : Option Reply × Pipe} (hs : p.SoloStage t.call now t.phase q)
    (h : t.look q m = some found) : found = p.visit m t.call := by
  obtain ⟨party, call, phase⟩ := t
  dsimp only at hs
  cases hs with
  | entering =>
      simp only [Thread.look] at h
      split at h
      · contradiction
      · exact (Option.some.inj h).symm
  | primed hcall =>
      obtain rfl : call = .sweep := hcall
      exact (Option.some.inj h).symm
  | woken hv =>
      obtain rfl := Option.some.inj h
      dsimp only
      rw [withdraw_enroll]
  | parked hv | leaving hv => contradiction

/-- After a look the thread has left with the reply, or is parked. -/
theorem conclude {m : Moment} (hm : m.now = now) (t : Thread) :
    p.SoloStage t.call now (.afterLook t.call (p.visit m t.call).1)
      (w.conclude i t m (p.visit m t.call)).pipe := by
  obtain ⟨now', late⟩ := m
  obtain rfl : now' = now := hm
  cases hv : p.visit ⟨now', late⟩ t.call with
  | mk answer q =>
  cases answer with
  | some reply => exact .leaving hv
  | none =>
      have hq := (visit_eq_none (congrArg Prod.fst hv)).1
      rw [hv] at hq
      obtain rfl : q = p := hq
      exact .parked hv

theorem at_conclude {m : Moment} (ht : w.threads[i]? = some t) (found : Option Reply × Pipe) :
    (w.conclude i t m found).threads[i]? =
      some { t with phase := .afterLook t.call found.1 } := by
  have hi := (List.getElem?_eq_some_iff.mp ht).1
  obtain ⟨answer, q⟩ := found
  cases answer <;> exact List.getElem?_set_self hi

/-- Every move of the thread keeps the stage. -/
theorem step (hs : p.SoloStage t.call now t.phase w.pipe) (ht : w.threads[i]? = some t)
    (hm : move.IsOf i now) (h : w.step move = some w') :
    ∃ phase, w'.threads[i]? = some { t with phase := phase } ∧
      p.SoloStage t.call now phase w'.pipe := by
  have hi := (List.getElem?_eq_some_iff.mp ht).1
  cases move with
  | start party call => contradiction
  | load j =>
      obtain rfl : j = i := hm
      obtain ⟨u, hu, hl, rfl⟩ := load_eq_some h
      obtain rfl := Option.some.inj (hu.symm.trans ht)
      obtain ⟨hcall, hphase⟩ := Thread.loads_phase hl
      refine ⟨_, List.getElem?_set_self hi, ?_⟩
      rw [hphase] at hs
      generalize hq : w.pipe = q at hs
      cases hs with
      | entering => exact hq ▸ .primed hcall
  | lock j m =>
      obtain ⟨rfl, hnow⟩ := hm
      obtain ⟨u, found, hu, hlook, rfl⟩ := lock_eq_some h
      obtain rfl := Option.some.inj (hu.symm.trans ht)
      obtain rfl := hs.look hlook
      exact ⟨_, at_conclude ht _, conclude hnow u⟩
  | signal j =>
      obtain rfl : j = i := hm
      obtain ⟨u, side, owed, reply, hu, hphase, rfl⟩ := signal_eq_some h
      obtain rfl := Option.some.inj (hu.symm.trans ht)
      refine ⟨.leaving owed reply, ?_, ?_⟩
      · rw [List.getElem?_map, List.getElem?_set_self hi]
        rfl
      · rw [hphase] at hs
        cases hs with
        | leaving hv => exact .leaving hv
  | rouse j =>
      obtain rfl : j = i := hm
      obtain ⟨u, side, hu, hphase, rfl⟩ := rouse_eq_some h
      obtain rfl := Option.some.inj (hu.symm.trans ht)
      refine ⟨_, List.getElem?_set_self hi, ?_⟩
      rw [hphase] at hs
      generalize hq : w.pipe = q at hs
      cases hs with
      | parked hv => exact hq ▸ .woken hv

/-- And so does every sequence of them. -/
theorem run (hs : p.SoloStage t.call now t.phase w.pipe) (ht : w.threads[i]? = some t)
    (hm : ∀ move ∈ moves, move.IsOf i now) (h : w.run moves = some w') :
    ∃ phase, w'.threads[i]? = some { t with phase := phase } ∧
      p.SoloStage t.call now phase w'.pipe := by
  induction moves generalizing w t with
  | nil =>
      obtain rfl := Option.some.inj h
      exact ⟨t.phase, ht, hs⟩
  | cons move moves ih =>
      obtain ⟨w₁, hstep, hrun⟩ := run_cons.mp h
      rw [List.forall_mem_cons] at hm
      obtain ⟨phase, ht₁, hs₁⟩ := hs.step ht hm.1 hstep
      exact ih (t := { t with phase := phase }) hs₁ ht₁ hm.2 hrun

/-! ### What the thread can do -/

/-- A thread that is not decided wants the lock, or does so after one move. -/
theorem exists_wanting (now : UInt64) (ht : w.threads[i]? = some t)
    (hopen : t.phase.decided = false) :
    ∃ moves w' phase, (∀ move ∈ moves, move.IsOf i now) ∧ w.run moves = some w' ∧
      w'.threads[i]? = some { t with phase := phase } ∧
      ∀ m, (({ t with phase := phase } : Thread).look w'.pipe m).isSome = true := by
  have hi := (List.getElem?_eq_some_iff.mp ht).1
  have hnil : ∀ move ∈ ([] : List Move), move.IsOf i now := fun move h => absurd h List.not_mem_nil
  obtain ⟨party, call, phase⟩ := t
  cases phase with
  | entering =>
      cases hl : (⟨party, call, .entering⟩ : Thread).loads with
      | true =>
          refine ⟨[.load i], w.setThread i ⟨party, call, .primed w.pipe.expiryMs⟩, _, ?_,
            run_singleton ?_, List.getElem?_set_self hi, fun m => rfl⟩
          · exact List.forall_mem_singleton.mpr rfl
          · simp only [World.step, ht, hl, Option.bind_eq_bind, Option.bind_some, if_true]
      | false =>
          refine ⟨[], w, .entering, hnil, rfl, ht, fun m => ?_⟩
          simp only [Thread.look, hl, Bool.false_eq_true, if_false, Option.isSome_some]
  | primed expiryMs => exact ⟨[], w, _, hnil, rfl, ht, fun m => rfl⟩
  | parked side =>
      refine ⟨[.rouse i], w.setThread i ⟨party, call, .woken side⟩, _, ?_, run_singleton ?_,
        List.getElem?_set_self hi, fun m => rfl⟩
      · exact List.forall_mem_singleton.mpr rfl
      · simp only [World.step, ht, Option.bind_eq_bind, Option.bind_some]
  | woken side => exact ⟨[], w, _, hnil, rfl, ht, fun m => rfl⟩
  | leaving owed reply => contradiction

/-- Whatever the thread has done so far, it can look now, unless its call is decided. -/
theorem exists_look (hs : p.SoloStage t.call now t.phase w.pipe) (ht : w.threads[i]? = some t)
    (hopen : t.phase.decided = false) (late : Bool) :
    ∃ moves w', (∀ move ∈ moves, move.IsOf i now) ∧ w.run moves = some w' ∧
      w'.threads[i]? =
        some { t with phase := .afterLook t.call (p.visit ⟨now, late⟩ t.call).1 } := by
  obtain ⟨moves, w₁, phase, hmoves, hrun, ht₁, hwants⟩ := exists_wanting now ht hopen
  obtain ⟨phase₁, ht₁', hs₁⟩ := hs.run ht hmoves hrun
  obtain rfl : phase = phase₁ := by
    have heq := Option.some.inj (ht₁.symm.trans ht₁')
    rw [Thread.mk.injEq] at heq
    exact heq.2.2
  obtain ⟨found, hfound⟩ := Option.isSome_iff_exists.mp (hwants ⟨now, late⟩)
  obtain rfl := look (t := { t with phase := phase }) hs₁ hfound
  refine ⟨moves ++ [.lock i ⟨now, late⟩],
    w₁.conclude i { t with phase := phase } ⟨now, late⟩ (p.visit ⟨now, late⟩ t.call), ?_, ?_,
    at_conclude ht₁ _⟩
  · exact List.forall_mem_append.mpr ⟨hmoves, List.forall_mem_singleton.mpr ⟨rfl, rfl⟩⟩
  · rw [World.run_append, hrun, Option.bind_some]
    refine run_singleton ?_
    simp only [World.step, ht₁, hfound, Option.bind_eq_bind, Option.bind_some]

/-- A thread that is decided can wake whom it owes a signal, and return. -/
theorem exists_result {owed : List Side} {reply : Reply} (ht : w.threads[i]? = some t)
    (hphase : t.phase = .leaving owed reply) :
    ∃ moves w', (∀ move ∈ moves, move.IsOf i now) ∧ w.run moves = some w' ∧
      w'.threads[i]? = some { t with phase := .leaving [] reply } := by
  obtain ⟨party, call, phase⟩ := t
  obtain rfl : phase = .leaving owed reply := hphase
  induction owed generalizing w with
  | nil => exact ⟨[], w, fun move h => absurd h List.not_mem_nil, rfl, ht⟩
  | cons side owed ih =>
      have hi := (List.getElem?_eq_some_iff.mp ht).1
      let w₁ : World := { w with
        threads := (w.threads.set i ⟨party, call, .leaving owed reply⟩).map (Thread.wake side) }
      have hstep : w.step (.signal i) = some w₁ := by
        simp only [World.step, ht, Option.bind_eq_bind, Option.bind_some, w₁]
      have ht₁ : w₁.threads[i]? = some ⟨party, call, .leaving owed reply⟩ := by
        rw [List.getElem?_map, List.getElem?_set_self hi]
        rfl
      obtain ⟨moves, w', hmoves, hrun, ht'⟩ := ih ht₁
      exact ⟨.signal i :: moves, w', List.forall_mem_cons.mpr ⟨rfl, hmoves⟩,
        run_cons.mpr ⟨w₁, hstep, hrun⟩, ht'⟩

end Pipe.SoloStage

/-! ## Calls from beginning to end -/

namespace World

/-- A thread appears and makes a call, and nobody else does anything: `w'` is a world on the way,
and `t` is what has become of the thread there. -/
def Solo (w : World) (party : Option Nat) (call : Call) (now : UInt64) (w' : World) (t : Thread) :
    Prop :=
  ∃ moves, w.run (.start party call :: moves) = some w' ∧
    (∀ move ∈ moves, move.IsOf w.threads.length now) ∧ w'.threads[w.threads.length]? = some t

variable {w w' w'' : World} {party : Option Nat} {call : Call} {now : UInt64} {t t' : Thread}
  {moves : List Move} {late : Bool} {reply : Reply} {q : Pipe}

theorem Solo.start (w : World) (party : Option Nat) (call : Call) (now : UInt64) :
    ∃ w', w.Solo party call now w' ⟨party, call, .entering⟩ :=
  ⟨{ w with threads := w.threads ++ [⟨party, call, .entering⟩] }, [], rfl,
    fun _ h => absurd h List.not_mem_nil, by simp⟩

theorem Solo.stage (h : w.Solo party call now w' t) :
    t.party = party ∧ t.call = call ∧ w.pipe.SoloStage call now t.phase w'.pipe := by
  obtain ⟨moves, hrun, hmoves, ht⟩ := h
  obtain ⟨w₁, hstart, hrun⟩ := run_cons.mp hrun
  obtain rfl := Option.some.inj hstart
  obtain ⟨phase, ht', hs⟩ := Pipe.SoloStage.run (t := ⟨party, call, .entering⟩) .entering
    (by simp) hmoves hrun
  obtain rfl := Option.some.inj (ht.symm.trans ht')
  exact ⟨rfl, rfl, hs⟩

/-- The thread goes on. -/
theorem Solo.after (h : w.Solo party call now w' t)
    (hmoves : ∀ move ∈ moves, move.IsOf w.threads.length now) (hrun : w'.run moves = some w'')
    (ht : w''.threads[w.threads.length]? = some t') : w.Solo party call now w'' t' := by
  obtain ⟨before, hbefore, hall, -⟩ := h
  refine ⟨before ++ moves, ?_, List.forall_mem_append.mpr ⟨hall, hmoves⟩, ht⟩
  rw [← List.cons_append, run_append, hbefore, Option.bind_some, hrun]

/-- A thread that is not decided can look. -/
theorem Solo.look (h : w.Solo party call now w' t) (hopen : t.phase.decided = false)
    (late : Bool) :
    ∃ moves w'', w'.run moves = some w'' ∧ w.Solo party call now w''
      ⟨party, call, .afterLook call (w.pipe.visit ⟨now, late⟩ call).1⟩ := by
  obtain ⟨hparty, hcall, hs⟩ := h.stage
  have ht := h.choose_spec.2.2
  obtain ⟨moves, w'', hmoves, hrun, ht''⟩ := (hcall ▸ hs).exists_look ht hopen late
  rw [hparty, hcall] at ht''
  exact ⟨moves, w'', hrun, h.after hmoves hrun ht''⟩

/-- A thread that is decided can return. -/
theorem Solo.result {owed : List Side} (h : w.Solo party call now w' t)
    (hphase : t.phase = .leaving owed reply) :
    ∃ moves w'', w'.run moves = some w'' ∧
      w.Solo party call now w'' ⟨party, call, .leaving [] reply⟩ := by
  obtain ⟨hparty, hcall, -⟩ := h.stage
  have ht := h.choose_spec.2.2
  obtain ⟨moves, w'', hmoves, hrun, ht''⟩ := Pipe.SoloStage.exists_result ht hphase
  rw [hparty, hcall] at ht''
  exact ⟨moves, w'', hrun, h.after hmoves hrun ht''⟩

/-- The call comes to an end with this reply and this pipe, however its thread goes about it. -/
structure Ends (w : World) (call : Call) (now : UInt64) (reply : Reply) (q : Pipe) : Prop where
  /-- From wherever it is, the thread can go on until it returns. -/
  returns : ∀ {party w' t}, w.Solo party call now w' t → ∃ moves w'', w'.run moves = some w'' ∧
    w.Solo party call now w'' ⟨party, call, .leaving [] reply⟩
  /-- No other reply is ever given, and the pipe is this one from then on. -/
  decided : ∀ {party w' t owed reply'}, w.Solo party call now w' t →
    t.phase = .leaving owed reply' → reply' = reply ∧ w'.pipe = q

/-- The call comes to this end, and its thread never parks. -/
structure EndsAtOnce (w : World) (call : Call) (now : UInt64) (reply : Reply) (q : Pipe) : Prop
    extends w.Ends call now reply q where
  unparked : ∀ {party w' t} side, w.Solo party call now w' t →
    t.phase ≠ .parked side ∧ t.phase ≠ .woken side

/-- The call comes to no end: its thread parks, and parks again whenever it is roused. -/
structure Waits (w : World) (call : Call) (now : UInt64) : Prop where
  /-- From wherever it is, the thread can go on until it is parked. -/
  parks : ∀ {party w' t}, w.Solo party call now w' t → ∃ moves w'', w'.run moves = some w'' ∧
    w.Solo party call now w'' ⟨party, call, .parked call.side⟩ ∧
    w''.pipe = w.pipe.enroll call.side
  undecided : ∀ {party w' t}, w.Solo party call now w' t → t.phase.decided = false
  /-- Nothing changes but that one more is counted as waiting. -/
  pipe : ∀ {party w' t}, w.Solo party call now w' t →
    w'.pipe = w.pipe ∨ w'.pipe = w.pipe.enroll call.side

theorem ends_of_visit (h : w.pipe.visit ⟨now, true⟩ call = (some reply, q)) :
    w.Ends call now reply q := by
  have hdecided : ∀ {party w' t owed reply'}, w.Solo party call now w' t →
      t.phase = .leaving owed reply' → reply' = reply ∧ w'.pipe = q := by
    intro party w' t owed reply' hsolo hphase
    obtain ⟨-, -, hs⟩ := hsolo.stage
    obtain ⟨late, hv⟩ := (hphase ▸ hs).of_leaving
    have heq := (Pipe.visit_late hv).symm.trans h
    rw [Prod.mk.injEq, Option.some.injEq] at heq
    exact heq
  refine ⟨?_, hdecided⟩
  intro party w' t hsolo
  cases hopen : t.phase.decided with
  | true =>
      obtain ⟨party', call', phase⟩ := t
      cases phase with
      | leaving owed reply' =>
          obtain ⟨rfl, -⟩ := hdecided hsolo rfl
          exact hsolo.result rfl
      | _ => contradiction
  | false =>
      obtain ⟨moves, w₁, hrun, hlook⟩ := hsolo.look hopen true
      rw [h] at hlook
      obtain ⟨moves', w₂, hrun', hresult⟩ := hlook.result rfl
      refine ⟨moves ++ moves', w₂, ?_, hresult⟩
      rw [run_append, hrun, Option.bind_some, hrun']

/-- A call comes to an end if a look does once the time to wait is over. -/
theorem ends_iff_visit :
    w.Ends call now reply q ↔ w.pipe.visit ⟨now, true⟩ call = (some reply, q) := by
  refine ⟨fun h => ?_, ends_of_visit⟩
  obtain ⟨w₁, hstart⟩ := Solo.start w none call now
  obtain ⟨moves, w₂, -, hsolo⟩ := h.returns hstart
  obtain ⟨-, rfl⟩ := h.decided hsolo rfl
  obtain ⟨-, -, hs⟩ := hsolo.stage
  obtain ⟨late, hv⟩ := hs.of_leaving
  exact Pipe.visit_late hv

/-- A thread parks only if a look leaves it nothing else to do. -/
theorem endsAtOnce_of_visit (h : ∀ late, w.pipe.visit ⟨now, late⟩ call = (some reply, q)) :
    w.EndsAtOnce call now reply q := by
  refine ⟨ends_of_visit (h true), fun side hsolo => ?_⟩
  obtain ⟨-, -, hs⟩ := hsolo.stage
  constructor
  · intro hphase
    obtain ⟨late, hv, -⟩ := (hphase ▸ hs).of_parked
    rw [h] at hv
    cases hv
  · intro hphase
    obtain ⟨late, hv, -⟩ := (hphase ▸ hs).of_woken
    rw [h] at hv
    cases hv

/-- A call is parked for good if a look gives it no reply even when the time to wait is over. -/
theorem waits_of_visit (h : (w.pipe.visit ⟨now, true⟩ call).1 = none) : w.Waits call now := by
  have hopen : ∀ {party w' t}, w.Solo party call now w' t → t.phase.decided = false := by
    intro party w' t hsolo
    obtain ⟨-, -, hs⟩ := hsolo.stage
    obtain ⟨party', call', phase⟩ := t
    cases phase with
    | leaving owed reply =>
        obtain ⟨late, hv⟩ := hs.of_leaving
        rw [Pipe.visit_late hv] at h
        contradiction
    | _ => rfl
  refine ⟨fun hsolo => ?_, hopen, @fun party w' t hsolo => ?_⟩
  · obtain ⟨moves, w₁, hrun, hlook⟩ := hsolo.look (hopen hsolo) true
    rw [h] at hlook
    obtain ⟨-, -, hs⟩ := hlook.stage
    obtain ⟨-, -, hpipe⟩ := hs.of_parked
    exact ⟨moves, w₁, hrun, hlook, hpipe⟩
  · obtain ⟨-, -, hs⟩ := hsolo.stage
    have hundecided := hopen hsolo
    obtain ⟨party', call', phase⟩ := t
    cases phase with
    | entering => exact .inl hs.of_entering
    | primed expiryMs => exact .inl hs.of_primed
    | parked side => exact .inr hs.of_parked.choose_spec.2
    | woken side => exact .inr hs.of_woken.choose_spec.2
    | leaving owed reply => contradiction

theorem waits_iff_visit : w.Waits call now ↔ (w.pipe.visit ⟨now, true⟩ call).1 = none := by
  refine ⟨fun h => ?_, waits_of_visit⟩
  cases hv : w.pipe.visit ⟨now, true⟩ call with
  | mk answer q =>
  cases answer with
  | none => rfl
  | some reply =>
      obtain ⟨w₁, hstart⟩ := Solo.start w none call now
      obtain ⟨moves, w₂, -, hreturned⟩ := (ends_of_visit hv).returns hstart
      have hopen := h.undecided hreturned
      contradiction

end World

end MessagePipe
