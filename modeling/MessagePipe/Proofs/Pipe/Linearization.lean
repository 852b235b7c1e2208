import MessagePipe.Proofs.Pipe.Invariant
import MessagePipe.Proofs.Pipe.Ledger

/-!
# MessagePipe.Proofs.Pipe.Linearization

A pipe that many threads work on at once behaves like a plain pipe that serves
one call after the other.  The order is that of the looks that ended the calls:
such a look is answered as the plain pipe answers (`plain_look`), and nothing
else that happens can be seen in the plain picture (`Explained.step`).  What
the plain pipe says about refused calls and about who took which message then
holds of all threads together (`World.Linearized`).
-/

namespace MessagePipe

/-- The call of a thread and its reply, once it is decided. -/
def Thread.verdict (t : Thread) : Option (Option Nat × Call × Reply) :=
  match t.phase with
  | .leaving _ reply => some (t.party, t.call, reply)
  | _ => none

/-- A finished call without its time. -/
def Visit.verdict (v : Visit) : Option Nat × Call × Reply := (v.party, v.call, v.reply)

/-! ## Looks -/

namespace Thread

variable {t : Thread} {p q : Pipe} {m : Moment}

/-- A look that ends a call is answered as the plain pipe answers. -/
theorem plain_look (hp : p.ring.WellFormed) (ht : t.Consistent) {reply : Reply}
    (h : t.look p m = some (some reply, q)) :
    p.plain.Answers ⟨t.party, t.call, m.now, reply⟩ q.plain := by
  have hplain : (t.resume p).plain = p.plain :=
    Pipe.plain_congr (ring_resume t p) (closed_resume t p)
  rcases look_cases h with ⟨-, hv⟩ | ⟨expiryMs, hphase, hs⟩
  · rw [Prod.mk.injEq] at hv
    obtain ⟨hreply, rfl⟩ := hv
    rw [← hplain]
    exact Pipe.plain_visit (by rw [ring_resume]; exact hp) hreply.symm
  · rw [Prod.mk.injEq, Option.some.injEq] at hs
    obtain ⟨rfl, rfl⟩ := hs
    have hcall : t.call = .sweep := by simpa only [Consistent, hphase] using ht
    rw [hcall]
    exact Pipe.plain_sweepReply hp expiryMs m.now m.now

theorem of_verdict {party : Option Nat} {call : Call} {reply : Reply}
    (h : t.verdict = some (party, call, reply)) : t.party = party ∧ t.call = call := by
  unfold verdict at h
  split at h
  · simp only [Option.some.injEq, Prod.mk.injEq] at h
    exact ⟨h.1, h.2.1⟩
  · contradiction

/-- A thread that wants the lock is not decided. -/
theorem verdict_of_look {found : Option Reply × Pipe} (h : t.look p m = some found) :
    t.verdict = none := by
  rcases look_cases h with ⟨hphase | ⟨side, hphase⟩, -⟩ | ⟨expiryMs, hphase, -⟩ <;>
    simp only [verdict, hphase]

@[simp] theorem verdict_wake (side : Side) (t : Thread) : (t.wake side).verdict = t.verdict := by
  obtain ⟨party, call, phase⟩ := t
  cases phase with
  | parked s => by_cases h : s = side <;> simp [wake, verdict, h]
  | _ => rfl

end Thread

/-! ## Whatever happens -/

namespace Pool

/-- The plain pipe explains the history, and the history tells of the threads that are decided
and of no others. -/
structure Explained (start : PlainPipe) (P : Pool) (h : List Visit) : Prop where
  replies : start.Explains h P.pipe.plain
  verdicts : P.crowd.filterMap Thread.verdict = (h.map Visit.verdict : List _)

theorem filterMap_verdict_wake (side : Side) (others : Multiset Thread) :
    (others.map (Thread.wake side)).filterMap Thread.verdict = others.filterMap Thread.verdict := by
  rw [Multiset.filterMap_map]
  congr 1
  exact funext fun t => Thread.verdict_wake side t

variable {start : PlainPipe} {before after : Pool} {v : Option Visit} {h : List Visit}

/-- A thread that goes on undecided cannot be seen. -/
theorem Explained.undecided {p q : Pipe} {t u : Thread} {others : Multiset Thread}
    (he : Explained start ⟨p, t ::ₘ others⟩ h) (hq : q.plain = p.plain) (ht : t.verdict = none)
    (hu : u.verdict = none) :
    Explained start ⟨q, u ::ₘ others⟩ (h ++ (none : Option Visit).toList) := by
  have hv := he.verdicts
  rw [Option.toList_none, List.append_nil]
  refine ⟨hq ▸ he.replies, ?_⟩
  rw [Multiset.filterMap_cons_none _ _ ht] at hv
  rw [Multiset.filterMap_cons_none _ _ hu, hv]

/-- A look that ends a call is explained by the plain pipe; the rest cannot be seen. -/
theorem Explained.step (hsound : before.Sound) (he : before.Explained start h)
    (hs : Step before v after) : after.Explained start (h ++ v.toList) := by
  cases hs with
  | @start p others party call =>
      have hv := he.verdicts
      rw [Option.toList_none, List.append_nil]
      exact ⟨he.replies, (Multiset.filterMap_cons_none _ _ rfl).trans hv⟩
  | @rouse p t others side hphase =>
      exact he.undecided rfl (by simp only [Thread.verdict, hphase]) rfl
  | @due m _ _ _ hd =>
      cases hd with
      | @load p t others hl =>
          have hphase := (Thread.loads_phase hl).2
          exact he.undecided rfl (by simp only [Thread.verdict, hphase]) rfl
      | @park p q t others hl =>
          obtain ⟨rfl, -, -⟩ := Thread.look_none hl
          exact he.undecided (Pipe.plain_congr (by simp) (by simp)) (Thread.verdict_of_look hl) rfl
      | @answer p q t others reply hl =>
          have ht := hsound.consistent t (Multiset.mem_cons_self t others)
          have hv := he.verdicts
          refine ⟨he.replies.concat (Thread.plain_look hsound.ring ht hl), ?_⟩
          rw [Multiset.filterMap_cons_none _ _ (Thread.verdict_of_look hl)] at hv
          rw [Multiset.filterMap_cons_some _ _ _
            (show (t.leave reply).verdict = some _ from rfl), hv]
          simp only [Option.toList_some, List.map_append, List.map_cons, List.map_nil]
          exact Multiset.coe_eq_coe.mpr (List.perm_append_singleton _ _).symm
      | @signal p t others side owed reply hphase =>
          have hv := he.verdicts
          have ht : t.verdict = some (t.party, t.call, reply) := by
            simp only [Thread.verdict, hphase]
          rw [Option.toList_none, List.append_nil]
          refine ⟨he.replies, ?_⟩
          rw [Multiset.filterMap_cons_some _ _ _ ht] at hv
          rw [Multiset.filterMap_cons_some _ _ _
            (show Thread.verdict { t with phase := .leaving owed reply } = some _ from rfl),
            filterMap_verdict_wake, hv]

end Pool

/-! ## All threads together -/

/-- What the history of a world tells, if the pipe started as a given plain pipe. -/
structure World.Linearized (start : PlainPipe) (w : World) : Prop where
  /-- Asked the same calls in the same order, one after the other, the plain pipe gives the same
  replies, and ends up as the pipe did. -/
  replies : start.replay w.history = (w.history.map fun v => some v.reply, w.pipe.plain)
  /-- The calls of the history are those that were decided, each once, with their replies. -/
  calls : (w.threads.filterMap Thread.verdict).Perm (w.history.map Visit.verdict)
  /-- Calls that are decided later come later. -/
  grows : ∀ moves w', w.run moves = some w' → w.history <+: w'.history
  /-- The sends of messages that fit no slot may as well stand anywhere else. -/
  oversized : ∀ h : List Visit, h.Perm w.history →
    (h.filter fun v => !v.oversized start.queue.geometry) =
      (w.history.filter fun v => !v.oversized start.queue.geometry) →
    start.replay h = (h.map fun v => some v.reply, w.pipe.plain)
  /-- Where a sender gave up, the queue was full and the pipe open. -/
  refused_send : ∀ j v e, w.history[j]? = some v → v.reply = .sent (.error e) →
    e = .wouldBlock ∨ e = .timeout →
    let p := (start.replay (w.history.take j)).2
    p.queue.messages.length = p.queue.geometry.capacity ∧ p.closed = false
  /-- Where a receiver gave up, the queue was empty and the pipe open. -/
  refused_recv : ∀ j v e out, w.history[j]? = some v → v.reply = .received (.error e) out →
    e = .wouldBlock ∨ e = .timeout →
    let p := (start.replay (w.history.take j)).2
    p.queue.messages = [] ∧ p.closed = false
  /-- A receive that succeeded took a message that had been sent before, and returned it. -/
  received : ∀ j v reader out wait n out', w.history[j]? = some v →
    v.call = .recv reader out wait → v.reply = .received (.ok n) out' →
    ∃ k m, History.Takes w.history j k ∧ (History.sent (w.history.take j))[k]? = some m ∧
      reader.mayRead m.owner = true ∧ n = m.payload.length ∧ out' = m.payload ++ out.drop n
  /-- A message that was sent was taken by exactly one call, which is a receive that succeeded, a
  sweep or a clear; or by none, and then it is still queued. -/
  delivered : ∀ k m, (History.sent w.history)[k]? = some m →
    (∃! j, History.Takes w.history j k) ∨
      (∀ j, ¬ History.Takes w.history j k) ∧
        w.pipe.plain.queue.messages[k - History.taken w.history]? = some m
  /-- Only such calls take messages. -/
  takers : ∀ j k, History.Takes w.history j k → ∃ v, w.history[j]? = some v ∧
    ((∃ n out, v.reply = .received (.ok n) out) ∨
      (∃ removed cutoff, v.reply = .swept removed cutoff) ∨
      ∃ removed, v.reply = .cleared (.ok removed))
  /-- Messages are taken in the order in which they were sent. -/
  fifo : ∀ i j k l, History.Takes w.history i k → History.Takes w.history j l → i < j → k < l

namespace World

variable {c : PipeConfig} {w : World}

theorem Reachable.explained (h : w.Reachable c) :
    w.pool.Explained ⟨Queue.empty c.geometry, false⟩ w.history := by
  refine (h.invariant
    (fun P hist => P.Sound ∧ P.Explained ⟨Queue.empty c.geometry, false⟩ hist)
    (fun p hp => ?_) ?_).2
  · obtain ⟨s, hinit, hclosed, -⟩ := Pipe.create_eq_ok hp
    have hplain : p.plain = ⟨Queue.empty c.geometry, false⟩ := by
      rw [Pipe.plain, (Ring.init_eq_ok hinit).1, Ring.toQueue_wiped, hclosed]
    exact ⟨Pool.sound_create hp, PlainPipe.explains_nil.mpr hplain.symm, Multiset.filterMap_zero _⟩
  · intro before after v hist hinv hs
    exact ⟨hinv.1.step hs, hinv.2.step hinv.1 hs⟩

/-- **Linearizability**: whatever the threads at work on a pipe do, and in whatever order, their
calls return what an empty queue returns that serves them one after the other, in the order of
the looks that ended them; and each message that was sent is delivered at most once, in
order. -/
theorem Reachable.linearized (h : w.Reachable c) :
    w.Linearized ⟨Queue.empty c.geometry, false⟩ := by
  have he := h.explained.replies
  have hmessages := he.messages.2
  simp only [Queue.empty, List.nil_append] at hmessages
  refine
    { replies := he
      calls := Multiset.coe_eq_coe.mp h.explained.verdicts
      grows := fun moves w' hrun => history_run hrun
      oversized := fun hist hp hf => PlainPipe.explains_rearranged he hp hf
      refused_send := ?_
      refused_recv := ?_
      received := ?_
      delivered := ?_
      takers := fun j k ht => ht.taker
      fifo := fun i j k l hi hj hij => hi.lt_of_lt hj hij }
  · intro j v e hj hr hgave
    obtain ⟨p, q, hp, ha, -⟩ := he.at_place hj
    have hlen := hp.length_le (Nat.zero_le _)
    obtain ⟨hfull, hopen⟩ := ha.refused_send hr hgave
    rw [hp]
    exact ⟨Nat.le_antisymm hlen hfull, hopen⟩
  · intro j v e out hj hr hgave
    obtain ⟨p, q, hp, ha, -⟩ := he.at_place hj
    rw [hp]
    exact ha.refused_recv hr hgave
  · intro j v reader out wait n out' hj hc hr
    exact he.received rfl hj hc hr
  · intro k m hm
    cases Nat.lt_or_ge k (History.taken w.history) with
    | inl hlt =>
        obtain ⟨j, hj⟩ := History.exists_takes hlt
        exact .inl ⟨j, hj, fun i hi => hi.unique hj⟩
    | inr hge =>
        refine .inr ⟨fun j hj => ?_, ?_⟩
        · have hlt := hj.lt_taken
          omega
        · rw [show w.pipe.plain.queue.messages = _ from hmessages, List.getElem?_drop,
            Nat.add_sub_cancel' hge]
          exact hm

/-- A reader waits, a message comes and fills the pipe, another sender gives up, and the reader is
woken and gets the message. -/
theorem linearized_handover :
    let c : PipeConfig := ⟨⟨1, 4⟩, .ofMillis 5⟩
    ∃ w : World, w.Reachable c ∧ w.history.map Visit.reply =
        [.sent (.ok 1), .sent (.error .wouldBlock), .received (.ok 1) [9, 0]] ∧
      w.Linearized ⟨Queue.empty c.geometry, false⟩ := by
  let moves : List Move :=
    [.start none (.recv ⟨1, 1⟩ [0, 0] .forever), .lock 0 ⟨7, false⟩,
      .start none (.send ⟨1, 1⟩ [9] .forever), .lock 1 ⟨8, false⟩,
      .start none (.send ⟨1, 1⟩ [8] .never), .lock 2 ⟨8, false⟩,
      .signal 1, .lock 0 ⟨9, false⟩]
  have hreach : ∃ w : World, w.Reachable ⟨⟨1, 4⟩, .ofMillis 5⟩ ∧ w.history.map Visit.reply =
      [.sent (.ok 1), .sent (.error .wouldBlock), .received (.ok 1) [9, 0]] :=
    ⟨_, ⟨_, moves, rfl, rfl⟩, rfl⟩
  obtain ⟨w, hw, hreplies⟩ := hreach
  exact ⟨w, hw, hreplies, hw.linearized⟩

end World

end MessagePipe
