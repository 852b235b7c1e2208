import MessagePipe.Proofs.Pipe.Linearization

/-!
# MessagePipe.Proofs.Pipe.Custody

Who may do what to a message while it is queued.  `Transit` lists all that one
look can do to the messages of a pipe: add one at the end, take the first for
somebody who may read it, remove expired ones from the front, remove all for
user 0, or nothing.  None of these touches a message that stays.

* `Answers.transit` / `Step.transit` — every look, and every move of a world,
  is one of these;
* `Step.setExpiry` — only user 0 changes the expiry;
* `Explains.origin` — what is queued was sent, by its owner and at its stamp;
* `World.Reachable.front` — whoever may not read the first message leaves it
  where it is.
-/

namespace MessagePipe

/-- All that one look can do to the messages that are queued; `none` is a move that ends no
call. -/
inductive Transit (queued : List Message) : Option Visit → List Message → Prop
  /-- The call moved no message. -/
  | kept {v : Option Visit} (hv : ∀ u ∈ v, u.taken = 0 ∧ u.sent? = none) : Transit queued v queued
  /-- A message is put at the end, with the sender of the call as its owner. -/
  | sent {v : Visit} {m : Message} {wait : Wait} (call : v.call = .send m.owner m.payload wait)
      (reply : v.reply = .sent (.ok m.payload.length)) (stamp : v.now = m.stamp) :
      Transit queued (some v) (queued ++ [m])
  /-- The first message is returned as a whole to a reader who may have it. -/
  | received {v : Visit} {m : Message} {rest : List Message} {reader : Credentials} {out : Bytes}
      {wait : Wait} (front : queued = m :: rest) (call : v.call = .recv reader out wait)
      (reply : v.reply =
        .received (.ok m.payload.length) (m.payload ++ out.drop m.payload.length))
      (access : reader.uid = 0 ∨ reader.uid = m.owner.uid ∨ reader.gid = m.owner.gid) :
      Transit queued (some v) rest
  /-- Messages that were stamped before the cutoff are removed from the front. -/
  | swept {v : Visit} {gone rest : List Message} {cutoff : UInt64} (split : queued = gone ++ rest)
      (old : ∀ m ∈ gone, m.stamp < cutoff) (call : v.call = .sweep)
      (reply : v.reply = .swept gone.length cutoff) : Transit queued (some v) rest
  /-- User 0 removes every message. -/
  | cleared {v : Visit} {caller : Credentials} (privileged : caller.uid = 0)
      (call : v.call = .clear caller) (reply : v.reply = .cleared (.ok queued.length)) :
      Transit queued (some v) []

/-! ## One look -/

/-- The message of a send that succeeded is the one that was given to it. -/
theorem Visit.sent?_eq_some {v : Visit} {m : Message} (h : v.sent? = some m) :
    ∃ wait n, v.call = .send m.owner m.payload wait ∧ v.reply = .sent (.ok n) ∧
      v.now = m.stamp := by
  unfold Visit.sent? at h
  split at h
  · next sender data wait n hc hr =>
      obtain rfl := Option.some.inj h
      exact ⟨wait, n, hc, hr, rfl⟩
  · contradiction

namespace PlainPipe

variable {p q start final : PlainPipe} {v : Visit} {h : List Visit}

theorem Answers.transit (ha : p.Answers v q) :
    Transit p.queue.messages (some v) q.queue.messages := by
  cases ha.outcome with
  | @sent _ sender data wait now hd hc hf =>
      exact .sent (m := ⟨data, sender, now⟩) rfl rfl rfl
  | received hm hr hl => exact .received hm rfl rfl (Credentials.mayRead_iff.mp hr)
  | @swept _ _ cutoff =>
      refine .swept List.takeWhile_append_dropWhile.symm (fun m hm => ?_) rfl rfl
      have hold := List.all_eq_true.mp List.all_takeWhile m hm
      exact of_decide_eq_true hold
  | cleared hc => exact .cleared (by simpa [Credentials.isPrivileged] using hc) rfl rfl
  | _ => exact .kept fun u hu => by obtain rfl := Option.some.inj hu; exact ⟨rfl, rfl⟩

/-- A send that succeeds returns the length of its message. -/
theorem Answers.sent (ha : p.Answers v q) {m : Message} (hm : v.sent? = some m) :
    v.reply = .sent (.ok m.payload.length) := by
  cases ha.outcome with
  | sent hd hc hf =>
      obtain rfl := Option.some.inj hm
      rfl
  | _ => contradiction

/-- Every message that is queued, if none was at the start, was put there by a send that
succeeded: its owner is who sent it, and its stamp the clock reading at that look. -/
theorem Explains.origin (he : start.Explains h final) (hs : start.queue.messages = [])
    {m : Message} (hm : m ∈ final.queue.messages) :
    ∃ v ∈ h, ∃ wait, v.call = .send m.owner m.payload wait ∧
      v.reply = .sent (.ok m.payload.length) ∧ v.now = m.stamp := by
  rw [he.messages.2, hs, List.nil_append] at hm
  obtain ⟨v, hv, hsent⟩ := List.mem_filterMap.mp (List.mem_of_mem_drop hm)
  obtain ⟨j, hj⟩ := List.mem_iff_getElem?.mp hv
  obtain ⟨p, q, -, ha, -⟩ := he.at_place hj
  obtain ⟨wait, n, hcall, -, hstamp⟩ := Visit.sent?_eq_some hsent
  exact ⟨v, hv, wait, hcall, ha.sent hsent, hstamp⟩

end PlainPipe

/-! ## The expiry -/

namespace Pipe

variable {p : Pipe}

@[simp] theorem expiryMs_enroll (p : Pipe) (side : Side) :
    (p.enroll side).expiryMs = p.expiryMs := by
  cases side <;> rfl

@[simp] theorem expiryMs_withdraw (p : Pipe) (side : Side) :
    (p.withdraw side).expiryMs = p.expiryMs := by
  cases side <;> rfl

/-- A look that changes the expiry is a call of user 0 that sets it. -/
theorem setExpiry_of_visit {m : Moment} {call : Call}
    (h : (p.visit m call).2.expiryMs ≠ p.expiryMs) :
    ∃ caller expiry, call = .setExpiry caller expiry ∧ caller.uid = 0 ∧
      (p.visit m call).1 = some (.expirySet (.ok ())) ∧
      expiryMillis expiry = .ok (p.visit m call).2.expiryMs := by
  cases call with
  | send sender data wait =>
      rw [visit_send] at h
      split at h
      · exact absurd rfl h
      split at h
      · exact absurd rfl h
      split at h <;> exact absurd rfl h
  | recv reader out wait =>
      rw [visit_recv] at h
      split at h
      · split at h <;> exact absurd rfl h
      · exact absurd rfl h
  | sweep => exact absurd rfl h
  | setExpiry caller expiry =>
      refine ⟨caller, expiry, rfl, ?_⟩
      rw [visit_setExpiry] at h ⊢
      rcases p.setExpiry_cases caller expiry with ⟨e, hset⟩ | ⟨huid, ms, hms, hset⟩
      · rw [hset] at h
        exact absurd rfl h
      · rw [hset]
        exact ⟨huid, rfl, hms⟩
  | clear caller =>
      simp only [visit, clear] at h
      split at h <;> exact absurd rfl h
  | close => exact absurd rfl h

end Pipe

/-! ## Whatever happens -/

/-- Before a thread looks it is counted no longer, which leaves the expiry alone. -/
theorem Thread.expiryMs_resume (t : Thread) (p : Pipe) :
    (t.resume p).expiryMs = p.expiryMs := by
  obtain ⟨party, call, phase⟩ := t
  cases phase <;> simp [resume]

namespace Pool

variable {before after : Pool} {v : Option Visit}

theorem Step.transit (hsound : before.Sound) (hs : Step before v after) :
    Transit before.pipe.ring.toQueue.messages v after.pipe.ring.toQueue.messages := by
  have none_moved : ∀ u ∈ (none : Option Visit), u.taken = 0 ∧ u.sent? = none := by
    intro u hu
    contradiction
  cases hs with
  | start | rouse => exact .kept none_moved
  | @due m _ _ _ hd =>
      cases hd with
      | load | signal => exact .kept none_moved
      | park hl =>
          obtain ⟨rfl, -, -⟩ := Thread.look_none hl
          simp only [Pipe.ring_enroll, Thread.ring_resume]
          exact .kept none_moved
      | @answer p q t others reply hl =>
          have ht := hsound.consistent t (Multiset.mem_cons_self t others)
          exact (Thread.plain_look hsound.ring ht hl).transit

/-- Only a call of user 0 that sets the expiry changes it. -/
theorem Step.setExpiry (hs : Step before v after)
    (hne : after.pipe.expiryMs ≠ before.pipe.expiryMs) :
    ∃ u caller expiry, v = some u ∧ u.call = .setExpiry caller expiry ∧ caller.uid = 0 ∧
      u.reply = .expirySet (.ok ()) ∧ expiryMillis expiry = .ok after.pipe.expiryMs := by
  cases hs with
  | start | rouse => exact absurd rfl hne
  | @due m _ _ _ hd =>
      cases hd with
      | load | signal => exact absurd rfl hne
      | @park p q t others hl =>
          obtain ⟨rfl, -, -⟩ := Thread.look_none hl
          simp only [Pipe.expiryMs_enroll, Thread.expiryMs_resume, ne_eq, not_true] at hne
      | @answer p q t others reply hl =>
          rcases Thread.look_cases hl with ⟨-, hv⟩ | ⟨expiryMs, -, hsweep⟩
          · rw [Prod.mk.injEq] at hv
            obtain ⟨hreply, rfl⟩ := hv
            rw [← Thread.expiryMs_resume t p] at hne
            obtain ⟨caller, expiry, hcall, huid, hset, hms⟩ := Pipe.setExpiry_of_visit hne
            rw [← hreply, Option.some.injEq] at hset
            exact ⟨_, caller, expiry, rfl, hcall, huid, hset, hms⟩
          · rw [show q = (p.sweepReply expiryMs m.now).2 from congrArg Prod.snd hsweep] at hne
            exact absurd rfl hne

end Pool

/-! ## The first message -/

/-- The call is a send, or a receive by somebody who may not read the message. -/
def Visit.Harmless (m : Message) (v : Visit) : Prop :=
  (∃ sender data wait, v.call = .send sender data wait) ∨
    ∃ reader out wait, v.call = .recv reader out wait ∧ reader.mayRead m.owner = false

theorem Transit.head? {queued after : List Message} {v : Option Visit} {m : Message}
    (ht : Transit queued v after) (hm : queued.head? = some m) (hv : ∀ u ∈ v, u.Harmless m) :
    after.head? = some m := by
  cases ht with
  | kept => exact hm
  | sent => rw [List.head?_append, hm, Option.some_or]
  | received front call reply access =>
      exfalso
      rw [front, List.head?_cons, Option.some.injEq] at hm
      subst hm
      rcases hv _ rfl with ⟨sender, data, wait, hc⟩ | ⟨reader, out, wait, hc, hdenied⟩
      · rw [call] at hc; contradiction
      · rw [call] at hc
        cases hc
        rw [← Credentials.mayRead_iff, hdenied] at access
        contradiction
  | swept _ _ call _ | cleared _ call _ =>
      exfalso
      rcases hv _ rfl with ⟨_, _, _, hc⟩ | ⟨_, _, _, hc, -⟩ <;> rw [call] at hc <;> contradiction

namespace World

variable {c : PipeConfig} {w w' : World}

/-- The messages of a world, oldest first. -/
def queued (w : World) : List Message := w.pipe.ring.toQueue.messages

theorem Reachable.transit (h : w.Reachable c) {move : Move} (hs : w.step move = some w') :
    ∃ v : Option Visit, w'.history = w.history ++ v.toList ∧ Transit w.queued v w'.queued ∧
      (w'.pipe.expiryMs ≠ w.pipe.expiryMs → ∃ u caller expiry, v = some u ∧
        u.call = .setExpiry caller expiry ∧ caller.uid = 0 ∧ u.reply = .expirySet (.ok ()) ∧
        expiryMillis expiry = .ok w'.pipe.expiryMs) := by
  obtain ⟨v, hstep, hh⟩ := pool_step hs
  exact ⟨v, hh, hstep.transit h.sound, hstep.setExpiry⟩

/-- Sends, and receives by those who may not read the first message, leave it where it is. -/
theorem Reachable.front {m : Message} {moves : List Move} (h : w.Reachable c)
    (hm : w.queued.head? = some m) (hrun : w.run moves = some w') {new : List Visit}
    (hh : w'.history = w.history ++ new) (hnew : ∀ v ∈ new, v.Harmless m) :
    w'.queued.head? = some m := by
  induction moves generalizing w new with
  | nil =>
      obtain rfl := Option.some.inj hrun
      exact hm
  | cons move moves ih =>
      obtain ⟨w₁, hs, hrun⟩ := run_cons.mp hrun
      obtain ⟨v, hv, ht, -⟩ := h.transit hs
      obtain rfl := since_eq hh
      rw [since_step hv hrun] at hnew
      refine ih (h.after_step hs) (ht.head? hm fun u hu => ?_) hrun (history_eq hrun)
        fun u hu => hnew u (List.mem_append_right _ hu)
      exact hnew u (List.mem_append_left _ (Option.mem_toList.mpr hu))

/-- What can be said about the messages of a world and whoever handles them. -/
structure Custody (w : World) : Prop where
  /-- What is queued are the messages that were sent and that no call took, in the order in which
  they were sent, each as it was sent. -/
  queued : w.queued = (History.sent w.history).drop (History.taken w.history)
  /-- Each of them was sent by its owner. -/
  origin : ∀ m ∈ w.queued, ∃ v ∈ w.history, ∃ wait, v.call = .send m.owner m.payload wait ∧
    v.reply = .sent (.ok m.payload.length) ∧ v.now = m.stamp
  /-- Whatever happens next, a message leaves only for a reader who may have it, because it has
  expired, or because user 0 removes everything; all others stay as they are. Only user 0 changes
  the expiry. -/
  next : ∀ move w', w.step move = some w' → ∃ v : Option Visit,
    w'.history = w.history ++ v.toList ∧ Transit w.queued v w'.queued ∧
      (w'.pipe.expiryMs ≠ w.pipe.expiryMs → ∃ u caller expiry, v = some u ∧
        u.call = .setExpiry caller expiry ∧ caller.uid = 0 ∧ u.reply = .expirySet (.ok ()) ∧
        expiryMillis expiry = .ok w'.pipe.expiryMs)
  /-- However many sends happen, and receives by those who may not read the first message, it
  stays the first. -/
  front : ∀ moves w' m new, w.run moves = some w' → w.queued.head? = some m →
    w'.history = w.history ++ new → (∀ v ∈ new, v.Harmless m) → w'.queued.head? = some m

/-- **Custody**: a message is handed out only whole, first of all that are queued, and to a reader
whom the credentials of its own send admit; it disappears in no other way but by expiring or by a
clear of user 0. -/
theorem Reachable.custody (h : w.Reachable c) : w.Custody := by
  have he := h.explained.replies
  have hqueued := he.messages.2
  rw [Queue.empty, List.nil_append] at hqueued
  exact
    { queued := hqueued
      origin := fun m hm => he.origin rfl hm
      next := fun move w' hs => h.transit hs
      front := fun moves w' m new hrun hm hh hnew => h.front hm hrun hh hnew }

/-- The first message belongs to user 5; user 7, who is denied it, sends another, and the first
message is still the first. -/
theorem custody_denied :
    ∃ w w' : World, w.Reachable ⟨⟨2, 4⟩, .ofMillis 5⟩ ∧
      w'.history.map Visit.reply = w.history.map Visit.reply ++
        [.received (.error (.ring .accessDenied)) [0, 0], .sent (.ok 1)] ∧
      w.Custody ∧ w'.queued.head? = some ⟨[9], ⟨5, 6⟩, 7⟩ := by
  have hreach : ∃ w : World, w.Reachable ⟨⟨2, 4⟩, .ofMillis 5⟩ ∧
      w.queued.head? = some ⟨[9], ⟨5, 6⟩, 7⟩ ∧ ∃ w', w.run
        [.start none (.recv ⟨7, 8⟩ [0, 0] .never), .lock 1 ⟨8, false⟩,
          .start none (.send ⟨7, 8⟩ [3] .never), .lock 2 ⟨9, false⟩] = some w' ∧
        w'.history.map Visit.reply = w.history.map Visit.reply ++
          [.received (.error (.ring .accessDenied)) [0, 0], .sent (.ok 1)] ∧
        ∃ v₁ v₂, w'.history = w.history ++ [v₁, v₂] ∧
          v₁.call = .recv ⟨7, 8⟩ [0, 0] .never ∧ v₂.call = .send ⟨7, 8⟩ [3] .never :=
    ⟨_, ⟨_, [.start none (.send ⟨5, 6⟩ [9] .forever), .lock 0 ⟨7, false⟩], rfl, rfl⟩, rfl,
      _, rfl, rfl, _, _, rfl, rfl, rfl⟩
  obtain ⟨w, hw, hm, w', hrun, hreplies, v₁, v₂, hh, h₁, h₂⟩ := hreach
  refine ⟨w, w', hw, hreplies, hw.custody, hw.custody.front _ w' _ _ hrun hm hh ?_⟩
  intro v hv
  rcases List.mem_pair.mp hv with rfl | rfl
  · exact .inr ⟨_, _, _, h₁, rfl⟩
  · exact .inl ⟨_, _, _, h₂⟩

end World

end MessagePipe
