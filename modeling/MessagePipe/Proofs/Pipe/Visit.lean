import MessagePipe.Pipe.Alone
import MessagePipe.Pipe.Plain
import MessagePipe.Proofs.Ring.Refinement

/-!
# MessagePipe.Proofs.Pipe.Visit

What one look at a pipe does, call by call.  The equations `visit_send` and
`visit_recv` put the checks of a send and of a receive in their order; every
later statement about a look goes through them.

* `visit_eq_none` — a look leaves nothing to do but wait only if the caller is
  ready to wait, has time left, and its side is not ready;
* `ready_visit` — a look that makes a side ready owes it a signal;
* `plain_visit` — a look that ends a call gives the reply of the plain pipe.
-/

namespace MessagePipe.Pipe

/-- Whether a wait on this side is over: for readers there is a message, for writers there is
room, and for both it is over once the pipe is closed. -/
def ready (p : Pipe) : Side → Bool
  | .readable => !p.ring.isEmpty || p.closed
  | .writable => !p.ring.isFull || p.closed

variable {p : Pipe}

/-! ## Waiting changes nothing but a counter -/

@[simp] theorem ring_enroll (p : Pipe) (side : Side) : (p.enroll side).ring = p.ring := by
  cases side <;> rfl

@[simp] theorem closed_enroll (p : Pipe) (side : Side) : (p.enroll side).closed = p.closed := by
  cases side <;> rfl

@[simp] theorem ring_withdraw (p : Pipe) (side : Side) : (p.withdraw side).ring = p.ring := by
  cases side <;> rfl

@[simp] theorem closed_withdraw (p : Pipe) (side : Side) :
    (p.withdraw side).closed = p.closed := by
  cases side <;> rfl

theorem ready_congr {q : Pipe} (hr : p.ring = q.ring) (hc : p.closed = q.closed) (side : Side) :
    p.ready side = q.ready side := by
  cases side <;> simp only [ready, hr, hc]

theorem plain_congr {q : Pipe} (hr : p.ring = q.ring) (hc : p.closed = q.closed) :
    p.plain = q.plain := by
  simp only [plain, hr, hc]

/-! ## The checks of a look -/

/-- A send: too large, closed, full, and otherwise the message is written. -/
theorem visit_send (p : Pipe) (m : Moment) (sender : Credentials) (data : Bytes) (wait : Wait) :
    p.visit m (.send sender data wait) =
      if p.ring.dataSize < data.length then
        (some (.sent (.error (.ring (.messageTooLarge data.length p.ring.dataSize)))), p)
      else if p.closed then (some (.sent (.error .closed)), p)
      else if p.ring.isFull then ((wait.refusal m.late).map fun e => .sent (.error e), p)
      else (some (.sent (.ok data.length)), { p with ring := p.ring.store data sender m.now }) := by
  unfold visit oversize
  by_cases hd : p.ring.dataSize < data.length
  · simp only [hd, if_true]
  · simp only [hd, if_false, offer]
    cases hc : p.closed
    · cases hf : p.ring.isFull
      · simp only [Bool.false_eq_true, if_false, Ring.push, hd, hf]
        rfl
      · rfl
    · rfl

/-- A receive: empty, then closed, and otherwise the ring decides. -/
theorem visit_recv (p : Pipe) (m : Moment) (reader : Credentials) (out : Bytes) (wait : Wait) :
    p.visit m (.recv reader out wait) =
      if p.ring.isEmpty then
        if p.closed then (some (.received (.error .closed) out), p)
        else ((wait.refusal m.late).map fun e => .received (.error e) out, p)
      else
        (some (.received ((p.ring.pop reader out).1.mapError .ring) (p.ring.pop reader out).2.1),
          { p with ring := (p.ring.pop reader out).2.2 }) := by
  unfold visit accept
  cases he : p.ring.isEmpty
  · rfl
  · cases hc : p.closed <;> rfl

/-- A sender that never waits. -/
theorem visit_send_never (p : Pipe) (m : Moment) (sender : Credentials) (data : Bytes) :
    p.visit m (.send sender data .never) =
      (some (.sent (p.trySend sender data m.now).1), (p.trySend sender data m.now).2) := by
  unfold visit trySend
  dsimp only
  cases p.oversize data with
  | some error => rfl
  | none =>
      dsimp only
      generalize p.offer sender data m.now = found
      obtain ⟨answer, q⟩ := found
      cases answer <;> rfl

/-- A receiver that never waits. -/
theorem visit_recv_never (p : Pipe) (m : Moment) (reader : Credentials) (out : Bytes) :
    p.visit m (.recv reader out .never) =
      (some (.received (p.tryRecv reader out).1 (p.tryRecv reader out).2.1),
        (p.tryRecv reader out).2.2) := by
  unfold visit tryRecv
  dsimp only
  generalize p.accept reader out = found
  obtain ⟨answer, out', q⟩ := found
  cases answer <;> rfl

/-- A pop fails or takes a message; an error of the ring stays one of the pipe. -/
theorem pop_cases (r : Ring) (reader : Credentials) (out : Bytes) :
    (∃ e, (r.pop reader out).1 = .error e ∧ (r.pop reader out).2.2 = r) ∨
      ∃ n, (r.pop reader out).1 = .ok n := by
  cases h : (r.pop reader out).1 with
  | error e => exact .inl ⟨e, rfl, Ring.pop_ring_of_error h⟩
  | ok n => exact .inr ⟨n, rfl⟩

/-- The expiry is set, by user 0 and to the whole milliseconds of a duration that is accepted, or
nothing changes. -/
theorem setExpiry_cases (p : Pipe) (caller : Credentials) (expiry : Duration) :
    (∃ e, p.setExpiry caller expiry = (.error e, p)) ∨
      caller.uid = 0 ∧ ∃ ms, expiryMillis expiry = .ok ms ∧
        p.setExpiry caller expiry = (.ok (), { p with expiryMs := ms }) := by
  unfold setExpiry
  split
  · next hc =>
      cases expiryMillis expiry with
      | error e => exact .inl ⟨_, rfl⟩
      | ok ms => exact .inr ⟨by simpa [Credentials.isPrivileged] using hc, ms, rfl, rfl⟩
  · exact .inl ⟨_, rfl⟩

theorem visit_setExpiry (p : Pipe) (m : Moment) (caller : Credentials) (expiry : Duration) :
    p.visit m (.setExpiry caller expiry) =
      (some (.expirySet (p.setExpiry caller expiry).1), (p.setExpiry caller expiry).2) := rfl

/-- A closed pipe stays closed. -/
theorem closed_visit (h : p.closed = true) (m : Moment) (call : Call) :
    (p.visit m call).2.closed = true := by
  cases call with
  | send sender data wait => grind [visit_send]
  | recv reader out wait => grind [visit_recv]
  | sweep => exact h
  | setExpiry caller expiry => grind [visit, setExpiry]
  | clear caller => grind [visit, clear]
  | close => rfl

/-! ## The ring under a look -/

theorem wellFormed_sweepReply (h : p.ring.WellFormed) (expiryMs now : UInt64) :
    (p.sweepReply expiryMs now).2.ring.WellFormed :=
  h.sweep _

theorem wellFormed_visit (h : p.ring.WellFormed) (m : Moment) (call : Call) :
    (p.visit m call).2.ring.WellFormed := by
  cases call with
  | send sender data wait =>
      rw [visit_send]
      split
      · exact h
      next hd =>
      split
      · exact h
      split
      · exact h
      next hf => exact h.store (by simpa using hf) (by omega) sender m.now
  | recv reader out wait =>
      rw [visit_recv]
      split
      · split <;> exact h
      · exact h.pop reader out
  | sweep => exact wellFormed_sweepReply h _ _
  | setExpiry caller expiry =>
      rw [visit_setExpiry]
      rcases p.setExpiry_cases caller expiry with ⟨e, hset⟩ | ⟨-, ms, -, hset⟩ <;> rw [hset] <;>
        exact h
  | clear caller =>
      simp only [visit, clear]
      split
      · exact h.clear
      · exact h
  | close => exact h

/-! ## Looks that end no call -/

/-- Without a reply nothing has changed, the side of the call is not ready, and the caller may
still wait. -/
theorem visit_eq_none {m : Moment} {call : Call} (h : (p.visit m call).1 = none) :
    (p.visit m call).2 = p ∧ p.ready call.side = false ∧ call.wait.refusal m.late = none := by
  cases call with
  | send sender data wait =>
      rw [visit_send] at h ⊢
      split at h
      · contradiction
      next hd =>
      split at h
      · contradiction
      next hc =>
      split at h
      · next hf =>
          rw [if_neg hd, if_neg hc, if_pos hf]
          refine ⟨rfl, ?_, Option.map_eq_none_iff.mp h⟩
          simp only [ready, Call.side, hf, hc]
          rfl
      · contradiction
  | recv reader out wait =>
      rw [visit_recv] at h ⊢
      split at h
      · next he =>
          split at h
          · contradiction
          · next hc =>
              rw [if_pos he, if_neg hc]
              refine ⟨rfl, ?_, Option.map_eq_none_iff.mp h⟩
              simp only [ready, Call.side, he, hc]
              rfl
      · contradiction
  | sweep | setExpiry _ _ | clear _ | close => contradiction

/-! ## Looks and signals -/

/-- A sweep that removes nothing changes nothing; one that removes something makes room. -/
theorem ready_sweepReply (h : p.ring.WellFormed) {expiryMs now : UInt64} {side : Side}
    (hs : (p.sweepReply expiryMs now).2.ready side = true) :
    p.ready side = true ∨ side ∈ (p.sweepReply expiryMs now).1.signals := by
  have hcount := Ring.count_sweep p.ring (cutoff now expiryMs)
  by_cases h0 : (p.ring.sweep (cutoff now expiryMs)).1 = 0
  · have hr : (p.sweepReply expiryMs now).2.ring = p.ring := Ring.sweepUpTo_of_zero h0
    rw [ready_congr hr rfl] at hs
    exact .inl hs
  · cases side with
    | readable =>
        have he : p.ring.isEmpty = false := by
          have hne : ¬ p.ring.count = 0 := by omega
          rw [← h.isEmpty_iff] at hne
          simpa using hne
        exact .inl (by simp only [ready, he, Bool.not_false, Bool.true_or])
    | writable =>
        refine .inr ?_
        show Side.writable ∈ if (p.ring.sweep (cutoff now expiryMs)).1 = 0 then _ else _
        rw [if_neg h0]
        exact List.mem_singleton_self _

/-- A look that ends a call leaves no side ready that was not, unless it owes that side a
signal. -/
theorem ready_visit (h : p.ring.WellFormed) {m : Moment} {call : Call} {reply : Reply} {side : Side}
    (hr : (p.visit m call).1 = some reply) (hs : (p.visit m call).2.ready side = true) :
    p.ready side = true ∨ side ∈ reply.signals := by
  cases call with
  | send sender data wait =>
      rw [visit_send] at hr hs
      split at hr
      · next hd => rw [if_pos hd] at hs; exact .inl hs
      next hd =>
      split at hr
      · next hc => rw [if_neg hd, if_pos hc] at hs; exact .inl hs
      next hc =>
      split at hr
      · next hf => rw [if_neg hd, if_neg hc, if_pos hf] at hs; exact .inl hs
      · next hf =>
          obtain rfl := Option.some.inj hr
          cases side with
          | readable => exact .inr (List.mem_singleton_self _)
          | writable =>
              have hf : p.ring.isFull = false := by simpa using hf
              exact .inl (by simp only [ready, hf, Bool.not_false, Bool.true_or])
  | recv reader out wait =>
      rw [visit_recv] at hr hs
      split at hr
      · next he =>
          rw [if_pos he] at hs
          split at hr
          · next hc => rw [if_pos hc] at hs; exact .inl hs
          · next hc => rw [if_neg hc] at hs; exact .inl hs
      · next he =>
          rw [if_neg he] at hs
          obtain rfl := Option.some.inj hr
          have he : p.ring.isEmpty = false := by simpa using he
          cases side with
          | readable => exact .inl (by simp only [ready, he, Bool.not_false, Bool.true_or])
          | writable =>
              rcases pop_cases p.ring reader out with ⟨e, -, hring⟩ | ⟨n, hok⟩
              · have hq :=
                  @ready_congr p { p with ring := (p.ring.pop reader out).2.2 } hring.symm rfl
                exact .inl ((hq .writable).trans hs)
              · exact .inr (by rw [hok]; exact List.mem_singleton_self _)
  | sweep =>
      obtain rfl := Option.some.inj hr
      exact ready_sweepReply h hs
  | setExpiry caller expiry =>
      refine .inl ?_
      rw [visit_setExpiry] at hs
      rcases p.setExpiry_cases caller expiry with ⟨e, hset⟩ | ⟨-, ms, -, hset⟩ <;>
        rw [hset] at hs <;> exact hs
  | clear caller =>
      simp only [visit, clear] at hr hs
      split at hr
      · next hp =>
          rw [if_pos hp] at hs
          obtain rfl := Option.some.inj hr
          cases side with
          | readable =>
              have he : p.ring.clear.2.isEmpty = true :=
                h.clear.isEmpty_iff.mpr (Ring.count_wiped _ _)
              simp only [ready, he, Bool.not_true, Bool.false_or] at hs
              exact .inl (by simp only [ready, hs, Bool.or_true])
          | writable => exact .inr (List.mem_singleton_self _)
      · next hp => rw [if_neg hp] at hs; exact .inl hs
  | close =>
      obtain rfl := Option.some.inj hr
      cases side with
      | readable => exact .inr List.mem_cons_self
      | writable => exact .inr (List.mem_cons_of_mem _ (List.mem_singleton_self _))

/-! ## Looks and the plain pipe -/

theorem plain_sweepReply (h : p.ring.WellFormed) (expiryMs now now' : UInt64) :
    p.plain.reply now' (PlainPipe.cutoffOf (p.sweepReply expiryMs now).1) .sweep =
      (some (p.sweepReply expiryMs now).1, (p.sweepReply expiryMs now).2.plain) := by
  simp only [PlainPipe.reply, sweepReply, sweepWith, PlainPipe.cutoffOf, plain,
    Ring.toQueue_sweep h]

/-- What a caller is told who gives up, the plain pipe says too. -/
theorem refusal_eq {wait : Wait} {late : Bool} {e : PipeError} (h : wait.refusal late = some e) :
    PlainPipe.refusal wait = some e := by
  cases wait with
  | never => exact h
  | forever => contradiction
  | timed =>
      cases late
      · contradiction
      · exact h

/-- A look that ends a call gives the reply of the plain pipe, and leaves what the plain pipe
leaves. -/
theorem plain_visit (h : p.ring.WellFormed) {m : Moment} {call : Call} {reply : Reply}
    (hr : (p.visit m call).1 = some reply) :
    p.plain.reply m.now (PlainPipe.cutoffOf reply) call =
      (some reply, (p.visit m call).2.plain) := by
  cases call with
  | send sender data wait =>
      rw [visit_send] at hr ⊢
      unfold plain
      simp only [PlainPipe.reply, Ring.length_messages]
      show (if p.ring.dataSize < data.length then _ else _) = _
      split at hr
      · next hd =>
          obtain rfl := Option.some.inj hr
          rw [if_pos hd, if_pos hd]
          rfl
      next hd =>
      rw [if_neg hd, if_neg hd]
      split at hr
      · next hc =>
          obtain rfl := Option.some.inj hr
          rw [if_pos hc, if_pos hc]
      next hc =>
      rw [if_neg hc, if_neg hc]
      show (if p.ring.capacity ≤ p.ring.count then _ else _) = _
      split at hr
      · next hf =>
          obtain ⟨e, he, rfl⟩ := Option.map_eq_some_iff.mp hr
          rw [if_pos (Nat.le_of_eq (h.isFull_iff.mp hf).symm), if_pos hf, refusal_eq he]
          rfl
      · next hf =>
          have hf : p.ring.isFull = false := by simpa using hf
          obtain rfl := Option.some.inj hr
          rw [if_neg (Nat.not_le.mpr (h.count_lt hf)), hf, ← Ring.messages_store h hf (by omega)]
          rfl
  | recv reader out wait =>
      rw [visit_recv] at hr ⊢
      unfold plain
      simp only [PlainPipe.reply, Ring.toQueue_pop h]
      split at hr
      · next he =>
          have hn := Ring.messages_eq_nil_iff.mpr (h.isEmpty_iff.mp he)
          rw [if_pos he, hn, if_pos List.isEmpty_nil]
          split at hr
          · next hc =>
              obtain rfl := Option.some.inj hr
              rw [if_pos hc, if_pos hc]
          · next hc =>
              obtain ⟨e, hw, rfl⟩ := Option.map_eq_some_iff.mp hr
              rw [if_neg hc, if_neg hc, refusal_eq hw]
              rfl
      · next he =>
          have hn : ¬ p.ring.toQueue.messages.isEmpty = true := by
            rw [List.isEmpty_iff, Ring.messages_eq_nil_iff, ← h.isEmpty_iff]
            exact he
          obtain rfl := Option.some.inj hr
          rw [if_neg he, if_neg hn]
  | sweep =>
      obtain rfl := Option.some.inj hr
      exact plain_sweepReply h _ _ _
  | setExpiry caller expiry =>
      simp only [visit, setExpiry, PlainPipe.reply] at hr ⊢
      split
      · next hp =>
          rw [if_pos hp] at hr
          revert hr
          cases expiryMillis expiry <;> exact fun hr => by obtain rfl := Option.some.inj hr; rfl
      · next hp =>
          rw [if_neg hp] at hr
          obtain rfl := Option.some.inj hr
          rfl
  | clear caller =>
      simp only [visit, clear, PlainPipe.reply, plain, Ring.toQueue_clear] at hr ⊢
      split
      · next hp =>
          rw [if_pos hp] at hr
          obtain rfl := Option.some.inj hr
          rfl
      · next hp =>
          rw [if_neg hp] at hr
          obtain rfl := Option.some.inj hr
          rfl
  | close =>
      obtain rfl := Option.some.inj hr
      rfl

end MessagePipe.Pipe
