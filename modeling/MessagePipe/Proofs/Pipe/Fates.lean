import MessagePipe.Proofs.Pipe.Ledger

/-!
# MessagePipe.Proofs.Pipe.Fates

What became of the messages that were sent.  Calls take messages out of a pipe
oldest first, so the fates of a history (`History.fates`), in the order in
which they came about, are those of the first messages that were sent; the
messages beyond them are still queued.

* `Answers.delivered` — what a receive returns is the payload of the message
  that it takes;
* `Explains.fates` — a history delivers the messages whose fate it is, in the
  order in which they were sent, and nothing else; what expired was old enough.
-/

namespace MessagePipe

/-- How a message leaves a pipe. -/
inductive Fate where
  | delivered
  | expired (cutoff : UInt64)
  | cleared
deriving DecidableEq

namespace Visit

/-- The fates of the messages that the call took out of the pipe. -/
def fates (v : Visit) : List Fate :=
  match v.reply with
  | .received (.ok _) _ => [.delivered]
  | .swept removed cutoff => List.replicate removed (.expired cutoff)
  | .cleared (.ok removed) => List.replicate removed .cleared
  | _ => []

/-- The message that the call returned. -/
def delivered? (v : Visit) : Option Bytes :=
  match v.reply with
  | .received (.ok n) out => some (out.take n)
  | _ => none

theorem length_fates (v : Visit) : v.fates.length = v.taken := by
  obtain ⟨party, call, now, reply⟩ := v
  cases reply with
  | received result out => cases result <;> rfl
  | swept removed cutoff => exact List.length_replicate
  | cleared result =>
      cases result with
      | error e => rfl
      | ok removed => exact List.length_replicate
  | _ => rfl

end Visit

namespace History

/-- The fates of messages, in the order in which they left. -/
def fates (h : List Visit) : List Fate := h.flatMap Visit.fates

/-- The messages that calls returned, in order. -/
def delivered (h : List Visit) : List Bytes := h.filterMap Visit.delivered?

/-- Those of the messages that were delivered, if these are the fates of the first of them. -/
def deliveries (messages : List Message) (fates : List Fate) : List Bytes :=
  (messages.zip fates).filterMap fun mf => if mf.2 = .delivered then some mf.1.payload else none

theorem fates_cons (v : Visit) (h : List Visit) : fates (v :: h) = v.fates ++ fates h := rfl

theorem delivered_cons (v : Visit) (h : List Visit) :
    delivered (v :: h) = v.delivered?.toList ++ delivered h := by
  unfold delivered
  rw [List.filterMap_cons]
  cases v.delivered? <;> rfl

theorem deliveries_append {front rest : List Message} {fates later : List Fate}
    (h : front.length = fates.length) :
    deliveries (front ++ rest) (fates ++ later) =
      deliveries front fates ++ deliveries rest later := by
  unfold deliveries
  rw [List.zip_append h, List.filterMap_append]

/-- Nothing is delivered of what went otherwise. -/
theorem deliveries_replicate {fate : Fate} (h : fate ≠ .delivered) (messages : List Message)
    (n : Nat) : deliveries messages (List.replicate n fate) = [] := by
  refine List.filterMap_eq_nil_iff.mpr fun mf hmf => if_neg ?_
  rw [List.eq_of_mem_replicate (List.of_mem_zip hmf).2]
  exact h

end History

namespace PlainPipe

open History

variable {p q start final : PlainPipe} {v : Visit} {h : List Visit}

/-- A call returns the payload of the message that it takes for somebody, and otherwise nothing. -/
theorem Answers.delivered (ha : p.Answers v q) :
    deliveries (p.queue.messages.take v.taken) v.fates = v.delivered?.toList := by
  have hnone : ∀ fates, deliveries (p.queue.messages.take 0) fates = [] := fun _ => rfl
  cases ha.outcome with
  | @received _ _ out _ _ m rest hm hr hl =>
      have hpayload : (m.payload ++ out.drop m.payload.length).take m.payload.length = m.payload :=
        List.take_left
      rw [hm]
      exact congrArg (fun bytes => [bytes]) hpayload.symm
  | swept | cleared => exact deliveries_replicate (by simp) _ _
  | _ => exact hnone _

/-- What a sweep removes is older than its cutoff. -/
theorem Answers.expired (ha : p.Answers v q) {m : Message} {cutoff : UInt64}
    (hm : (m, Fate.expired cutoff) ∈ (p.queue.messages.take v.taken).zip v.fates) :
    m.stamp < cutoff := by
  obtain ⟨hmem, hfate⟩ := List.of_mem_zip hm
  cases ha.outcome with
  | @swept _ _ cutoff' =>
      have hcutoff := List.eq_of_mem_replicate hfate
      obtain rfl : cutoff = cutoff' := Fate.expired.inj hcutoff
      have htake : p.queue.messages.take (p.queue.sweep cutoff).1 =
          p.queue.messages.takeWhile (Queue.expired cutoff) := by
        have hsplit := @List.takeWhile_append_dropWhile _ (Queue.expired cutoff) p.queue.messages
        have := congrArg (List.take (p.queue.sweep cutoff).1) hsplit
        rw [Queue.sweep, List.take_left] at this
        exact this.symm
      rw [show Visit.taken _ = (p.queue.sweep cutoff).1 from rfl, htake] at hmem
      exact of_decide_eq_true (List.all_eq_true.mp List.all_takeWhile m hmem)
  | received => exact absurd (List.mem_singleton.mp hfate) (by simp)
  | cleared => exact absurd (List.eq_of_mem_replicate hfate) (by simp)
  | _ => exact (List.not_mem_nil hfate).elim

/-- **What became of the messages**: the fates are those of the first messages, in order. -/
theorem Explains.fates (he : start.Explains h final) :
    (fates h).length ≤ (start.queue.messages ++ sent h).length ∧
      delivered h = deliveries (start.queue.messages ++ sent h) (fates h) ∧
      (∀ m cutoff, (m, .expired cutoff) ∈ (start.queue.messages ++ sent h).zip (fates h) →
        m.stamp < cutoff) ∧
      final.queue.messages = (start.queue.messages ++ sent h).drop (fates h).length := by
  induction h generalizing start with
  | nil =>
      obtain rfl := explains_nil.mp he
      refine ⟨Nat.zero_le _, ?_, ?_, (List.append_nil _).symm⟩
      · simp [deliveries, History.fates, History.delivered]
      · simp [History.fates]
  | cons v h ih =>
      obtain ⟨mid, ha, he⟩ := explains_cons.mp he
      obtain ⟨hlen, hdelivered, hexpired, hfinal⟩ := ih he
      obtain ⟨-, hle, hm⟩ := ha.messages
      -- the call takes the first messages; the rest of the history is about those that stay
      have hfront : (start.queue.messages.take v.taken).length = v.fates.length := by
        rw [List.length_take, v.length_fates]; omega
      have hsplit : start.queue.messages ++ sent (v :: h) =
          start.queue.messages.take v.taken ++ (mid.queue.messages ++ sent h) := by
        rw [hm, sent_cons, List.append_assoc, ← List.append_assoc (List.take _ _),
          List.take_append_drop]
      rw [hsplit, fates_cons, delivered_cons, deliveries_append hfront, List.zip_append hfront,
        ha.delivered, hdelivered]
      refine ⟨?_, rfl, ?_, ?_⟩
      · simp only [List.length_append] at hlen ⊢; omega
      · intro m cutoff hmem
        cases List.mem_append.mp hmem with
        | inl hmem => exact ha.expired hmem
        | inr hmem => exact hexpired m cutoff hmem
      · rw [hfinal, List.length_append, ← hfront, ← List.drop_drop, List.drop_left]

end PlainPipe

end MessagePipe
