import Mathlib.Data.List.Induction
import MessagePipe.Proofs.Pipe.Replay
import MessagePipe.Total

/-!
# MessagePipe.Proofs.Pipe.Ledger

Who took which message.  Messages are numbered in the order in which they were
sent (`History.sent`), and leave the pipe in that order, so the call at a place
of a history took those numbers that no earlier call took (`History.Takes`).

* `Takes.unique` / `exists_takes` — each message that is gone was taken by
  exactly one call;
* `Takes.lt_of_lt` — later calls take later messages;
* `Explains.messages` — the messages that nobody took are still queued;
* `Explains.received` — a receive that succeeds returns the message that it
  took.
-/

namespace MessagePipe

namespace History

/-- The messages that were sent, first to last. -/
def sent (h : List Visit) : List Message := h.filterMap Visit.sent?

/-- How many messages were taken out of the pipe. -/
def taken (h : List Visit) : Nat := total Visit.taken h

/-- The call at place `j` took message number `k` out of the pipe. -/
def Takes (h : List Visit) (j k : Nat) : Prop :=
  taken (h.take j) ≤ k ∧ k < taken (h.take (j + 1))

variable {h : List Visit} {v : Visit} {i j k l : Nat}

/-! ## Counting -/

theorem sent_cons (v : Visit) (h : List Visit) : sent (v :: h) = v.sent?.toList ++ sent h := by
  unfold sent
  rw [List.filterMap_cons]
  cases v.sent? <;> rfl

theorem taken_cons (v : Visit) (h : List Visit) : taken (v :: h) = v.taken + taken h := rfl

theorem taken_append (h h' : List Visit) : taken (h ++ h') = taken h + taken h' :=
  total_append _ h h'

/-- What was taken before some place was taken before every later one. -/
theorem taken_take_mono (h : List Visit) (hij : i ≤ j) : taken (h.take i) ≤ taken (h.take j) := by
  have hsplit := List.take_append_drop i (h.take j)
  rw [List.take_take, Nat.min_eq_left hij] at hsplit
  rw [← hsplit, taken_append]
  exact Nat.le_add_right _ _

theorem taken_take_succ (hj : h[j]? = some v) :
    taken (h.take (j + 1)) = taken (h.take j) + v.taken := by
  rw [List.take_add_one, hj, taken_append]; rfl

/-! ## Takers -/

theorem Takes.lt_taken (ht : Takes h j k) : k < taken h := by
  have hle := taken_take_mono h (Nat.le_max_left (j + 1) h.length)
  rw [List.take_of_length_le (Nat.le_max_right _ _)] at hle
  exact Nat.lt_of_lt_of_le ht.2 hle

/-- Only a receive, a sweep or a clear that was served takes messages. -/
theorem Takes.taker (ht : Takes h j k) :
    ∃ v, h[j]? = some v ∧
      ((∃ n out, v.reply = .received (.ok n) out) ∨
        (∃ removed cutoff, v.reply = .swept removed cutoff) ∨
        ∃ removed, v.reply = .cleared (.ok removed)) := by
  obtain ⟨hlo, hhi⟩ := ht
  cases hj : h[j]? with
  | none =>
      rw [List.take_add_one, hj] at hhi
      simp only [Option.toList_none, List.append_nil] at hhi
      omega
  | some v =>
      rw [taken_take_succ hj] at hhi
      have hpos : 0 < v.taken := by omega
      refine ⟨v, rfl, ?_⟩
      unfold Visit.taken at hpos
      split at hpos
      · next n out hr => exact .inl ⟨n, out, hr⟩
      · next removed cutoff hr => exact .inr (.inl ⟨removed, cutoff, hr⟩)
      · next removed hr => exact .inr (.inr ⟨removed, hr⟩)
      · contradiction

/-- Later calls take later messages. -/
theorem Takes.lt_of_lt (hi : Takes h i k) (hj : Takes h j l) (hij : i < j) : k < l := by
  have hle := taken_take_mono h (show i + 1 ≤ j from hij)
  exact Nat.lt_of_lt_of_le hi.2 (Nat.le_trans hle hj.1)

/-- No message is taken twice. -/
theorem Takes.unique (hi : Takes h i k) (hj : Takes h j k) : i = j := by
  rcases Nat.lt_trichotomy i j with hlt | heq | hgt
  · exact absurd (hi.lt_of_lt hj hlt) (Nat.lt_irrefl k)
  · exact heq
  · exact absurd (hj.lt_of_lt hi hgt) (Nat.lt_irrefl k)

/-- Each message that is gone was taken by some call. -/
theorem exists_takes (hk : k < taken h) : ∃ j, Takes h j k := by
  induction h using List.reverseRecOn with
  | nil => contradiction
  | append_singleton h v ih =>
      cases Nat.lt_or_ge k (taken h) with
      | inl hlt =>
          obtain ⟨j, hlo, hhi⟩ := ih hlt
          obtain ⟨u, hu, -⟩ := Takes.taker ⟨hlo, hhi⟩
          have hj : j < h.length := (List.getElem?_eq_some_iff.mp hu).1
          refine ⟨j, ?_, ?_⟩
          · rwa [List.take_append_of_le_length (by omega)]
          · rwa [List.take_append_of_le_length (by omega)]
      | inr hge =>
          refine ⟨h.length, ?_, ?_⟩
          · rwa [List.take_left]
          · rwa [List.take_of_length_le (by simp)]

end History

namespace PlainPipe

open History

variable {start final : PlainPipe} {h : List Visit} {v : Visit} {j : Nat}

/-- What is queued in the end are the messages that nobody took. -/
theorem Explains.messages (he : start.Explains h final) :
    taken h ≤ (start.queue.messages ++ sent h).length ∧
      final.queue.messages = (start.queue.messages ++ sent h).drop (taken h) := by
  induction h generalizing start with
  | nil =>
      obtain rfl := explains_nil.mp he
      exact ⟨Nat.zero_le _, (List.append_nil _).symm⟩
  | cons v h ih =>
      obtain ⟨mid, ha, he⟩ := explains_cons.mp he
      obtain ⟨-, hle, hm⟩ := ha.messages
      have hrest := ih he
      have hq : mid.queue.messages ++ sent h =
          (start.queue.messages ++ sent (v :: h)).drop v.taken := by
        rw [hm, sent_cons, List.append_assoc, List.drop_append_of_le_length hle]
      rw [hq, List.drop_drop, List.length_drop] at hrest
      rw [taken_cons]
      have hlen : v.taken ≤ (start.queue.messages ++ sent (v :: h)).length := by
        rw [List.length_append]; omega
      exact ⟨by omega, hrest.2⟩

/-- A receive that succeeds takes the first message that nobody took before, which had been
sent before, and returns its payload. -/
theorem Explains.received (he : start.Explains h final) (hs : start.queue.messages = [])
    (hj : h[j]? = some v) {reader : Credentials} {out out' : Bytes} {wait : Wait} {n : Nat}
    (hc : v.call = .recv reader out wait) (hr : v.reply = .received (.ok n) out') :
    ∃ k m, Takes h j k ∧ (sent (h.take j))[k]? = some m ∧ reader.mayRead m.owner = true ∧
      n = m.payload.length ∧ out' = m.payload ++ out.drop n := by
  obtain ⟨p, q, hp, ha, -⟩ := he.at_place hj
  obtain ⟨m, hm, hread⟩ := ha.received hc hr
  refine ⟨taken (h.take j), m, ⟨Nat.le_refl _, ?_⟩, ?_, hread⟩
  · have htaken : v.taken = 1 := by rw [Visit.taken, hr]
    rw [taken_take_succ hj]; omega
  · rwa [hp.messages.2, hs, List.nil_append, List.head?_drop] at hm

end PlainPipe

end MessagePipe
