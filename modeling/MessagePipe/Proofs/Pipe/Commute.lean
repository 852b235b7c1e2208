import MessagePipe.Proofs.Pipe.Visit
import MessagePipe.Proofs.Ring.Commute

/-!
# MessagePipe.Proofs.Pipe.Commute

A sender and a receiver who look at the same pipe, one right after the other.
Mostly it makes no difference who is first.  It does if one of them finds
nothing to do but wait; but then the other makes its side ready, and owes it a
signal (`visit_send_recv`).
-/

namespace MessagePipe.Pipe

variable {p : Pipe} {m : Moment} {sender reader : Credentials} {data out : Bytes}

/-- A receive leaves the pipe as open, and its slots as long, as they were. -/
theorem visit_recv_frame (p : Pipe) (m : Moment) (reader : Credentials) (out : Bytes)
    (wait : Wait) :
    (p.visit m (.recv reader out wait)).2.closed = p.closed ∧
      (p.visit m (.recv reader out wait)).2.ring.dataSize = p.ring.dataSize := by
  rw [visit_recv]
  split
  · split <;> exact ⟨rfl, rfl⟩
  · have hg := Ring.toGeometry_step p.ring (.pop reader out)
    exact ⟨rfl, congrArg Geometry.dataSize hg⟩

/-- A sender and a receiver who would both wait rather than give up: either it makes no
difference who looks first, or the one who has to wait is then owed a signal by the other. -/
theorem visit_send_recv (h : p.ring.WellFormed) {swait rwait : Wait}
    (hs : swait.refusal m.late = none) (hr : rwait.refusal m.late = none) :
    let s := p.visit m (.send sender data swait)
    let r := p.visit m (.recv reader out rwait)
    (∃ q, r.2.visit m (.send sender data swait) = (s.1, q) ∧
        s.2.visit m (.recv reader out rwait) = (r.1, q)) ∨
      (s.1 = none ∧ ∃ reply, r.1 = some reply ∧ reply.signals = [.writable]) ∨
      (r.1 = none ∧ ∃ reply, s.1 = some reply ∧ reply.signals = [.readable]) := by
  dsimp only
  obtain ⟨hclosed, hsize⟩ := visit_recv_frame p m reader out rwait
  by_cases hd : p.ring.dataSize < data.length
  · -- too large for any slot, before and after
    refine .inl ⟨(p.visit m (.recv reader out rwait)).2, ?_, ?_⟩
    · rw [visit_send, visit_send, hsize, if_pos hd, if_pos hd]
    · rw [visit_send, if_pos hd]
  by_cases hc : p.closed = true
  · refine .inl ⟨(p.visit m (.recv reader out rwait)).2, ?_, ?_⟩
    · rw [visit_send, visit_send, hsize, hclosed, if_neg hd, if_neg hd, if_pos hc, if_pos hc]
    · rw [visit_send, if_neg hd, if_pos hc]
  rw [visit_send p, if_neg hd, if_neg hc]
  by_cases hf : p.ring.isFull = true
  · -- the sender has to wait, but not for nothing if a message can be taken
    have hpos := h.capacity_pos
    have hfull := h.isFull_iff.mp hf
    have he : ¬ p.ring.isEmpty = true := by rw [h.isEmpty_iff]; omega
    rw [if_pos hf, hs, visit_recv, if_neg he]
    rcases pop_cases p.ring reader out with ⟨e, hres, hring⟩ | ⟨n, hok⟩
    · refine .inl ⟨p, ?_, ?_⟩
      · rw [hring, visit_send, if_neg hd, if_neg hc, if_pos hf, hs]
      · rw [hring]
    · refine .inr (.inl ⟨rfl, _, rfl, ?_⟩)
      rw [hok]; rfl
  · rw [if_neg hf]
    have hf : p.ring.isFull = false := by simpa using hf
    by_cases he : p.ring.isEmpty = true
    · -- the receiver has to wait, but a message comes
      refine .inr (.inr ⟨?_, _, rfl, rfl⟩)
      rw [visit_recv, if_pos he, if_neg hc, hr]; rfl
    · have h0 : 0 < p.ring.count := by
        have hne : ¬ p.ring.count = 0 := by rw [← h.isEmpty_iff]; exact he
        omega
      have hdata : data.length ≤ p.ring.dataSize := by omega
      have hstore := h.store hf hdata sender m.now
      have he' : ¬ (p.ring.store data sender m.now).isEmpty = true := by
        rw [hstore.isEmpty_iff, Ring.count_store h hf]; omega
      refine .inl ⟨{ p with ring := (p.ring.pop reader out).2.2.store data sender m.now }, ?_, ?_⟩
      · have hf' := Ring.isFull_pop h hf reader out
        rw [visit_send, hsize, hclosed, if_neg hd, if_neg hc, visit_recv, if_neg he]
        dsimp only
        rw [hf', if_neg Bool.false_ne_true]
      · rw [visit_recv, visit_recv, if_neg he, if_neg he']
        dsimp only
        rw [Ring.pop_store h h0 hf hdata]

end MessagePipe.Pipe
