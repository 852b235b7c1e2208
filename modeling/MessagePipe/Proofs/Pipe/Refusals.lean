import MessagePipe.Proofs.Pipe.Linearization

/-!
# MessagePipe.Proofs.Pipe.Refusals

Why a send or a receive on a pipe may fail.  The ring has more reasons than
that: it may be full, or hold no message.  A caller never sees these, because
the look that finds the ring so does not touch it; and a receive into a buffer
as large as a slot is never told that it is too short, because no message that
is queued is larger than a slot (`PlainPipe.Fits`).

* `Pipe.allows_visit` — of one look;
* `PlainPipe.Explains.allows` — of every call of a history that the plain pipe
  explains, and so of all threads at work on a pipe
  (`World.Reachable.surface`).
-/

namespace MessagePipe

/-! ## The reasons -/

namespace PipeError

/-- Why a send may fail. -/
inductive OfSend (dataSize : Nat) (data : Bytes) (wait : Wait) : PipeError → Prop
  | tooLarge (h : dataSize < data.length) :
      OfSend dataSize data wait (.ring (.messageTooLarge data.length dataSize))
  | closed : OfSend dataSize data wait .closed
  | wouldBlock (h : wait = .never) : OfSend dataSize data wait .wouldBlock
  | timeout (h : wait = .timed) : OfSend dataSize data wait .timeout

/-- Why a receive may fail. -/
inductive OfRecv (dataSize : Nat) (out : Bytes) (wait : Wait) : PipeError → Prop
  | denied : OfRecv dataSize out wait (.ring .accessDenied)
  /-- The buffer is smaller than a slot. -/
  | short (h : out.length < dataSize) :
      OfRecv dataSize out wait (.ring (.invalidArgument .shortBuffer))
  | closed : OfRecv dataSize out wait .closed
  | wouldBlock (h : wait = .never) : OfRecv dataSize out wait .wouldBlock
  | timeout (h : wait = .timed) : OfRecv dataSize out wait .timeout

variable {dataSize : Nat} {data out : Bytes} {wait : Wait} {e : PipeError}

/-- A buffer that is as large as a slot holds every message. -/
theorem OfRecv.ne_invalidArgument (h : e.OfRecv dataSize out wait) (hl : dataSize ≤ out.length)
    (reason : Reason) : e ≠ .ring (.invalidArgument reason) := by
  cases h with
  | short hs => omega
  | _ => simp

end PipeError

/-- The replies that a call may get if it is a send or a receive: one of its kind, which is no
error but those above. -/
def Call.Allows (dataSize : Nat) : Call → Reply → Prop
  | .send _ data wait, .sent result => ∀ e, result = .error e → e.OfSend dataSize data wait
  | .recv _ out wait, .received result _ => ∀ e, result = .error e → e.OfRecv dataSize out wait
  | .send .., _ | .recv .., _ => False
  | _, _ => True

/-! ## Calls on a plain pipe -/

namespace PlainPipe

/-- Every message that is queued fits a slot. -/
def Fits (p : PlainPipe) : Prop :=
  ∀ m ∈ p.queue.messages, m.payload.length ≤ p.queue.geometry.dataSize

variable {p q start final : PlainPipe} {v : Visit} {h : List Visit}

/-- Only who does not wait at all is told so, and only who waits for some time that it is over. -/
theorem refusal_cases {wait : Wait} {e : PipeError} (h : refusal wait = some e) :
    wait = .never ∧ e = .wouldBlock ∨ wait = .timed ∧ e = .timeout := by
  cases wait with
  | never => exact .inl ⟨rfl, (Option.some.inj h).symm⟩
  | timed => exact .inr ⟨rfl, (Option.some.inj h).symm⟩
  | forever => contradiction

theorem Answers.allows (ha : p.Answers v q) (hp : p.Fits) :
    v.call.Allows p.queue.geometry.dataSize v.reply := by
  cases ha.outcome with
  | tooLarge hd =>
      rintro e ⟨⟩
      exact .tooLarge hd
  | sendClosed hd hc =>
      rintro e ⟨⟩
      exact .closed
  | sendRefused hd hc hf hw =>
      rintro e ⟨⟩
      rcases refusal_cases hw with ⟨hwait, rfl⟩ | ⟨hwait, rfl⟩
      · exact .wouldBlock hwait
      · exact .timeout hwait
  | recvClosed hc hn =>
      rintro e ⟨⟩
      exact .closed
  | recvRefused hc hn hw =>
      rintro e ⟨⟩
      rcases refusal_cases hw with ⟨hwait, rfl⟩ | ⟨hwait, rfl⟩
      · exact .wouldBlock hwait
      · exact .timeout hwait
  | recvDenied hm hr =>
      rintro e ⟨⟩
      exact .denied
  | @recvShort _ _ out _ _ m rest hm hl =>
      rintro e ⟨⟩
      have hfit := hp m (hm ▸ List.mem_cons_self)
      exact .short (Nat.lt_of_lt_of_le hl hfit)
  | sent hd hc hf | received hm hr hl => rintro e ⟨⟩
  | swept | expirySet | cleared hc | clearDenied hc | closed => trivial

/-- A message that is sent fits a slot, so every message that is queued does. -/
theorem Answers.fits (ha : p.Answers v q) (hp : p.Fits) : q.Fits := by
  obtain ⟨hg, -, hmessages⟩ := ha.messages
  intro m hm
  rw [hg]
  rw [hmessages] at hm
  cases List.mem_append.mp hm with
  | inl hold => exact hp m (List.mem_of_mem_drop hold)
  | inr hnew =>
      cases ha.outcome with
      | sent hd hc hf =>
          obtain rfl := List.mem_singleton.mp hnew
          exact hd
      | _ => exact (List.not_mem_nil hnew).elim

theorem Explains.allows (he : start.Explains h final) (hs : start.Fits) :
    ∀ v ∈ h, v.call.Allows start.queue.geometry.dataSize v.reply := by
  induction h generalizing start with
  | nil => exact fun v hv => (List.not_mem_nil hv).elim
  | cons v h ih =>
      obtain ⟨mid, ha, he⟩ := explains_cons.mp he
      intro u hu
      rcases List.mem_cons.mp hu with rfl | hu
      · exact ha.allows hs
      · rw [← ha.messages.1]
        exact ih he (ha.fits hs) u hu

end PlainPipe

/-! ## Looks at a pipe -/

/-- The messages of a ring fit their slots. -/
theorem Ring.WellFormed.fits {r : Ring} (h : r.WellFormed) (closed : Bool) :
    PlainPipe.Fits ⟨r.toQueue, closed⟩ := by
  intro m hm
  obtain ⟨i, hi, rfl⟩ := List.mem_map.mp hm
  have hi : i < r.count := List.mem_range.mp hi
  have hvalid : (r.recordAt (r.slotFromTail i)).valid = true :=
    (h.valid_iff i (Nat.lt_of_lt_of_le hi h.count_le)).mpr hi
  have hlen : (r.messageAt (r.slotFromTail i)).payload.length ≤
      (r.recordAt (r.slotFromTail i)).len.toNat := by
    simp only [Ring.messageAt, Bytes.slice, List.length_take]
    omega
  exact Nat.le_trans hlen (h.len_le _ hvalid)

namespace Pipe

variable {p q : Pipe} {m : Moment} {call : Call} {reply : Reply} {e : PipeError}

theorem allows_visit (h : p.ring.WellFormed) (hv : p.visit m call = (some reply, q)) :
    call.Allows p.ring.dataSize reply := by
  have ha : p.plain.Answers ⟨none, call, m.now, reply⟩ (p.visit m call).2.plain :=
    plain_visit h (congrArg Prod.fst hv)
  exact ha.allows (h.fits p.closed)

theorem ofSend_trySend (h : p.ring.WellFormed) {sender : Credentials} {data : Bytes} {now : UInt64}
    (he : (p.trySend sender data now).1 = .error e) : e.OfSend p.ring.dataSize data .never :=
  allows_visit h (p.visit_send_never ⟨now, false⟩ sender data) e he

theorem ofRecv_tryRecv (h : p.ring.WellFormed) {reader : Credentials} {out : Bytes}
    (he : (p.tryRecv reader out).1 = .error e) : e.OfRecv p.ring.dataSize out .never :=
  allows_visit h (p.visit_recv_never ⟨0, false⟩ reader out) e he

end Pipe

/-! ## All threads together -/

namespace World

variable {c : PipeConfig} {w : World}

/-- What may go wrong for the threads at work on a pipe. -/
structure Surface (dataSize : Nat) (w : World) : Prop where
  /-- A call that was decided failed for a reason of its kind, if it failed. -/
  decided : ∀ v ∈ w.history, v.call.Allows dataSize v.reply
  /-- So did a call that returned. -/
  returned : ∀ t ∈ w.threads, ∀ reply, t.result = some reply → t.call.Allows dataSize reply
  /-- A receive into a buffer of its own, which is as large as a slot, is not told that an argument
  is wrong. -/
  recvMessage : ∀ t ∈ w.threads, ∀ reader out wait e out', t.call = .recv reader out wait →
    dataSize ≤ out.length → t.result = some (.received (.error e) out') →
    ∀ reason, e ≠ .ring (.invalidArgument reason)

theorem Reachable.allows (h : w.Reachable c) :
    ∀ v ∈ w.history, v.call.Allows c.geometry.dataSize v.reply :=
  PlainPipe.Explains.allows h.explained.replies fun _ hm => (List.not_mem_nil hm).elim

/-- What a thread returns is what was decided. -/
theorem Reachable.exists_decided (h : w.Reachable c) {t : Thread} (ht : t ∈ w.threads)
    {reply : Reply} (hr : t.result = some reply) :
    ∃ v ∈ w.history, v.call = t.call ∧ v.reply = reply := by
  have hverdict : t.verdict = some (t.party, t.call, reply) := by
    unfold Thread.result at hr
    split at hr
    · next hphase =>
        obtain rfl := Option.some.inj hr
        simp only [Thread.verdict, hphase]
    · contradiction
  have hmem : (t.party, t.call, reply) ∈ w.history.map Visit.verdict :=
    (Multiset.coe_eq_coe.mp h.explained.verdicts).mem_iff.mp
      (List.mem_filterMap.mpr ⟨t, ht, hverdict⟩)
  obtain ⟨v, hv, heq⟩ := List.mem_map.mp hmem
  simp only [Visit.verdict, Prod.mk.injEq] at heq
  exact ⟨v, hv, heq.2⟩

theorem Reachable.surface (h : w.Reachable c) : w.Surface c.geometry.dataSize := by
  have hreturned : ∀ t ∈ w.threads, ∀ reply, t.result = some reply →
      t.call.Allows c.geometry.dataSize reply := by
    intro t ht reply hr
    obtain ⟨v, hv, hcall, rfl⟩ := h.exists_decided ht hr
    rw [← hcall]
    exact h.allows v hv
  refine ⟨h.allows, hreturned, fun t ht reader out wait e out' hcall hl hr => ?_⟩
  have hallows := hreturned t ht _ hr
  rw [hcall] at hallows
  exact (hallows e rfl).ne_invalidArgument hl

end World

end MessagePipe
