import MessagePipe.Proofs.Pipe.Solo
import MessagePipe.Proofs.Ring.Frame

/-!
# MessagePipe.Proofs.Pipe.WaitModes

How long a caller is ready to wait makes no difference unless it has to wait.
A look at the pipe either settles a send or a receive, in the same way for
every caller, or leaves it to the caller what to do (`Pipe.Modes`).  So while
nobody else does anything (`World.WaitsAlike`)

1. a call that never waits ends at once;
2. if it is not told that it would have to wait, then no other caller parks,
   and each is told the same and leaves the same pipe;
3. if it is, then a caller that waits without a limit parks, and one that has
   a deadline is told that its time is over; neither has changed the ring, and
   the second is counted as waiting no longer.

A buffer only matters by its length (`visit_recv_length`), so a receive into a
buffer of its own hands over what a receive into any buffer of that length
would have left there.
-/

namespace MessagePipe

/-- The message that a reply hands over: as many bytes of the buffer as were received. -/
def Reply.message? : Reply → Option (Except PipeError Bytes)
  | received result out => some (Pipe.messageOf result out)
  | _ => none

/-! ## Looks -/

namespace Pipe

variable {p q : Pipe} {now : UInt64}

/-- The two ways in which a look can meet the calls `call wait` that differ in nothing but how
long the caller is ready to wait. -/
inductive Modes (p : Pipe) (call : Wait → Call) (refused : PipeError → Reply) (now : UInt64) : Prop
  /-- The look settles the call, whoever makes it. -/
  | settled (reply : Reply) (q : Pipe) (hreply : reply ≠ refused .wouldBlock)
      (h : ∀ wait late, p.visit ⟨now, late⟩ (call wait) = (some reply, q))
  /-- The look leaves it to the caller to give up or to wait. -/
  | refused (h : ∀ wait late,
      p.visit ⟨now, late⟩ (call wait) = ((wait.refusal late).map refused, p))

theorem modes_send (p : Pipe) (sender : Credentials) (data : Bytes) (now : UInt64) :
    p.Modes (.send sender data) (fun e => .sent (.error e)) now := by
  by_cases hd : p.ring.dataSize < data.length
  · refine .settled _ p ?_ fun wait late => by rw [visit_send, if_pos hd]
    simp
  by_cases hc : p.closed = true
  · refine .settled _ p ?_ fun wait late => by rw [visit_send, if_neg hd, if_pos hc]
    simp
  by_cases hf : p.ring.isFull = true
  · exact .refused fun wait late => by rw [visit_send, if_neg hd, if_neg hc, if_pos hf]
  · refine .settled _ { p with ring := p.ring.store data sender now } ?_ fun wait late => by
      rw [visit_send, if_neg hd, if_neg hc, if_neg hf]
    simp

theorem modes_recv (p : Pipe) (reader : Credentials) (out : Bytes) (now : UInt64) :
    p.Modes (.recv reader out) (fun e => .received (.error e) out) now := by
  by_cases he : p.ring.isEmpty = true
  · by_cases hc : p.closed = true
    · refine .settled _ p ?_ fun wait late => by rw [visit_recv, if_pos he, if_pos hc]
      simp
    · exact .refused fun wait late => by rw [visit_recv, if_pos he, if_neg hc]
  · refine .settled _ _ ?_ fun wait late => by rw [visit_recv, if_neg he]
    rcases pop_cases p.ring reader out with ⟨e, herror, -⟩ | ⟨n, hok⟩
    · simp [herror, Except.mapError]
    · simp [hok, Except.mapError]

/-- A buffer only matters by its length. -/
theorem visit_recv_length (h : p.ring.WellFormed) {out out' : Bytes}
    (hl : out.length = out'.length) (m : Moment) (reader : Credentials) (wait : Wait) :
    (p.visit m (.recv reader out wait)).1.map Reply.message? =
        (p.visit m (.recv reader out' wait)).1.map Reply.message? ∧
      (p.visit m (.recv reader out wait)).2 = (p.visit m (.recv reader out' wait)).2 := by
  obtain ⟨hresult, hring, hmessage⟩ := Ring.pop_of_length h reader hl
  rw [visit_recv, visit_recv]
  split
  · split
    · exact ⟨rfl, rfl⟩
    · cases wait.refusal m.late <;> exact ⟨rfl, rfl⟩
  · refine ⟨?_, by rw [hring]⟩
    simp only [Option.map_some, Reply.message?, messageOf, ← hresult]
    cases hpop : (p.ring.pop reader out).1 with
    | error e => rfl
    | ok n =>
        simp only [Except.mapError, Except.map, hmessage n hpop]

end Pipe

/-! ## Calls -/

namespace World

/-- Calls that differ in nothing but how long the caller is ready to wait, while nobody else does
anything; the caller that never waits is given `reply`, and leaves the pipe `q`. -/
structure WaitsAlike (w : World) (call : Wait → Call) (refused : PipeError → Reply) (now : UInt64)
    (reply : Reply) (q : Pipe) : Prop where
  never : w.EndsAtOnce (call .never) now reply q
  settled : reply ≠ refused .wouldBlock → ∀ wait, w.EndsAtOnce (call wait) now reply q
  refused : reply = refused .wouldBlock →
    q = w.pipe ∧ w.Waits (call .forever) now ∧ w.Ends (call .timed) now (refused .timeout) w.pipe

variable {w : World} {call : Wait → Call} {refused : PipeError → Reply} {now : UInt64}
  {reply : Reply} {q : Pipe}

theorem waitsAlike (hm : w.pipe.Modes call refused now)
    (h : w.pipe.visit ⟨now, true⟩ (call .never) = (some reply, q)) :
    w.WaitsAlike call refused now reply q := by
  cases hm with
  | settled reply' q' hne hall =>
      obtain ⟨hreply, rfl⟩ := Prod.mk.inj ((hall .never true).symm.trans h)
      obtain rfl := Option.some.inj hreply
      exact {
        never := endsAtOnce_of_visit (hall .never)
        settled := fun _ wait => endsAtOnce_of_visit (hall wait)
        refused := fun heq => absurd heq hne }
  | refused hall =>
      obtain ⟨hreply, rfl⟩ := Prod.mk.inj ((hall .never true).symm.trans h)
      obtain rfl : refused .wouldBlock = reply := Option.some.inj hreply
      exact {
        never := endsAtOnce_of_visit (hall .never)
        settled := fun hne => absurd rfl hne
        refused := fun _ =>
          ⟨rfl, waits_of_visit (by rw [hall]; rfl), ends_of_visit (hall .timed true)⟩ }

/-- A receive into a buffer of its own hands over what a receive into any other buffer of that
length would. -/
theorem exists_ends_fresh (hr : w.pipe.ring.WellFormed) {reader : Credentials} {out : Bytes}
    (hl : out.length = w.pipe.ring.dataSize) (h : w.Ends (.recv reader out .forever) now reply q) :
    ∃ reply', w.Ends (.recv reader w.pipe.freshBuffer .forever) now reply' q ∧
      reply'.message? = reply.message? := by
  have hlen : out.length = w.pipe.freshBuffer.length := hl.trans (Bytes.length_zeros _).symm
  obtain ⟨hmessage, hpipe⟩ := Pipe.visit_recv_length hr hlen ⟨now, true⟩ reader .forever
  rw [ends_iff_visit] at h
  rw [h] at hmessage hpipe
  cases hv : w.pipe.visit ⟨now, true⟩ (.recv reader w.pipe.freshBuffer .forever) with
  | mk answer q' =>
  rw [hv] at hmessage hpipe
  obtain rfl : q = q' := hpipe
  obtain ⟨reply', rfl, hsame⟩ := Option.map_eq_some_iff.mp hmessage.symm
  exact ⟨reply', ends_of_visit hv, hsame⟩

theorem waits_fresh (hr : w.pipe.ring.WellFormed) {reader : Credentials} {out : Bytes}
    (hl : out.length = w.pipe.ring.dataSize) (h : w.Waits (.recv reader out .forever) now) :
    w.Waits (.recv reader w.pipe.freshBuffer .forever) now := by
  have hlen : out.length = w.pipe.freshBuffer.length := hl.trans (Bytes.length_zeros _).symm
  have hmessage := (Pipe.visit_recv_length hr hlen ⟨now, true⟩ reader .forever).1
  rw [waits_iff_visit] at h ⊢
  rw [h] at hmessage
  exact Option.map_eq_none_iff.mp hmessage.symm

/-- A receive into a buffer of its own, beside one into the buffer `out` of a caller. -/
structure RecvsAlike (w : World) (reader : Credentials) (out : Bytes) (now : UInt64) : Prop where
  /-- If one is told something, so is the other, and the same message is handed over. -/
  ends : ∀ {reply q}, w.Ends (.recv reader out .forever) now reply q →
    ∃ reply', w.Ends (.recv reader w.pipe.freshBuffer .forever) now reply' q ∧
      reply'.message? = reply.message?
  /-- If one is parked, so is the other. -/
  waits : w.Waits (.recv reader out .forever) now →
    w.Waits (.recv reader w.pipe.freshBuffer .forever) now
  /-- Then `Pipe.recvMessageAlone` computes the same. -/
  alone_of_ends : ∀ {reply q}, w.Ends (.recv reader out .forever) now reply q →
    w.pipe.recvMessageAlone reader now = (reply.message?, q)
  alone_of_waits : w.Waits (.recv reader out .forever) now →
    w.pipe.recvMessageAlone reader now = (none, w.pipe.enroll .readable)

theorem recvsAlike (hr : w.pipe.ring.WellFormed) (reader : Credentials) {out : Bytes}
    (hl : out.length = w.pipe.ring.dataSize) : w.RecvsAlike reader out now where
  ends := exists_ends_fresh hr hl
  waits := waits_fresh hr hl
  alone_of_ends h := by
    obtain ⟨reply', hends, hsame⟩ := exists_ends_fresh hr hl h
    unfold Pipe.recvMessageAlone
    rw [Pipe.alone_of_visit (ends_iff_visit.mp hends), ← hsame]
    cases reply' <;> rfl
  alone_of_waits h := by
    unfold Pipe.recvMessageAlone
    rw [Pipe.alone_of_visit_none (waits_iff_visit.mp (waits_fresh hr hl h))]
    rfl

/-- **Wait modes agree**: while nobody else does anything, callers that are ready to wait in
different ways are told the same and leave the same pipe, unless the one that never waits is told
that it would have to; then one without a limit parks, and one with a deadline gives up. A
receive into a buffer of its own hands over the same message as any other. -/
theorem wait_modes_agree {c : PipeConfig} (h : w.Reachable c) (now : UInt64) :
    (∀ sender data, w.WaitsAlike (.send sender data) (fun e => .sent (.error e)) now
        (.sent (w.pipe.trySend sender data now).1) (w.pipe.trySend sender data now).2) ∧
      (∀ reader out, w.WaitsAlike (.recv reader out) (fun e => .received (.error e) out) now
        (.received (w.pipe.tryRecv reader out).1 (w.pipe.tryRecv reader out).2.1)
        (w.pipe.tryRecv reader out).2.2) ∧
      ∀ reader (out : Bytes), out.length = w.pipe.ring.dataSize → w.RecvsAlike reader out now := by
  have hring : w.pipe.ring.WellFormed := h.sound.ring
  refine ⟨fun sender data => ?_, fun reader out => ?_, fun reader out hl => ?_⟩
  · exact waitsAlike (w.pipe.modes_send sender data now) (w.pipe.visit_send_never _ _ _)
  · exact waitsAlike (w.pipe.modes_recv reader out now) (w.pipe.visit_recv_never _ _ _)
  · exact recvsAlike hring reader hl

/-- A pipe whose only slot is taken: a sender parks or gives up, and a receiver is served at once
though it was ready to wait. -/
theorem wait_modes_agree_full :
    ∃ (w : World) (q : Pipe), w.Reachable ⟨⟨1, 2⟩, .ofMillis 5⟩ ∧
      w.Waits (.send ⟨1, 1⟩ [8] .forever) 11 ∧
      w.Ends (.send ⟨1, 1⟩ [8] .timed) 11 (.sent (.error .timeout)) w.pipe ∧
      w.EndsAtOnce (.recv ⟨1, 1⟩ [0, 0] .timed) 11 (.received (.ok 1) [9, 0]) q ∧
      ∃ reply, w.Ends (.recv ⟨1, 1⟩ w.pipe.freshBuffer .forever) 11 reply q ∧
        reply.message? = some (.ok [9]) := by
  have hreach : ∃ w : World, w.Reachable ⟨⟨1, 2⟩, .ofMillis 5⟩ ∧
      (w.pipe.trySend ⟨1, 1⟩ [8] 11).1 = .error .wouldBlock ∧
      (w.pipe.tryRecv ⟨1, 1⟩ [0, 0]).1 = .ok 1 ∧
      (w.pipe.tryRecv ⟨1, 1⟩ [0, 0]).2.1 = [9, 0] ∧ w.pipe.ring.dataSize = 2 :=
    ⟨_, ⟨_, [.start none (.send ⟨1, 1⟩ [9] .never), .lock 0 ⟨7, false⟩], rfl, rfl⟩,
      rfl, rfl, rfl, rfl⟩
  obtain ⟨w, hw, hsend, hrecv, hout, hsize⟩ := hreach
  obtain ⟨hsends, hrecvs, hfresh⟩ := wait_modes_agree hw 11
  obtain ⟨-, hwaits, hends⟩ := (hsends ⟨1, 1⟩ [8]).refused (by rw [hsend])
  have hserved := (hrecvs ⟨1, 1⟩ [0, 0]).settled (by rw [hrecv]; simp)
  rw [hrecv, hout] at hserved
  obtain ⟨reply, hreply, hmessage⟩ :=
    (hfresh ⟨1, 1⟩ [0, 0] hsize.symm).ends (hserved .forever).toEnds
  exact ⟨w, _, hw, hwaits, hends, hserved .timed, reply, hreply, hmessage⟩

end World

end MessagePipe
