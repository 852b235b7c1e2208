import MessagePipe.Proofs.Pipe.Visit

/-!
# MessagePipe.Proofs.Pipe.Replay

A plain pipe explains a history of finished calls if it gives the reply of each
call when it is asked them in order (`PlainPipe.Explains`).  One call of it is
`PlainPipe.Answers`; the inversions below say what that tells about the queue:

* `Answers.messages` — a call takes some messages off the front, and a send
  that succeeds puts one at the end;
* `Answers.received` — a receive that succeeds returns the front message;
* `Answers.refused_send` / `refused_recv` — a caller gives up only while the
  queue is full, or empty, and the pipe open;
* `explains_rearranged` — sends that fit no slot may stand anywhere.
-/

namespace MessagePipe

/-! ## What a finished call moves -/

namespace Visit

/-- The message that the call put into the pipe. -/
def sent? (v : Visit) : Option Message :=
  match v.call, v.reply with
  | .send sender data _, .sent (.ok _) => some ⟨data, sender, v.now⟩
  | _, _ => none

/-- How many messages the call took out of the pipe. -/
def taken (v : Visit) : Nat :=
  match v.reply with
  | .received (.ok _) _ => 1
  | .swept removed _ => removed
  | .cleared (.ok removed) => removed
  | _ => 0

/-- Whether the call is the send of a message that fits no slot. -/
def oversized (g : Geometry) (v : Visit) : Bool :=
  match v.call with
  | .send _ data _ => decide (g.dataSize < data.length)
  | _ => false

end Visit

/-- A sweep drops as many messages from the front as it counts. -/
theorem Queue.messages_sweep (q : Queue) (cutoff : UInt64) :
    (q.sweep cutoff).2.messages = q.messages.drop (q.sweep cutoff).1 := by
  have hsplit := @List.takeWhile_append_dropWhile _ (Queue.expired cutoff) q.messages
  have hdrop := congrArg (List.drop (q.sweep cutoff).1) hsplit
  rwa [Queue.sweep, List.drop_left] at hdrop

namespace PlainPipe

/-- The pipe gives the reply of a finished call, and is then as told. -/
def Answers (p : PlainPipe) (v : Visit) (q : PlainPipe) : Prop :=
  p.reply v.now (cutoffOf v.reply) v.call = (some v.reply, q)

/-- The pipe gives the reply of each finished call in turn, and is as told in the end. -/
def Explains (start : PlainPipe) (h : List Visit) (final : PlainPipe) : Prop :=
  start.replay h = (h.map fun v => some v.reply, final)

variable {p q start final : PlainPipe} {v : Visit} {h h' : List Visit}

/-! ## Histories -/

theorem explains_nil : start.Explains [] final ↔ start = final := by
  simp only [Explains, replay, List.map_nil, Prod.mk.injEq, true_and]

theorem explains_cons :
    start.Explains (v :: h) final ↔ ∃ mid, start.Answers v mid ∧ mid.Explains h final := by
  simp only [Explains, replay, List.map_cons, Prod.mk.injEq, List.cons.injEq]
  constructor
  · rintro ⟨⟨hr, hrs⟩, hf⟩
    exact ⟨_, Prod.ext hr rfl, Prod.ext hrs hf⟩
  · rintro ⟨mid, ha, he⟩
    unfold Answers at ha
    rw [ha, he]
    exact ⟨⟨rfl, rfl⟩, rfl⟩

theorem explains_append :
    start.Explains (h ++ h') final ↔ ∃ mid, start.Explains h mid ∧ mid.Explains h' final := by
  induction h generalizing start with
  | nil => simp only [List.nil_append, explains_nil, exists_eq_left']
  | cons v h ih =>
      simp only [List.cons_append, explains_cons, ih]
      constructor
      · rintro ⟨p, ha, mid, hh, hh'⟩
        exact ⟨mid, ⟨p, ha, hh⟩, hh'⟩
      · rintro ⟨mid, ⟨p, ha, hh⟩, hh'⟩
        exact ⟨p, ha, mid, hh, hh'⟩

/-- One more finished call. -/
theorem Explains.concat (he : start.Explains h p) (ha : p.Answers v q) :
    start.Explains (h ++ [v]) q :=
  explains_append.mpr ⟨p, he, explains_cons.mpr ⟨q, ha, explains_nil.mpr rfl⟩⟩

/-- The pipe just before a finished call, and just after it. -/
theorem Explains.at_place (he : start.Explains h final) {j : Nat} (hj : h[j]? = some v) :
    ∃ p q, start.Explains (h.take j) p ∧ p.Answers v q ∧ start.Explains (h.take (j + 1)) q := by
  obtain ⟨hlt, rfl⟩ := List.getElem?_eq_some_iff.mp hj
  have hsplit : h = h.take j ++ h[j] :: h.drop (j + 1) := by simp
  rw [hsplit] at he
  obtain ⟨p, hp, hrest⟩ := explains_append.mp he
  obtain ⟨q, ha, -⟩ := explains_cons.mp hrest
  refine ⟨p, q, hp, ha, ?_⟩
  rw [List.take_succ_eq_append_getElem hlt]
  exact hp.concat ha

/-! ## One call -/

/-- All that a finished call can be on a plain pipe. -/
inductive Outcome (p : PlainPipe) : Visit → PlainPipe → Prop
  | tooLarge {party sender data wait now} (hd : p.queue.geometry.dataSize < data.length) :
      Outcome p ⟨party, .send sender data wait, now,
        .sent (.error (.ring (.messageTooLarge data.length p.queue.geometry.dataSize)))⟩ p
  | sendClosed {party sender data wait now} (hd : data.length ≤ p.queue.geometry.dataSize)
      (hc : p.closed = true) :
      Outcome p ⟨party, .send sender data wait, now, .sent (.error .closed)⟩ p
  | sendRefused {party sender data wait now e} (hd : data.length ≤ p.queue.geometry.dataSize)
      (hc : p.closed = false) (hf : p.queue.geometry.capacity ≤ p.queue.messages.length)
      (he : refusal wait = some e) :
      Outcome p ⟨party, .send sender data wait, now, .sent (.error e)⟩ p
  | sent {party sender data wait now} (hd : data.length ≤ p.queue.geometry.dataSize)
      (hc : p.closed = false) (hf : p.queue.messages.length < p.queue.geometry.capacity) :
      Outcome p ⟨party, .send sender data wait, now, .sent (.ok data.length)⟩
        { p with queue.messages := p.queue.messages ++ [⟨data, sender, now⟩] }
  | recvClosed {party reader out wait now} (hc : p.closed = true) (hn : p.queue.messages = []) :
      Outcome p ⟨party, .recv reader out wait, now, .received (.error .closed) out⟩ p
  | recvRefused {party reader out wait now e} (hc : p.closed = false)
      (hn : p.queue.messages = []) (he : refusal wait = some e) :
      Outcome p ⟨party, .recv reader out wait, now, .received (.error e) out⟩ p
  | recvDenied {party reader out wait now m rest} (hm : p.queue.messages = m :: rest)
      (hr : reader.mayRead m.owner = false) :
      Outcome p ⟨party, .recv reader out wait, now,
        .received (.error (.ring .accessDenied)) out⟩ p
  | recvShort {party reader out wait now m rest} (hm : p.queue.messages = m :: rest)
      (hl : out.length < m.payload.length) :
      Outcome p ⟨party, .recv reader out wait, now,
        .received (.error (.ring (.invalidArgument .shortBuffer))) out⟩ p
  | received {party reader out wait now m rest} (hm : p.queue.messages = m :: rest)
      (hr : reader.mayRead m.owner = true) (hl : m.payload.length ≤ out.length) :
      Outcome p ⟨party, .recv reader out wait, now,
          .received (.ok m.payload.length) (m.payload ++ out.drop m.payload.length)⟩
        { p with queue.messages := rest }
  | swept {party now cutoff} :
      Outcome p ⟨party, .sweep, now, .swept (p.queue.sweep cutoff).1 cutoff⟩
        { p with queue := (p.queue.sweep cutoff).2 }
  | expirySet {party caller expiry now result} :
      Outcome p ⟨party, .setExpiry caller expiry, now, .expirySet result⟩ p
  | cleared {party caller now} (hc : caller.isPrivileged = true) :
      Outcome p ⟨party, .clear caller, now, .cleared (.ok p.queue.messages.length)⟩
        { p with queue.messages := [] }
  | clearDenied {party caller now} (hc : caller.isPrivileged = false) :
      Outcome p ⟨party, .clear caller, now, .cleared (.error .permissionDenied)⟩ p
  | closed {party now} : Outcome p ⟨party, .close, now, .closed⟩ { p with closed := true }

theorem Answers.outcome (ha : p.Answers v q) : p.Outcome v q := by
  obtain ⟨party, call, now, reply⟩ := v
  cases call with
  | send sender data wait =>
      simp only [Answers, PlainPipe.reply] at ha
      split at ha
      · next hd =>
          simp only [Prod.mk.injEq, Option.some.injEq] at ha
          obtain ⟨rfl, rfl⟩ := ha
          exact .tooLarge hd
      next hd =>
      have hd := Nat.not_lt.mp hd
      split at ha
      · next hc =>
          simp only [Prod.mk.injEq, Option.some.injEq] at ha
          obtain ⟨rfl, rfl⟩ := ha
          exact .sendClosed hd hc
      next hc =>
      have hc : p.closed = false := by simpa using hc
      split at ha
      · next hf =>
          simp only [Prod.mk.injEq, Option.map_eq_some_iff] at ha
          obtain ⟨⟨e, he, rfl⟩, rfl⟩ := ha
          exact .sendRefused hd hc hf he
      · next hf =>
          simp only [Prod.mk.injEq, Option.some.injEq] at ha
          obtain ⟨rfl, rfl⟩ := ha
          exact .sent hd hc (Nat.not_le.mp hf)
  | recv reader out wait =>
      simp only [Answers, PlainPipe.reply] at ha
      split at ha
      · next hn =>
          have hn := List.isEmpty_iff.mp hn
          split at ha
          · next hc =>
              simp only [Prod.mk.injEq, Option.some.injEq] at ha
              obtain ⟨rfl, rfl⟩ := ha
              exact .recvClosed hc hn
          · next hc =>
              simp only [Prod.mk.injEq, Option.map_eq_some_iff] at ha
              obtain ⟨⟨e, he, rfl⟩, rfl⟩ := ha
              exact .recvRefused (by simpa using hc) hn he
      · next hn =>
          have hn : p.queue.messages ≠ [] := by simpa using hn
          obtain ⟨m, rest, hm⟩ := List.exists_cons_of_ne_nil hn
          simp only [Queue.pop, hm] at ha
          split at ha
          · next hr =>
              simp only [Prod.mk.injEq, Option.some.injEq] at ha
              obtain ⟨rfl, rfl⟩ := ha
              exact .recvDenied hm (by simpa using hr)
          next hr =>
          split at ha
          · next hl =>
              simp only [Prod.mk.injEq, Option.some.injEq] at ha
              obtain ⟨rfl, rfl⟩ := ha
              exact .recvShort hm hl
          · next hl =>
              simp only [Prod.mk.injEq, Option.some.injEq] at ha
              obtain ⟨rfl, rfl⟩ := ha
              exact .received hm (by simpa using hr) (Nat.not_lt.mp hl)
  | sweep =>
      simp only [Answers, PlainPipe.reply, Prod.mk.injEq, Option.some.injEq] at ha
      obtain ⟨hr, rfl⟩ := ha
      -- the cutoff is read off the reply, which is only now seen to be that of a sweep
      obtain ⟨removed, cutoff, rfl⟩ : ∃ removed cutoff, reply = .swept removed cutoff :=
        ⟨_, _, hr.symm⟩
      rw [← hr]
      exact .swept
  | setExpiry caller expiry =>
      simp only [Answers, PlainPipe.reply] at ha
      split at ha <;> simp only [Prod.mk.injEq, Option.some.injEq] at ha
      all_goals
        obtain ⟨rfl, rfl⟩ := ha
        exact .expirySet
  | clear caller =>
      simp only [Answers, PlainPipe.reply] at ha
      split at ha <;> simp only [Prod.mk.injEq, Option.some.injEq] at ha
      · next hc =>
          obtain ⟨rfl, rfl⟩ := ha
          exact .cleared hc
      · next hc =>
          obtain ⟨rfl, rfl⟩ := ha
          exact .clearDenied (by simpa using hc)
  | close =>
      simp only [Answers, PlainPipe.reply, Prod.mk.injEq, Option.some.injEq] at ha
      obtain ⟨rfl, rfl⟩ := ha
      exact .closed

/-- What a call leaves: some messages are gone from the front, and what was sent is at the
end. -/
theorem Answers.messages (ha : p.Answers v q) :
    q.queue.geometry = p.queue.geometry ∧ v.taken ≤ p.queue.messages.length ∧
      q.queue.messages = p.queue.messages.drop v.taken ++ v.sent?.toList := by
  have same : p.queue.messages = p.queue.messages.drop 0 ++ [] := by simp
  cases ha.outcome with
  | sent hd hc hf => exact ⟨rfl, Nat.zero_le _, rfl⟩
  | received hm hr hl =>
      rw [hm]
      exact ⟨rfl, Nat.le_add_left _ _, (List.append_nil _).symm⟩
  | swept =>
      refine ⟨rfl, (List.takeWhile_sublist _).length_le, ?_⟩
      exact (Queue.messages_sweep _ _).trans (List.append_nil _).symm
  | cleared hc =>
      refine ⟨rfl, Nat.le_refl _, ?_⟩
      simp only [Visit.taken, Visit.sent?, List.drop_length, Option.toList_none, List.append_nil]
  | _ => exact ⟨rfl, Nat.zero_le _, same⟩

/-- A send that succeeds finds room. -/
theorem Answers.length_lt (ha : p.Answers v q) {m : Message} (hm : v.sent? = some m) :
    p.queue.messages.length < p.queue.geometry.capacity := by
  cases ha.outcome with
  | sent hd hc hf => exact hf
  | _ => contradiction

/-- A queue never holds more messages than it has room for. -/
theorem Answers.length_le (ha : p.Answers v q)
    (hp : p.queue.messages.length ≤ p.queue.geometry.capacity) :
    q.queue.messages.length ≤ q.queue.geometry.capacity := by
  obtain ⟨hg, -, hm⟩ := ha.messages
  rw [hg, hm, List.length_append, List.length_drop]
  cases hs : v.sent? with
  | none =>
      simp only [Option.toList_none, List.length_nil]; omega
  | some m =>
      have hlt := ha.length_lt hs
      simp only [Option.toList_some, List.length_singleton]; omega

theorem Explains.geometry (he : start.Explains h final) :
    final.queue.geometry = start.queue.geometry := by
  induction h generalizing start with
  | nil =>
      obtain rfl := explains_nil.mp he
      rfl
  | cons v h ih =>
      obtain ⟨mid, ha, he⟩ := explains_cons.mp he
      exact (ih he).trans ha.messages.1

theorem Explains.length_le (he : start.Explains h final)
    (hs : start.queue.messages.length ≤ start.queue.geometry.capacity) :
    final.queue.messages.length ≤ final.queue.geometry.capacity := by
  induction h generalizing start with
  | nil =>
      obtain rfl := explains_nil.mp he
      exact hs
  | cons v h ih =>
      obtain ⟨mid, ha, he⟩ := explains_cons.mp he
      exact ih he (ha.length_le hs)

/-- A receive that succeeds may read the front message and returns its payload. -/
theorem Answers.received (ha : p.Answers v q) {reader : Credentials} {out out' : Bytes}
    {wait : Wait} {n : Nat} (hc : v.call = .recv reader out wait)
    (hr : v.reply = .received (.ok n) out') :
    ∃ m, p.queue.messages.head? = some m ∧ reader.mayRead m.owner = true ∧
      n = m.payload.length ∧ out' = m.payload ++ out.drop n := by
  cases ha.outcome with
  | @received _ _ _ _ _ m rest hm hread hl =>
      cases hc
      cases hr
      exact ⟨m, by rw [hm]; rfl, hread, rfl, rfl⟩
  | _ => first | contradiction | cases hr

/-- A sender gives up only while the queue is full and the pipe open. -/
theorem Answers.refused_send (ha : p.Answers v q) {e : PipeError}
    (hr : v.reply = .sent (.error e)) (he : e = .wouldBlock ∨ e = .timeout) :
    p.queue.geometry.capacity ≤ p.queue.messages.length ∧ p.closed = false := by
  cases ha.outcome with
  | sendRefused hd hc hf hw => exact ⟨hf, hc⟩
  | tooLarge hd | sendClosed hd hc =>
      cases hr
      rcases he with he | he <;> contradiction
  | _ => cases hr

/-- A receiver gives up only while the queue is empty and the pipe open. -/
theorem Answers.refused_recv (ha : p.Answers v q) {e : PipeError} {out : Bytes}
    (hr : v.reply = .received (.error e) out) (he : e = .wouldBlock ∨ e = .timeout) :
    p.queue.messages = [] ∧ p.closed = false := by
  cases ha.outcome with
  | recvRefused hc hn hw => exact ⟨hn, hc⟩
  | recvClosed hc hn | recvDenied hm hr | recvShort hm hl =>
      cases hr
      rcases he with he | he <;> contradiction
  | _ => cases hr

/-! ## Sends that fit no slot -/

/-- The send of a message that fits no slot leaves no trace, and is answered alike by every pipe
of the same geometry. -/
theorem Answers.oversized {g : Geometry} (ha : p.Answers v q) (hp : p.queue.geometry = g)
    (hv : v.oversized g = true) :
    q = p ∧ ∀ r : PlainPipe, r.queue.geometry = g → r.Answers v r := by
  subst hp
  cases ha.outcome with
  | tooLarge hd =>
      refine ⟨rfl, fun r hr => ?_⟩
      simp only [Answers, PlainPipe.reply, hr, if_pos hd]
  | sendClosed hd | sendRefused hd | sent hd =>
      exact absurd (of_decide_eq_true hv) (Nat.not_lt.mpr hd)
  | _ => contradiction

/-- Without the sends that fit no slot a history is explained just as well. -/
theorem explains_filter {g : Geometry} (hg : start.queue.geometry = g) :
    start.Explains h final ↔
      start.Explains (h.filter fun v => !v.oversized g) final ∧
        ∀ v ∈ h, v.oversized g = true → ∀ r : PlainPipe, r.queue.geometry = g → r.Answers v r := by
  induction h generalizing start with
  | nil => simp
  | cons v h ih =>
      rw [explains_cons, List.forall_mem_cons]
      cases hv : v.oversized g
      · rw [List.filter_cons_of_pos (by rw [hv]; rfl), explains_cons]
        constructor
        · rintro ⟨mid, ha, he⟩
          obtain ⟨he, hall⟩ := (ih (ha.messages.1.trans hg)).mp he
          exact ⟨⟨mid, ha, he⟩, fun hv => by contradiction, hall⟩
        · rintro ⟨⟨mid, ha, he⟩, -, hall⟩
          exact ⟨mid, ha, (ih (ha.messages.1.trans hg)).mpr ⟨he, hall⟩⟩
      · rw [List.filter_cons_of_neg (by rw [hv]; exact Bool.false_ne_true)]
        constructor
        · rintro ⟨mid, ha, he⟩
          obtain ⟨rfl, htrace⟩ := ha.oversized hg hv
          obtain ⟨he, hall⟩ := (ih hg).mp he
          exact ⟨he, fun _ => htrace, hall⟩
        · rintro ⟨he, htrace, hall⟩
          exact ⟨start, htrace rfl start hg, (ih hg).mpr ⟨he, hall⟩⟩

/-- Sends that fit no slot may stand anywhere in a history. -/
theorem explains_rearranged (he : start.Explains h final) (hp : h'.Perm h)
    (hf : (h'.filter fun v => !v.oversized start.queue.geometry) =
      h.filter fun v => !v.oversized start.queue.geometry) : start.Explains h' final := by
  rw [explains_filter rfl] at he ⊢
  rw [hf]
  exact ⟨he.1, fun v hv => he.2 v (hp.mem_iff.mp hv)⟩

end PlainPipe

end MessagePipe
