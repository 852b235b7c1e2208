import MessagePipe.Proofs.Pipe.Custody
import MessagePipe.Proofs.Pipe.Places

/-!
# MessagePipe.Proofs.Pipe.Closing

What is left to happen once a pipe is closed.  It is closed by the first call
of `close`, and never opens again.  From then on each call is answered by a
closed plain pipe in which a part of the queue is left
(`Explains.of_closed`): a send is refused, and a receive gets what
`closedRecv` tells, which is the first message as long as there is one.

Nobody parks on a closed pipe, because a look always ends the call
(`Thread.look_of_closed`), and whoever was parked before is woken at some time,
since the call that closed the pipe owes both sides a signal
(`Course.woken_of_parked`).  So every call comes to an end
(`Course.decided`).
-/

namespace MessagePipe

/-- The reply to a send on a closed pipe. -/
def closedSend (dataSize : Nat) (data : Bytes) : Reply :=
  .sent (.error
    (if dataSize < data.length then .ring (.messageTooLarge data.length dataSize) else .closed))

/-- The reply to a receive on a closed pipe in which some messages are left, and what is left
then. -/
def closedRecv (reader : Credentials) (out : Bytes) : List Message → Reply × List Message
  | [] => (.received (.error .closed) out, [])
  | m :: rest =>
    if !reader.mayRead m.owner then (.received (.error (.ring .accessDenied)) out, m :: rest)
    else if out.length < m.payload.length then
      (.received (.error (.ring (.invalidArgument .shortBuffer))) out, m :: rest)
    else (.received (.ok m.payload.length) (m.payload ++ out.drop m.payload.length), rest)

/-! ## The plain pipe, closed -/

namespace PlainPipe

variable {p q start final : PlainPipe} {v : Visit} {h : List Visit}

theorem Answers.closed_iff (ha : p.Answers v q) :
    q.closed = true ↔ p.closed = true ∨ v.call = .close := by
  cases ha.outcome <;> simp

theorem Answers.suffix_of_closed (ha : p.Answers v q) (hc : p.closed = true) :
    q.queue.messages <:+ p.queue.messages := by
  cases ha.outcome with
  | sent hd hopen hf => rw [hc] at hopen; contradiction
  | received hm hr hl => rw [hm]; exact List.suffix_cons _ _
  | swept => exact List.dropWhile_suffix _
  | cleared hp => exact List.nil_suffix
  | _ => exact List.suffix_rfl

theorem Answers.closedSend (ha : p.Answers v q) (hc : p.closed = true) {sender : Credentials}
    {data : Bytes} {wait : Wait} (hcall : v.call = .send sender data wait) :
    v.reply = closedSend p.queue.geometry.dataSize data := by
  unfold MessagePipe.closedSend
  cases ha.outcome with
  | tooLarge hd => cases hcall; rw [if_pos hd]
  | sendClosed hd _ => cases hcall; rw [if_neg (Nat.not_lt.mpr hd)]
  | sendRefused _ hopen | sent _ hopen => rw [hc] at hopen; contradiction
  | _ => cases hcall

theorem Answers.closedRecv (ha : p.Answers v q) (hc : p.closed = true) {reader : Credentials}
    {out : Bytes} {wait : Wait} (hcall : v.call = .recv reader out wait) :
    (v.reply, q.queue.messages) = closedRecv reader out p.queue.messages := by
  unfold Answers at ha
  rw [hcall, PlainPipe.reply] at ha
  cases hm : p.queue.messages with
  | nil =>
      simp only [hm, hc, List.isEmpty_nil, if_true, Prod.mk.injEq, Option.some.injEq] at ha
      obtain ⟨hr, rfl⟩ := ha
      rw [← hr, hm]
      rfl
  | cons m rest =>
      simp only [hm, List.isEmpty_cons, Bool.false_eq_true, if_false, Queue.pop] at ha
      simp only [MessagePipe.closedRecv]
      split at ha
      · next hdenied =>
          simp only [Prod.mk.injEq, Option.some.injEq] at ha
          obtain ⟨hr, rfl⟩ := ha
          rw [if_pos hdenied, ← hr, hm]
          rfl
      next hdenied =>
      rw [if_neg hdenied]
      split at ha
      · next hshort =>
          simp only [Prod.mk.injEq, Option.some.injEq] at ha
          obtain ⟨hr, rfl⟩ := ha
          rw [if_pos hshort, ← hr, hm]
          rfl
      · next hshort =>
          simp only [Prod.mk.injEq, Option.some.injEq] at ha
          obtain ⟨hr, rfl⟩ := ha
          rw [if_neg hshort, ← hr]
          rfl

/-- A pipe is closed by the first call that closes it. -/
theorem Explains.closed_iff (he : start.Explains h final) :
    final.closed = true ↔ start.closed = true ∨ ∃ v ∈ h, v.call = .close := by
  induction h generalizing start with
  | nil =>
      obtain rfl := explains_nil.mp he
      simp
  | cons v h ih =>
      obtain ⟨mid, ha, he⟩ := explains_cons.mp he
      rw [ih he, ha.closed_iff, List.exists_mem_cons_iff, or_assoc]

/-- Each call of a closed pipe is answered by a closed pipe in which a part of the queue is
left. -/
theorem Explains.of_closed (he : start.Explains h final) (hc : start.closed = true) :
    final.queue.messages <:+ start.queue.messages ∧
      ∀ v ∈ h, ∃ p q : PlainPipe, p.Answers v q ∧ p.closed = true ∧
        p.queue.geometry = start.queue.geometry ∧
        p.queue.messages <:+ start.queue.messages := by
  induction h generalizing start with
  | nil =>
      obtain rfl := explains_nil.mp he
      exact ⟨List.suffix_rfl, fun v hv => absurd hv List.not_mem_nil⟩
  | cons v h ih =>
      obtain ⟨mid, ha, he⟩ := explains_cons.mp he
      have hsuffix := ha.suffix_of_closed hc
      obtain ⟨hfinal, hall⟩ := ih he (ha.closed_iff.mpr (.inl hc))
      refine ⟨hfinal.trans hsuffix, fun u hu => ?_⟩
      rcases List.mem_cons.mp hu with rfl | hu
      · exact ⟨start, mid, ha, hc, rfl, List.suffix_rfl⟩
      · obtain ⟨p, q, hanswer, hclosed, hgeometry, hleft⟩ := hall u hu
        exact ⟨p, q, hanswer, hclosed, hgeometry.trans ha.messages.1, hleft.trans hsuffix⟩

/-- A receive finds the pipe closed only when nothing is left. -/
theorem Answers.drained (ha : p.Answers v q) {out : Bytes}
    (hr : v.reply = .received (.error .closed) out) : q.closed = true ∧ q.queue.messages = [] := by
  cases ha.outcome with
  | recvClosed hc hn => exact ⟨hc, hn⟩
  | @recvRefused _ _ _ wait _ e hc hn he =>
      cases hr
      cases wait <;> contradiction
  | recvDenied _ _ | recvShort _ _ => cases hr
  | _ => first | contradiction | cases hr

/-- Once a receive found the pipe closed, all later ones do. -/
theorem Explains.drained (he : start.Explains h final) {j k : Nat} {u : Visit} (hjk : j < k)
    (hj : h[j]? = some u) (hk : h[k]? = some v) {out out' : Bytes} {reader : Credentials}
    {wait : Wait} (hr : u.reply = .received (.error .closed) out)
    (hcall : v.call = .recv reader out' wait) : v.reply = .received (.error .closed) out' := by
  obtain ⟨p, mid, -, ha, hmid⟩ := he.at_place hj
  obtain ⟨hc, hn⟩ := ha.drained hr
  -- the later look is one of those that follow on the closed and empty pipe
  rw [← List.take_append_drop (j + 1) h] at he
  obtain ⟨mid', hmid', hrest⟩ := explains_append.mp he
  obtain rfl : mid = mid' := congrArg Prod.snd (hmid.symm.trans hmid')
  have hv : v ∈ h.drop (j + 1) := by
    refine List.mem_of_getElem? (i := k - (j + 1)) ?_
    rw [List.getElem?_drop, Nat.add_sub_cancel' hjk]
    exact hk
  obtain ⟨p', q', hanswer, hclosed, -, hleft⟩ := (hrest.of_closed hc).2 v hv
  rw [hn, List.suffix_nil] at hleft
  have hreply := hanswer.closedRecv hclosed hcall
  rw [hleft] at hreply
  exact congrArg Prod.fst hreply

end PlainPipe

/-! ## Looks at a closed pipe -/

theorem Pipe.ready_of_closed {p : Pipe} (hc : p.closed = true) (side : Side) :
    p.ready side = true := by
  cases side <;> simp [ready, hc]

/-- Every look at a closed pipe ends the call. -/
theorem Thread.look_of_closed {t : Thread} {p q : Pipe} {m : Moment} (hc : p.closed = true) :
    t.look p m ≠ some (none, q) := by
  intro h
  obtain ⟨-, hready, -⟩ := look_none h
  rw [Pipe.ready_of_closed hc] at hready
  contradiction

/-- The pipe as if nobody had closed it. -/
def Pipe.reopened (p : Pipe) : Pipe := { p with closed := false }

theorem Pipe.reopened_withdraw (p : Pipe) (side : Side) :
    (p.withdraw side).reopened = p.reopened.withdraw side := by
  cases side <;> rfl

/-- As long as a message is left, a receive does not see that the pipe is closed. -/
theorem Pipe.visit_reopened {p : Pipe} (he : p.ring.isEmpty = false) (m : Moment)
    (reader : Credentials) (out : Bytes) (wait : Wait) :
    p.reopened.visit m (.recv reader out wait) =
      ((p.visit m (.recv reader out wait)).1,
        (p.visit m (.recv reader out wait)).2.reopened) := by
  have hring : p.reopened.ring = p.ring := rfl
  rw [visit_recv, visit_recv, hring, he]
  rfl

theorem Thread.look_reopened {t : Thread} {p q : Pipe} {m : Moment} {answer : Option Reply}
    {reader : Credentials} {out : Bytes} {wait : Wait} (ht : t.Consistent)
    (hcall : t.call = .recv reader out wait) (he : p.ring.isEmpty = false)
    (h : t.look p m = some (answer, q)) : t.look p.reopened m = some (answer, q.reopened) := by
  obtain ⟨party, call, phase⟩ := t
  obtain rfl : call = .recv reader out wait := hcall
  cases phase with
  | entering =>
      have hvisit : p.visit m (.recv reader out wait) = (answer, q) := Option.some.inj h
      have hopen := Pipe.visit_reopened he m reader out wait
      rw [hvisit] at hopen
      exact congrArg some hopen
  | primed expiryMs => cases ht
  | woken side =>
      have hvisit : (p.withdraw side).visit m (.recv reader out wait) = (answer, q) :=
        Option.some.inj h
      rw [← Pipe.ring_withdraw p side] at he
      have hopen := Pipe.visit_reopened he m reader out wait
      rw [hvisit, Pipe.reopened_withdraw] at hopen
      exact congrArg some hopen
  | parked side => contradiction
  | leaving owed reply => contradiction

/-! ## Worlds after a closed one -/

namespace World

variable {c : PipeConfig} {w w' : World} {i k : Nat} {t t' : Thread} {moves : List Move}

/-- The calls that ended since an earlier world, told to the plain picture of that world. -/
theorem Reachable.explains_since (h : w.Reachable c) (hrun : w.run moves = some w') :
    w.pipe.plain.Explains (w.since w') w'.pipe.plain ∧
      w.pipe.plain.queue.geometry = c.geometry := by
  have hbefore := h.explained.replies
  have hafter := (h.after hrun).explained.replies
  rw [history_eq hrun] at hafter
  obtain ⟨mid, hmid, hrest⟩ := PlainPipe.explains_append.mp hafter
  obtain rfl : w.pipe.plain = mid := congrArg Prod.snd (hbefore.symm.trans hmid)
  exact ⟨hrest, hbefore.geometry⟩

theorem Reachable.closed_iff (h : w.Reachable c) :
    w.pipe.closed = true ↔ ∃ v ∈ w.history, v.call = .close := by
  have he := h.explained.replies.closed_iff
  rw [show w.pipe.closed = true ↔ _ from he]
  simp

/-- A closed pipe stays closed. -/
theorem Reachable.closed_run (h : w.Reachable c) (hc : w.pipe.closed = true)
    (hrun : w.run moves = some w') : w'.pipe.closed = true :=
  (h.explains_since hrun).1.closed_iff.mpr (.inl hc)

/-- Nobody parks on a closed pipe: whoever is parked after a move was parked before. -/
theorem parked_of_step {move : Move} (hc : w.pipe.closed = true) (hs : w.step move = some w')
    (ht' : w'.threads[i]? = some t') {side : Side} (hp : t'.phase = .parked side) :
    w.threads[i]? = some t' := by
  cases ht : w.threads[i]? with
  | none =>
      rw [entering_of_step hs ht' ht] at hp
      contradiction
  | some t =>
      obtain ⟨t₂, ht₂, hon⟩ := step_at hs ht
      obtain rfl := Option.some.inj (ht'.symm.trans ht₂)
      cases hon with
      | same => rfl
      | roused _ => contradiction
      | goes _ ha =>
          cases ha with
          | park hlook => exact absurd hlook (Thread.look_of_closed hc)
          | _ => contradiction

theorem Reachable.isEmpty_iff (h : w.Reachable c) :
    w.pipe.ring.isEmpty = true ↔ w.queued = [] :=
  h.sound.ring.isEmpty_iff.trans Ring.messages_eq_nil_iff.symm

/-- A receive that takes the lock of a closed pipe. -/
theorem Reachable.recv_of_closed (h : w.Reachable c) (hc : w.pipe.closed = true) {m : Moment}
    (hs : w.step (.lock i m) = some w') (ht : w.threads[i]? = some t) {reader : Credentials}
    {out : Bytes} {wait : Wait} (hcall : t.call = .recv reader out wait) :
    w'.history = w.history ++ [⟨t.party, t.call, m.now, (closedRecv reader out w.queued).1⟩] ∧
      w'.queued = (closedRecv reader out w.queued).2 ∧
      (w.queued ≠ [] → t.look w.pipe.reopened m =
        some (some (closedRecv reader out w.queued).1, w'.pipe.reopened)) := by
  obtain ⟨u, ⟨answer, q⟩, hu, hlook, rfl⟩ := lock_eq_some hs
  obtain rfl := Option.some.inj (hu.symm.trans ht)
  have hconsistent := h.consistent ht
  cases answer with
  | none => exact absurd hlook (Thread.look_of_closed hc)
  | some reply =>
      have ha := (Thread.plain_look h.sound.ring hconsistent hlook).closedRecv hc hcall
      obtain ⟨hreply, hleft⟩ := Prod.mk.inj ha
      obtain rfl : reply = (closedRecv reader out w.queued).1 := hreply
      refine ⟨rfl, hleft, fun hn => ?_⟩
      have he : w.pipe.ring.isEmpty = false := by
        rw [Ne, ← h.isEmpty_iff] at hn
        simpa using hn
      exact Thread.look_reopened hconsistent hcall he hlook

/-! ## Everybody is answered -/

namespace Course

variable {f : Nat → World} {l : Nat} {side : Side}

/-- Whoever is parked stays so until woken. -/
theorem parked_or_woken (hf : Course f) (ht : (f k).threads[i]? = some t)
    (hp : t.phase = .parked side) (hkl : k ≤ l) :
    (f l).threads[i]? = some t ∨
      ∃ l', k ≤ l' ∧ (f l').threads[i]? = some { t with phase := .woken side } := by
  induction l, hkl using Nat.le_induction with
  | base => exact .inl ht
  | succ l hkl ih =>
      rcases ih with hsame | hwoken
      · obtain ⟨t', ht', hon⟩ := hf.next_at hsame
        cases hon with
        | same => exact .inl ht'
        | roused hp' =>
            rw [hp, Phase.parked.injEq] at hp'
            subst hp'
            exact .inr ⟨l + 1, Nat.le_succ_of_le hkl, ht'⟩
        | goes _ ha => exact absurd (.inl ⟨side, hp⟩) ha.not_rests
      · exact .inr hwoken

/-- A signal that some call still owes is given at some time. -/
theorem woken_of_owed (hf : Course f) (hp : t.phase = .parked side) {j : Nat} {owed : List Side}
    {reply : Reply} {u : Thread} (hu : (f k).threads[j]? = some u)
    (hphase : u.phase = .leaving owed reply) (hside : side ∈ owed)
    (ht : (f k).threads[i]? = some t) :
    ∃ l, k ≤ l ∧ (f l).threads[i]? = some { t with phase := .woken side } := by
  induction owed generalizing k u with
  | nil => contradiction
  | cons s owed ih =>
      have hr : ¬ u.Rests := by simp [Thread.Rests, hphase]
      obtain ⟨l, u', hkl, hu', ha, hul⟩ := hf.goes hu hr
      rcases hf.parked_or_woken ht hp hkl with htl | hwoken
      case inr => exact hwoken
      cases ha with
      | load hl => simp [(Thread.loads_phase hl).2] at hphase
      | answer hlook | park hlook => simp [Thread.look, hphase] at hlook
      | signal hphase' heard =>
          rw [hphase, Phase.leaving.injEq, List.cons.injEq] at hphase'
          obtain ⟨⟨rfl, rfl⟩, rfl⟩ := hphase'
          have hne : i ≠ j := by
            rintro rfl
            obtain rfl := Option.some.inj (htl.symm.trans hul)
            rw [hp] at hphase
            contradiction
          have hheard := heard i t hne htl
          by_cases hs : side = s
          · subst hs
            refine ⟨l + 1, Nat.le_succ_of_le hkl, hheard.trans ?_⟩
            simp only [Thread.wake, hp, if_true]
          · have hwake : t.wake s = t := by simp only [Thread.wake, hp, if_neg hs]
            rw [hwake] at hheard
            obtain ⟨l', hl', hwoken⟩ :=
              ih hu' rfl ((List.mem_cons.mp hside).resolve_left hs) hheard
            exact ⟨l', by omega, hwoken⟩

/-- Whoever is parked on a closed pipe is woken at some time. -/
theorem woken_of_parked (hf : Course f) (h : (f k).Reachable c) (hc : (f k).pipe.closed = true)
    (ht : (f k).threads[i]? = some t) (hp : t.phase = .parked side) :
    ∃ l, k ≤ l ∧ (f l).threads[i]? = some { t with phase := .woken side } := by
  have hparked : ∃ x ∈ (f k).pool.crowd, x.phase = .parked side :=
    ⟨t, Multiset.mem_coe.mpr (List.mem_of_getElem? ht), hp⟩
  obtain ⟨u, hu, howes⟩ := h.covered side hparked (Pipe.ready_of_closed hc side)
  obtain ⟨j, hj⟩ := List.getElem?_of_mem (Multiset.mem_coe.mp hu)
  unfold Thread.Owes at howes
  split at howes
  · next owed reply hphase => exact hf.woken_of_owed hp hj hphase howes ht
  · contradiction

/-- Whoever wants the lock of a closed pipe gets it and is answered. -/
theorem decided_of_awake (hf : Course f) (h : (f k).Reachable c)
    (hc : (f k).pipe.closed = true) (ht : (f k).threads[i]? = some t) (hr : ¬ t.Rests)
    (hl : t.loads = false) (hv : t.verdict = none) :
    ∃ l t' reply, k ≤ l ∧ (f l).threads[i]? = some t' ∧
      t'.verdict = some (t.party, t.call, reply) := by
  obtain ⟨l, t', hkl, ht', ha, -⟩ := hf.goes ht hr
  cases ha with
  | load hl' => rw [hl] at hl'; contradiction
  | @answer m reply q hlook htold => exact ⟨l + 1, _, reply, Nat.le_succ_of_le hkl, ht', rfl⟩
  | park hlook =>
      obtain ⟨moves, hrun⟩ := hf.exists_run hkl
      exact absurd hlook (Thread.look_of_closed (h.closed_run hc hrun))
  | signal hphase => simp [Thread.verdict, hphase] at hv

/-- Every call on a closed pipe is answered at some time. -/
theorem decided (hf : Course f) (h : (f k).Reachable c) (hc : (f k).pipe.closed = true)
    (ht : (f k).threads[i]? = some t) (hv : t.verdict = none) :
    ∃ l t' reply, k ≤ l ∧ (f l).threads[i]? = some t' ∧
      t'.verdict = some (t.party, t.call, reply) := by
  -- what is so now is so at any later time
  have later : ∀ l u, k ≤ l → (f l).threads[i]? = some u → ¬ u.Rests → u.loads = false →
      u.verdict = none → u.party = t.party → u.call = t.call →
      ∃ l t' reply, k ≤ l ∧ (f l).threads[i]? = some t' ∧
        t'.verdict = some (t.party, t.call, reply) := by
    intro l u hkl hu hr hl hv hparty hcall
    obtain ⟨moves, hrun⟩ := hf.exists_run hkl
    obtain ⟨l', t', reply, hll, ht', hverdict⟩ :=
      hf.decided_of_awake (h.after hrun) (h.closed_run hc hrun) hu hr hl hv
    rw [hparty, hcall] at hverdict
    exact ⟨l', t', reply, hkl.trans hll, ht', hverdict⟩
  by_cases hr : t.Rests
  · rcases hr with ⟨side, hp⟩ | ⟨reply, hp⟩
    · obtain ⟨l, hkl, hwoken⟩ := hf.woken_of_parked h hc ht hp
      refine later l _ hkl hwoken (by simp [Thread.Rests]) ?_ rfl rfl rfl
      cases t.call <;> rfl
    · simp [Thread.verdict, hp] at hv
  · cases hl : t.loads
    · exact later k t (Nat.le_refl k) ht hr hl hv rfl rfl
    · obtain ⟨l, t', hkl, ht', ha, -⟩ := hf.goes ht hr
      obtain ⟨hcall, hphase⟩ := Thread.loads_phase hl
      cases ha with
      | load _ =>
          exact later (l + 1) _ (Nat.le_succ_of_le hkl) ht' (by simp [Thread.Rests])
            (by rw [hcall]; rfl) rfl rfl rfl
      | answer hlook | park hlook => simp [Thread.look, hphase, hl] at hlook
      | signal hp => rw [hphase] at hp; contradiction

end Course

/-! ## The whole -/

/-- What is so of every world that comes after one whose pipe is closed. -/
structure Closing (c : PipeConfig) (w w' : World) : Prop where
  /-- The pipe stays closed. -/
  closed : w'.pipe.closed = true
  /-- Messages are only taken away, oldest first. -/
  queued : w'.queued <:+ w.queued
  /-- Every send that has ended since was refused. -/
  refused : ∀ v ∈ w.since w', ∀ sender data wait, v.call = .send sender data wait →
    v.reply = closedSend c.geometry.dataSize data
  /-- The threads are still at their places, with their calls. -/
  threads : ∀ (i : Nat) (t : Thread), w.threads[i]? = some t →
    ∃ t' : Thread, w'.threads[i]? = some t' ∧ t'.party = t.party ∧ t'.call = t.call
  /-- A send that was undecided when the pipe was closed, or came later, is still undecided or was
  refused. -/
  undecided : ∀ (i : Nat) (t' : Thread), w'.threads[i]? = some t' →
    (∀ t : Thread, w.threads[i]? = some t → t.verdict = none) →
    ∀ sender data wait, t'.call = .send sender data wait → t'.verdict = none ∨
      t'.verdict = some (t'.party, t'.call, closedSend c.geometry.dataSize data)
  /-- Nobody parks any more. -/
  parks : ∀ move w'' (i : Nat) (t : Thread) side, w'.step move = some w'' →
    w''.threads[i]? = some t → t.phase = .parked side → w'.threads[i]? = some t
  /-- At rest nobody is parked. -/
  rest : w'.Quiet → ∀ t ∈ w'.threads, ∃ reply, t.phase = .leaving [] reply
  /-- A receive that takes the lock finds the pipe closed if nothing is left; otherwise it is
  answered, and leaves the pipe, as if the pipe were open. -/
  receives : ∀ (i : Nat) (t : Thread) reader out wait m w'', w'.threads[i]? = some t →
    t.call = .recv reader out wait → w'.step (.lock i m) = some w'' →
    let (reply, left) := closedRecv reader out w'.queued
    w''.history = w'.history ++ [⟨t.party, t.call, m.now, reply⟩] ∧ w''.queued = left ∧
      (reply = .received (.error .closed) out ↔ w'.queued = []) ∧
      (w'.queued ≠ [] →
        t.look w'.pipe.reopened m = some (some reply, w''.pipe.reopened))
  /-- No receive that has ended since gave up waiting. -/
  patient : ∀ v ∈ w.since w', ∀ e out, v.reply = .received (.error e) out →
    e ≠ .wouldBlock ∧ e ≠ .timeout
  /-- Once a receive found the pipe closed, all later ones did. -/
  drained : ∀ (j k : Nat) (u v : Visit) out reader out' wait, j < k → w'.history[j]? = some u →
    w'.history[k]? = some v → u.reply = .received (.error .closed) out →
    v.call = .recv reader out' wait → v.reply = .received (.error .closed) out'

theorem closedRecv_eq_closed_iff (reader : Credentials) (out : Bytes) (queued : List Message) :
    (closedRecv reader out queued).1 = .received (.error .closed) out ↔ queued = [] := by
  cases queued with
  | nil => simp [closedRecv]
  | cons m rest =>
      simp only [closedRecv, reduceCtorEq, iff_false]
      split
      · simp
      · split <;> simp

theorem Reachable.closing (h : w.Reachable c) (hc : w.pipe.closed = true)
    (hrun : w.run moves = some w') : Closing c w w' := by
  have h' := h.after hrun
  have hc' := h.closed_run hc hrun
  obtain ⟨hexplains, hgeometry⟩ := h.explains_since hrun
  obtain ⟨hqueued, hsince⟩ := hexplains.of_closed hc
  have hrefused : ∀ v ∈ w.since w', ∀ sender data wait, v.call = .send sender data wait →
      v.reply = closedSend c.geometry.dataSize data := by
    intro v hv sender data wait hcall
    obtain ⟨p, q, ha, hclosed, hg, -⟩ := hsince v hv
    rw [ha.closedSend hclosed hcall, hg, hgeometry]
  constructor
  · exact hc'
  · exact hqueued
  · exact hrefused
  · intro i t ht
    obtain ⟨t', ht', hparty, hcall, -⟩ := run_at hrun ht
    exact ⟨t', ht', hparty, hcall⟩
  · intro i t' ht' hundecided sender data wait hcall
    rcases told_since hrun ht' hundecided with hnone | ⟨v, hv, htold⟩
    · exact .inl hnone
    · obtain ⟨hparty, hcall'⟩ := Thread.of_verdict htold
      have hreply := hrefused v hv sender data wait (hcall'.symm.trans hcall)
      rw [htold, Visit.verdict, hreply, hparty, hcall']
      exact .inr rfl
  · exact fun move w'' i t side hs ht hp => parked_of_step hc' hs ht hp
  · intro hq t ht
    refine (hq t ht).resolve_left fun ⟨side, hp⟩ => ?_
    exact h'.not_ready hq ht hp (Pipe.ready_of_closed hc' side)
  · intro i t reader out wait m w'' ht hcall hs
    obtain ⟨hhistory, hleft, hreopened⟩ := h'.recv_of_closed hc' hs ht hcall
    exact ⟨hhistory, hleft, closedRecv_eq_closed_iff reader out w'.queued, hreopened⟩
  · intro v hv e out hreply
    obtain ⟨p, q, ha, hclosed, -, -⟩ := hsince v hv
    rw [← not_or]
    intro he
    rw [(ha.refused_recv hreply he).2] at hclosed
    contradiction
  · intro j k u v out reader out' wait hjk hj hk hreply hcall
    exact h'.explained.replies.drained hjk hj hk hreply hcall

/-- **Closing**: a pipe is closed by the first call that closes it, and for good. From then on
nothing is sent any more, what is queued can still be received, and all who wait are woken and
answered. -/
theorem Reachable.closed_for_good (h : w.Reachable c) :
    (w.pipe.closed = true ↔ ∃ v ∈ w.history, v.call = .close) ∧
      (w.pipe.closed = true →
        (∀ moves w', w.run moves = some w' → Closing c w w') ∧
          ∀ f, Course f → f 0 = w →
            ∀ (i : Nat) (t : Thread), w.threads[i]? = some t → t.verdict = none →
            ∃ (k : Nat) (reply : Reply) (t' : Thread), (f k).threads[i]? = some t' ∧
              t'.verdict = some (t.party, t.call, reply) ∧
              ∀ sender data wait, t.call = .send sender data wait →
                reply = closedSend c.geometry.dataSize data) := by
  refine ⟨h.closed_iff, fun hc => ⟨fun moves w' hrun => h.closing hc hrun, ?_⟩⟩
  rintro f hf rfl i t ht hv
  obtain ⟨k, t', reply, hk, ht', hverdict⟩ := hf.decided h hc ht hv
  refine ⟨k, reply, t', ht', hverdict, fun sender data wait hcall => ?_⟩
  obtain ⟨moves, hrun⟩ := hf.exists_run hk
  have hclosing := h.closing hc hrun
  obtain ⟨hparty, hcall'⟩ := Thread.of_verdict hverdict
  have hundecided : ∀ u, (f 0).threads[i]? = some u → u.verdict = none := by
    intro u hu
    obtain rfl := Option.some.inj (hu.symm.trans ht)
    exact hv
  rcases hclosing.undecided i t' ht' hundecided sender data wait (hcall'.trans hcall) with
    hnone | hrefused
  · rw [hnone] at hverdict; contradiction
  · rw [hverdict, Option.some.injEq, Prod.mk.injEq, Prod.mk.injEq] at hrefused
    exact hrefused.2.2

/-- One message fills the pipe and a second sender is parked when it is closed. The sender is woken
and refused; of two receives the first gets the message, and the second finds the pipe closed. -/
theorem closed_for_good_drained :
    ∃ w w' : World, w.Reachable ⟨⟨1, 4⟩, .ofMillis 5⟩ ∧ w.pipe.closed = true ∧
      w.threads[1]? = some ⟨none, .send ⟨1, 1⟩ [8] .forever, .parked .writable⟩ ∧
      (w.since w').map Visit.reply = [.sent (.error .closed), .received (.ok 1) [9, 0],
        .received (.error .closed) [0, 0]] ∧
      Closing ⟨⟨1, 4⟩, .ofMillis 5⟩ w w' ∧
      ∃ f k t', Course f ∧ f 0 = w ∧ (f k).threads[1]? = some t' ∧
        t'.verdict = some (none, .send ⟨1, 1⟩ [8] .forever, .sent (.error .closed)) := by
  let drain : List Move :=
    [.signal 0, .signal 2, .signal 2, .lock 1 ⟨10, false⟩,
      .start none (.recv ⟨1, 1⟩ [0, 0] .never), .lock 3 ⟨11, false⟩, .signal 3,
      .start none (.recv ⟨1, 1⟩ [0, 0] .never), .lock 4 ⟨12, false⟩]
  have hreach : ∃ w w' : World, w.Reachable ⟨⟨1, 4⟩, .ofMillis 5⟩ ∧ w.pipe.closed = true ∧
      w.threads[1]? = some ⟨none, .send ⟨1, 1⟩ [8] .forever, .parked .writable⟩ ∧
      w.run drain = some w' ∧
      (w.since w').map Visit.reply = [.sent (.error .closed), .received (.ok 1) [9, 0],
        .received (.error .closed) [0, 0]] ∧
      w'.threads.map Thread.phase = [.leaving [] (.sent (.ok 1)),
        .leaving [] (.sent (.error .closed)), .leaving [] .closed,
        .leaving [] (.received (.ok 1) [9, 0]),
        .leaving [] (.received (.error .closed) [0, 0])] :=
    ⟨_, _, ⟨_, [.start none (.send ⟨1, 1⟩ [9] .forever), .lock 0 ⟨7, false⟩,
      .start none (.send ⟨1, 1⟩ [8] .forever), .lock 1 ⟨8, false⟩,
      .start none .close, .lock 2 ⟨9, false⟩], rfl, rfl⟩, rfl, rfl, rfl, rfl, rfl⟩
  obtain ⟨w, w', hw, hc, ht, hrun, hreplies, hphases⟩ := hreach
  have hquiet : w'.Quiet := by
    intro t ht
    have hmem := List.mem_map_of_mem (f := Thread.phase) ht
    rw [hphases] at hmem
    simp only [List.mem_cons, List.not_mem_nil, or_false] at hmem
    rcases hmem with hp | hp | hp | hp | hp <;> exact .inr ⟨_, hp⟩
  obtain ⟨f, hf, hstart, -⟩ := exists_course hrun hquiet
  obtain ⟨hclosing, hends⟩ := hw.closed_for_good.2 hc
  obtain ⟨k, reply, t', ht', hverdict, hreply⟩ := hends f hf hstart 1 _ ht rfl
  rw [hreply _ _ _ rfl] at hverdict
  exact ⟨w, w', hw, hc, ht, hreplies, hclosing drain w' hrun, f, k, t', hf, hstart, ht', hverdict⟩

end World

end MessagePipe
