import MessagePipe.Proofs.Pipe.Invariant
import MessagePipe.Session.Tasks

/-!
# MessagePipe.Proofs.Stream.Calls

What a scheduler does to its pipe.  Every call through the stream is one look
at the pipe, after which those are signalled whom the reply asks for
(`Scheduler.answered`); a task only ever makes calls that never wait.

* `Pipe.trySend_full` / `tryRecv_empty` — a task is told to wait only while its
  side is not ready;
* `trySend_eq`, `tryRecv_eq`, `sweep_eq`, `clear_eq` — the calls as looks;
* `answered_eq` — a call moves tasks from those that wait to those that are
  ready, and changes nothing else but the pipe and the journal.  The lemmas
  `…_answered` say so field by field.
-/

namespace MessagePipe

/-! ## Calls that never wait -/

namespace Pipe

/-- A sender is told that the pipe is full only if it is, and open. -/
theorem trySend_full {p : Pipe} {sender : Credentials} {data : Bytes} {now : UInt64} {e : PipeError}
    (h : (p.trySend sender data now).1 = .error e) (he : StreamError.ofPipe e = .full) :
    e = .wouldBlock ∧ (p.trySend sender data now).2 = p ∧ p.ready .writable = false := by
  have hv := p.visit_send_never ⟨now, false⟩ sender data
  rw [visit_send] at hv
  split at hv
  · simp only [Prod.mk.injEq, Option.some.injEq, Reply.sent.injEq] at hv
    rw [← hv.1, Except.error.injEq] at h
    subst h
    contradiction
  split at hv
  · simp only [Prod.mk.injEq, Option.some.injEq, Reply.sent.injEq] at hv
    rw [← hv.1, Except.error.injEq] at h
    subst h
    contradiction
  next hc =>
  split at hv
  · next hf =>
      simp only [Wait.refusal, Option.map_some, Prod.mk.injEq, Option.some.injEq,
        Reply.sent.injEq] at hv
      rw [← hv.1, Except.error.injEq] at h
      refine ⟨h.symm, hv.2.symm, ?_⟩
      simp only [ready, hf, hc]
      rfl
  · simp only [Prod.mk.injEq, Option.some.injEq, Reply.sent.injEq] at hv
    rw [← hv.1] at h
    contradiction

/-- A receiver is told that the pipe is empty only if it is, and open. -/
theorem tryRecv_empty {p : Pipe} {reader : Credentials} {out : Bytes} {e : PipeError}
    (h : (p.tryRecv reader out).1 = .error e)
    (he : e = .wouldBlock ∨ StreamError.ofPipe e = .empty) :
    e = .wouldBlock ∧ (p.tryRecv reader out).2 = (out, p) ∧ p.ready .readable = false := by
  unfold tryRecv accept at h ⊢
  cases hempty : p.ring.isEmpty
  · -- a ring that is not empty hands out a message or denies it
    rw [hempty] at h
    have hvalid : (p.ring.recordAt p.ring.tail).valid = true := by
      simpa only [Ring.isEmpty, Bool.not_eq_false'] using hempty
    simp only [Ring.pop, hvalid, Bool.not_true, Bool.false_eq_true, if_false] at h
    split at h
    · obtain rfl := Except.error.inj h
      rcases he with he | he <;> contradiction
    split at h
    · obtain rfl := Except.error.inj h
      rcases he with he | he <;> contradiction
    · contradiction
  · rw [hempty] at h
    cases hclosed : p.closed
    · simp only [hclosed, if_true, Bool.false_eq_true, if_false, Except.error.injEq] at h
      refine ⟨h.symm, rfl, ?_⟩
      simp only [ready, hempty, hclosed]
      rfl
    · simp only [hclosed, if_true, Except.error.injEq] at h
      subst h
      rcases he with he | he <;> contradiction

end Pipe

/-! ## Calls of a scheduler -/

/-- What a reply means to a task that receives. -/
def streamResult (result : Except PipeError Bytes) : Except StreamError Bytes :=
  match result with
  | .ok message => .ok message
  | .error .wouldBlock => .error .empty
  | .error e => .error (.ofPipe e)

theorem streamResult_error {e : PipeError} (h : e ≠ .wouldBlock) :
    streamResult (.error e) = .error (.ofPipe e) := by
  cases e <;> first | rfl | contradiction

namespace Scheduler

/-- Signals for several sides, one after the other. -/
def signalAll (s : Scheduler) (sides : List Side) : Scheduler := sides.foldl signal s

/-- A call was made through the stream: whom its reply asks for is signalled. -/
def answered (s : Scheduler) (agent : Agent) (call : Call) (reply : Reply) (p : Pipe) :
    Scheduler :=
  (s.visited agent call reply p).signalAll reply.signals

/-- A task has something to report. -/
def report (s : Scheduler) (id : Nat) (events : List Event) : Scheduler :=
  events.foldl (fun s e => s.record (.event id e)) s

/-- The tasks of the script that have the number `id`. -/
def those (s : Scheduler) (id : Nat) : List Task := s.tasks.filter (TaskSession.isTask id)

variable {s : Scheduler} {agent : Agent} {call : Call} {reply : Reply} {p : Pipe}

theorem trySend_eq (s : Scheduler) (agent : Agent) (sender : Credentials) (data : Bytes) :
    s.trySend agent sender data =
      ((s.pipe.trySend sender data s.clock).1.mapError .ofPipe,
        s.answered agent (.send sender data .never) (.sent (s.pipe.trySend sender data s.clock).1)
          (s.pipe.trySend sender data s.clock).2) := by
  unfold trySend
  generalize s.pipe.trySend sender data s.clock = found
  obtain ⟨result, p⟩ := found
  cases result <;> rfl

theorem tryRecv_eq (s : Scheduler) (agent : Agent) (reader : Credentials) :
    s.tryRecv agent reader =
      let found := s.pipe.tryRecv reader s.pipe.freshBuffer
      (streamResult (Pipe.messageOf found.1 found.2.1),
        s.answered agent (.recv reader s.pipe.freshBuffer .never) (.received found.1 found.2.1)
          found.2.2) := by
  unfold tryRecv
  dsimp only
  generalize s.pipe.tryRecv reader s.pipe.freshBuffer = found
  obtain ⟨result, out, p⟩ := found
  cases result with
  | ok n => rfl
  | error e => cases e <;> rfl

theorem sweep_eq (s : Scheduler) (agent : Agent) :
    (s.sweep agent).2 = s.answered agent .sweep
      (.swept (s.pipe.sweep s.clock).1 (Pipe.cutoff s.clock s.pipe.expiryMs))
      (s.pipe.sweep s.clock).2 := by
  unfold sweep answered
  dsimp only [Reply.signals]
  split <;> rfl

theorem clear_eq (s : Scheduler) (caller : Credentials) :
    (s.clear caller).2 = s.answered .direct (.clear caller)
      (.cleared (s.pipe.clear caller).1) (s.pipe.clear caller).2 := by
  unfold clear
  generalize s.pipe.clear caller = found
  obtain ⟨result, p⟩ := found
  cases result <;> rfl

/-! ### What a call leaves alone -/

theorem signalAll_cons (side : Side) (sides : List Side) :
    s.signalAll (side :: sides) = (s.signal side).signalAll sides := rfl

/-- Signals only move tasks from those that wait to those that are ready. -/
theorem signalAll_eq (s : Scheduler) (sides : List Side) :
    ∃ ready waiting, s.signalAll sides = { s with ready := ready, waiting := waiting } ∧
      (ready ++ waiting.map (·.task)).Perm (s.ready ++ s.waiting.map (·.task)) ∧
      ∀ w ∈ waiting, w ∈ s.waiting ∧ ∀ side ∈ sides, w.task.side ≠ some side := by
  induction sides generalizing s with
  | nil => exact ⟨s.ready, s.waiting, rfl, .rfl, fun w hw => ⟨hw, fun _ h => nomatch h⟩⟩
  | cons side sides ih =>
      obtain ⟨ready, waiting, heq, hperm, hw⟩ := ih (s.signal side)
      refine ⟨ready, waiting, by rw [signalAll_cons, heq]; rfl, hperm.trans ?_, fun w hmem => ?_⟩
      · simp only [signal, List.append_assoc]
        refine .append_left _ ?_
        rw [← List.map_append]
        exact (List.filter_append_perm _ s.waiting).map _
      · obtain ⟨hold, hsides⟩ := hw w hmem
        simp only [signal, List.mem_filter, Bool.not_eq_true', beq_eq_false_iff_ne] at hold
        refine ⟨hold.1, fun side' hside' => ?_⟩
        rcases List.mem_cons.mp hside' with rfl | hrest
        · exact hold.2
        · exact hsides side' hrest

/-- A call changes the pipe, is noted, and wakes those whom its reply asks for. -/
theorem answered_eq (s : Scheduler) (agent : Agent) (call : Call) (reply : Reply) (p : Pipe) :
    ∃ ready waiting, s.answered agent call reply p =
        { s with
          pipe := p
          journal := .visited s.now agent s.clock call reply :: s.journal
          ready := ready
          waiting := waiting } ∧
      (ready ++ waiting.map (·.task)).Perm (s.ready ++ s.waiting.map (·.task)) ∧
      ∀ w ∈ waiting, w ∈ s.waiting ∧ ∀ side ∈ reply.signals, w.task.side ≠ some side :=
  signalAll_eq (s.visited agent call reply p) reply.signals

section Answered

variable (s : Scheduler) (agent : Agent) (call : Call) (reply : Reply) (p : Pipe)

@[simp] theorem pipe_answered : (s.answered agent call reply p).pipe = p := by
  obtain ⟨_, _, heq, -, -⟩ := s.answered_eq agent call reply p
  rw [heq]

@[simp] theorem config_answered : (s.answered agent call reply p).config = s.config := by
  obtain ⟨_, _, heq, -, -⟩ := s.answered_eq agent call reply p
  rw [heq]

@[simp] theorem now_answered : (s.answered agent call reply p).now = s.now := by
  obtain ⟨_, _, heq, -, -⟩ := s.answered_eq agent call reply p
  rw [heq]

@[simp] theorem yielded_answered : (s.answered agent call reply p).yielded = s.yielded := by
  obtain ⟨_, _, heq, -, -⟩ := s.answered_eq agent call reply p
  rw [heq]

@[simp] theorem journal_answered : (s.answered agent call reply p).journal =
    .visited s.now agent s.clock call reply :: s.journal := by
  obtain ⟨_, _, heq, -, -⟩ := s.answered_eq agent call reply p
  rw [heq]

/-- Who still waits after a call waited before it, for a side that the call does not signal. -/
theorem waiting_answered {w : Waiter} (hw : w ∈ (s.answered agent call reply p).waiting) :
    w ∈ s.waiting ∧ ∀ side ∈ reply.signals, w.task.side ≠ some side := by
  obtain ⟨_, _, heq, -, hold⟩ := s.answered_eq agent call reply p
  rw [heq] at hw
  exact hold w hw

end Answered

@[simp] theorem pipe_waitPoll (s : Scheduler) (t : Task) : (s.waitPoll t).pipe = s.pipe := by
  unfold waitPoll
  split <;> rfl

@[simp] theorem now_waitPoll (s : Scheduler) (t : Task) : (s.waitPoll t).now = s.now := by
  unfold waitPoll
  split <;> rfl

@[simp] theorem journal_waitPoll (s : Scheduler) (t : Task) :
    (s.waitPoll t).journal = s.journal := by
  unfold waitPoll
  split <;> rfl

theorem report_eq (s : Scheduler) (id : Nat) (events : List Event) :
    s.report id events = { s with journal := (events.map (.event id)).reverse ++ s.journal } := by
  induction events generalizing s with
  | nil => rfl
  | cons e events ih =>
      refine (ih (s.record (.event id e))).trans ?_
      simp only [record, List.map_cons, List.reverse_cons, List.append_assoc, List.singleton_append]

end Scheduler

end MessagePipe
