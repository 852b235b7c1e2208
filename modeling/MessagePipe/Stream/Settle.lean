import MessagePipe.Ring.Count
import MessagePipe.Stream.Scheduler
import MessagePipe.Total

/-!
# MessagePipe.Stream.Settle

Running tasks until every one has finished or waits (`Scheduler.settle`), and
letting time go on (`Scheduler.advance`).

* A turn (`Scheduler.turn`) wakes the tasks that gave way and runs tasks until
  none is ready.  It ends because a task can set others going, or go on itself,
  only by moving a message: a message that is sent costs a sending task, and a
  message that is taken is gone; or else after the one error that a sequence of
  messages yields.  So with each run of a task `load` falls (messages in the
  ring, twice the sending tasks, and the sequences without an error), or it
  stays and one task fewer is ready.
* Turns go on as long as there is less left to do after them: they end by
  `work`.
-/

namespace MessagePipe

/-! ## What calls do to the number of messages -/

namespace Pipe

variable {p : Pipe}

theorem count_trySend_of_ok {sender : Credentials} {data : Bytes} {now : UInt64} {n : Nat}
    (h : (p.trySend sender data now).1 = .ok n) :
    (p.trySend sender data now).2.ring.count ≤ p.ring.count + 1 := by
  simp only [trySend, offer] at h ⊢
  cases ho : p.oversize data with
  | some e => simp [ho] at h
  | none =>
    by_cases hc : p.closed = true
    · simp [ho, hc] at h
    · by_cases hf : p.ring.isFull = true
      · simp [ho, hc, hf] at h
      · simp [hc, hf]; exact Ring.count_push_le data sender now

theorem trySend_pipe_of_error {sender : Credentials} {data : Bytes} {now : UInt64} {e : PipeError}
    (h : (p.trySend sender data now).1 = .error e) : (p.trySend sender data now).2 = p := by
  simp only [trySend, offer] at h ⊢
  cases ho : p.oversize data with
  | some e => rfl
  | none =>
    by_cases hc : p.closed = true
    · simp [hc]
    · by_cases hf : p.ring.isFull = true
      · simp [hc, hf]
      · rw [ho] at h
        simp only [if_neg hc, if_neg hf] at h ⊢
        cases hp : (p.ring.push data sender now).1 with
        | error e => rw [Ring.push_ring_of_error hp]
        | ok n => rw [hp] at h; contradiction

theorem count_tryRecv_of_ok {reader : Credentials} {out : Bytes} {n : Nat}
    (h : (p.tryRecv reader out).1 = .ok n) :
    (p.tryRecv reader out).2.2.ring.count + 1 = p.ring.count := by
  simp only [tryRecv, accept] at h ⊢
  by_cases he : p.ring.isEmpty = true
  · by_cases hc : p.closed = true <;> simp [he, hc] at h
  · simp only [he] at h ⊢
    cases hp : (p.ring.pop reader out).1 with
    | error e =>
        simp only [Bool.false_eq_true, if_false, hp] at h
        contradiction
    | ok n => exact Ring.count_pop_of_ok hp

theorem tryRecv_pipe_of_error {reader : Credentials} {out : Bytes} {e : PipeError}
    (h : (p.tryRecv reader out).1 = .error e) : (p.tryRecv reader out).2.2 = p := by
  simp only [tryRecv, accept] at h ⊢
  by_cases he : p.ring.isEmpty = true
  · by_cases hc : p.closed = true <;> simp [he, hc]
  · simp only [he] at h ⊢
    cases hp : (p.ring.pop reader out).1 with
    | error e => simp [Ring.pop_ring_of_error hp]
    | ok n =>
        simp only [Bool.false_eq_true, if_false, hp] at h
        contradiction

theorem count_sweep (now : UInt64) : (p.sweep now).2.ring.count + (p.sweep now).1 = p.ring.count :=
  Ring.count_sweep p.ring _

end Pipe

/-! ## Who is there -/

namespace Scheduler

/-- Every task that has not finished. -/
def tasks (s : Scheduler) : List Task := s.ready ++ s.waiting.map (·.task) ++ s.yielded

/-- A signal moves tasks and adds none. -/
theorem tasks_signal (s : Scheduler) (side : Side) : (s.signal side).tasks.Perm s.tasks := by
  simp only [tasks, signal, List.append_assoc]
  refine .append_left _ ?_
  rw [← List.append_assoc, ← List.map_append]
  exact ((List.filter_append_perm _ s.waiting).map _).append_right _

theorem tasks_wait (s : Scheduler) (t : Task) (deadline : Nat) :
    (s.wait t deadline).tasks.Perm (t :: s.tasks) := by
  simp only [tasks, wait, List.map_append, List.map_singleton, List.append_assoc,
    List.singleton_append]
  rw [← List.append_assoc, ← List.append_assoc]
  exact List.perm_middle

theorem tasks_giveWay (s : Scheduler) (t : Task) : (s.giveWay t).tasks.Perm (t :: s.tasks) :=
  List.perm_middle

theorem tasks_waitPoll (s : Scheduler) (t : Task) : (s.waitPoll t).tasks.Perm (t :: s.tasks) := by
  unfold waitPoll
  split
  · exact s.tasks_giveWay t
  · exact s.tasks_wait t _

theorem tasks_goOn (s : Scheduler) (t : Task) : (s.goOn t).tasks = t :: s.tasks := rfl

/-! ## Why settling ends -/

variable {s : Scheduler}

/-- What can still be done: messages in the ring, and what the tasks may do. -/
def load (s : Scheduler) : Nat := s.pipe.ring.count + total Task.weight s.tasks

@[simp] theorem load_record (e : Entry) : (s.record e).load = s.load := rfl

@[simp] theorem ready_record (e : Entry) : (s.record e).ready = s.ready := rfl

@[simp] theorem load_signal (side : Side) : (s.signal side).load = s.load := by
  simp only [load, total_perm _ (s.tasks_signal side)]
  rfl

/-- After a call the load hangs on what the call left of the pipe. -/
theorem load_visited (agent : Agent) (call : Call) (reply : Reply) (p : Pipe) :
    (s.visited agent call reply p).load = p.ring.count + total Task.weight s.tasks := rfl

/-- A task that comes back counts as before. -/
theorem load_of_perm {s' : Scheduler} {t : Task} (h : s'.tasks.Perm (t :: s.tasks))
    (hpipe : s'.pipe = s.pipe) : s'.load = s.load + t.weight := by
  simp only [load, hpipe, total_perm _ h, total]
  omega

theorem load_goOn (t : Task) : (s.goOn t).load = s.load + t.weight :=
  load_of_perm (.of_eq (s.tasks_goOn t)) rfl

theorem load_waitPoll (t : Task) : (s.waitPoll t).load = s.load + t.weight := by
  refine load_of_perm (s.tasks_waitPoll t) ?_
  unfold waitPoll
  split <;> rfl

@[simp] theorem ready_waitPoll (t : Task) : (s.waitPoll t).ready = s.ready := by
  simp only [waitPoll]; split <;> rfl

/-- The scheduler `s'` is no further from rest than `s`. -/
def NoFurther (s' s : Scheduler) : Prop :=
  s'.load < s.load ∨ s'.load = s.load ∧ s'.ready = s.ready

theorem load_trySend_of_ok {agent : Agent} {sender : Credentials} {data : Bytes} {n : Nat}
    (h : (s.trySend agent sender data).1 = .ok n) :
    (s.trySend agent sender data).2.load ≤ s.load + 1 := by
  simp only [trySend] at h ⊢
  cases hp : (s.pipe.trySend sender data s.clock).1 with
  | error e => simp [hp] at h
  | ok m =>
    have := Pipe.count_trySend_of_ok hp
    rw [load_signal, load_visited, load]
    omega

theorem load_trySend_of_error {agent : Agent} {sender : Credentials} {data : Bytes}
    {e : StreamError} (h : (s.trySend agent sender data).1 = .error e) :
    (s.trySend agent sender data).2.load = s.load ∧
      (s.trySend agent sender data).2.ready = s.ready := by
  simp only [trySend] at h ⊢
  cases hp : (s.pipe.trySend sender data s.clock).1 with
  | ok m => simp [hp] at h
  | error e =>
    rw [Pipe.trySend_pipe_of_error hp]
    exact ⟨rfl, rfl⟩

theorem load_tryRecv_of_ok {agent : Agent} {reader : Credentials} {message : Bytes}
    (h : (s.tryRecv agent reader).1 = .ok message) :
    (s.tryRecv agent reader).2.load < s.load := by
  simp only [tryRecv] at h ⊢
  cases hp : (s.pipe.tryRecv reader s.pipe.freshBuffer).1 with
  | error e => cases e <;> simp [hp] at h
  | ok n =>
    have := Pipe.count_tryRecv_of_ok hp
    rw [load_signal, load_visited, load]
    change (s.pipe.tryRecv reader s.pipe.freshBuffer).2.2.ring.count + _ < _
    omega

theorem load_tryRecv_of_error {agent : Agent} {reader : Credentials} {e : StreamError}
    (h : (s.tryRecv agent reader).1 = .error e) :
    (s.tryRecv agent reader).2.load = s.load ∧ (s.tryRecv agent reader).2.ready = s.ready := by
  simp only [tryRecv] at h ⊢
  cases hp : (s.pipe.tryRecv reader s.pipe.freshBuffer).1 with
  | ok n => simp [hp] at h
  | error e =>
    rw [Pipe.tryRecv_pipe_of_error hp]
    cases e <;> exact ⟨rfl, rfl⟩

theorem noFurther_sweep (agent : Agent) : (s.sweep agent).2.NoFurther s := by
  have hc := Pipe.count_sweep (p := s.pipe) s.clock
  simp only [sweep]
  split
  · right; exact ⟨by rw [load_visited, load]; omega, rfl⟩
  · left; rw [load_signal, load_visited, load]; omega

theorem NoFurther.trans {a b c : Scheduler} (h : a.NoFurther b) (h' : b.NoFurther c) :
    a.NoFurther c := by
  rcases h with h | ⟨h, hr⟩ <;> rcases h' with h' | ⟨h', hr'⟩
  · left; omega
  · left; omega
  · left; omega
  · right; exact ⟨by omega, hr.trans hr'⟩

theorem noFurther_sweepTicks (id ticks : Nat) (s : Scheduler) : (sweepTicks id ticks s).NoFurther s := by
  induction ticks generalizing s with
  | zero => right; exact ⟨rfl, rfl⟩
  | succ ticks ih => exact (ih _).trans (noFurther_sweep (s := s) (.reaper id))

/-- A reaper that waits again adds nothing. -/
theorem noFurther_waitTick {s' : Scheduler} (h : s'.NoFurther s) (id : Nat) (every : Duration)
    (due : Nat) : (s'.waitTick id every due).NoFurther s := by
  have hl : (s'.waitTick id every due).load = s'.load :=
    load_of_perm (s'.tasks_wait ⟨id, .reap every (some due)⟩ _) rfl
  rcases h with h | ⟨h, hr⟩
  · left; rw [hl]; exact h
  · right; exact ⟨hl.trans h, hr⟩

/-- So does a reaper that gives way. -/
theorem noFurther_giveWay {s' : Scheduler} (h : s'.NoFurther s) (id : Nat) (every : Duration)
    (due : Option Nat) : (s'.giveWay ⟨id, .reap every due⟩).NoFurther s := by
  have hl : (s'.giveWay ⟨id, .reap every due⟩).load = s'.load :=
    load_of_perm (s'.tasks_giveWay ⟨id, .reap every due⟩) rfl
  rcases h with h | ⟨h, hr⟩
  · left; rw [hl]; exact h
  · right; exact ⟨hl.trans h, hr⟩

theorem noFurther_reap (id : Nat) (every : Duration) (due : Option Nat) (s : Scheduler) :
    (s.reap id every due).NoFurther s := by
  cases due with
  | none => exact noFurther_waitTick (.inr ⟨rfl, rfl⟩) id every _
  | some due =>
    simp only [reap]
    generalize min (Task.ticksDue ⟨id, .reap every (some due)⟩ s.nowNanos) ticksPerTurn = ticks
    split
    · exact noFurther_waitTick (.inr ⟨rfl, rfl⟩) id every _
    · split
      · exact .inr ⟨rfl, rfl⟩
      · split
        · exact noFurther_giveWay (noFurther_sweepTicks id ticks s) id every _
        · exact noFurther_waitTick (noFurther_sweepTicks id ticks s) id every _

/-- A sequence of messages goes on only after it took one, or after the one error it yields. -/
theorem load_nextItem (id : Nat) (reader : Credentials) (left : Nat) (s : Scheduler) :
    (s.nextItem id reader left).load < s.load + 1 ∨
      (s.nextItem id reader left).load = s.load + 1 ∧
        (s.nextItem id reader left).ready = s.ready := by
  cases left with
  | zero => exact .inl (Nat.lt_succ_self _)
  | succ left =>
    have hok := @load_tryRecv_of_ok s (.task id) reader
    have herr := @load_tryRecv_of_error s (.task id) reader
    simp only [nextItem]
    split
    · rename_i message s' heq
      rw [heq] at hok
      have := hok rfl
      left
      rw [load_goOn, load_record]
      simp only [Task.weight] at this ⊢
      omega
    · rename_i s' heq
      rw [heq] at herr
      obtain ⟨hl, hr⟩ := herr rfl
      right
      rw [load_waitPoll, ready_waitPoll]
      exact ⟨congrArg (· + 1) hl, hr⟩
    · rename_i s' heq
      rw [heq] at herr
      left
      rw [load_record]
      exact Nat.lt_succ_of_le (Nat.le_of_eq (herr rfl).1)
    · rename_i e s' _ _ heq
      rw [heq] at herr
      left
      rw [load_goOn, load_record]
      exact Nat.lt_succ_of_le (Nat.le_of_eq (herr rfl).1)

/-- Running a task brings the scheduler nearer to rest, the task itself not counted. -/
theorem load_runTask (s : Scheduler) (t : Task) :
    (s.runTask t).load < s.load + t.weight ∨
      (s.runTask t).load = s.load + t.weight ∧ (s.runTask t).ready = s.ready := by
  obtain ⟨id, job⟩ := t
  cases job with
  | send sender data =>
    have hok := @load_trySend_of_ok s (.task id) sender data
    have herr := @load_trySend_of_error s (.task id) sender data
    simp only [runTask, Task.weight]
    split
    · rename_i s' heq
      rw [heq] at herr
      obtain ⟨hl, hr⟩ := herr rfl
      right
      rw [load_waitPoll, ready_waitPoll]
      exact ⟨congrArg (· + 2) hl, hr⟩
    · rename_i result s' _ heq
      cases result with
      | ok n =>
        rw [heq] at hok
        have := hok rfl
        left; simp only [load_record]; simp only at this; omega
      | error e =>
        rw [heq] at herr
        have := (herr rfl).1
        left; simp only [load_record]; simp only at this; omega
  | recv reader =>
    have hok := @load_tryRecv_of_ok s (.task id) reader
    have herr := @load_tryRecv_of_error s (.task id) reader
    simp only [runTask, Task.weight]
    split
    · rename_i s' heq
      rw [heq] at herr
      obtain ⟨hl, hr⟩ := herr rfl
      right
      rw [load_waitPoll, ready_waitPoll]
      exact ⟨hl, hr⟩
    · rename_i result s' _ heq
      cases result with
      | ok n =>
        rw [heq] at hok
        exact .inl (hok rfl)
      | error e =>
        rw [heq] at herr
        exact .inr (herr rfl)
  | messages reader left => exact load_nextItem id reader left s
  | failed left => cases left <;> exact .inr ⟨rfl, rfl⟩
  | reap every due => exact noFurther_reap id every due s

theorem nearer_of_runNext? {s' : Scheduler} (h : s.runNext? = some s') :
    s'.load < s.load ∨ s'.load = s.load ∧ s'.ready.length < s.ready.length := by
  simp only [runNext?] at h
  split at h
  · simp at h
  · rename_i t ready hready
    simp only [Option.some.injEq] at h
    subst h
    have hl : s.load = ({ s with ready := ready } : Scheduler).load + t.weight :=
      load_of_perm (.of_eq (by simp only [tasks, hready, List.cons_append])) rfl
    rw [hl]
    rcases load_runTask { s with ready := ready } t with h | ⟨h, hr⟩
    · exact .inl h
    · right; refine ⟨h, ?_⟩; rw [hr, hready]; simp

/-! ## Coming to rest -/

/-- Runs tasks until none is ready. -/
def runReady (s : Scheduler) : Scheduler :=
  match _next : s.runNext? with
  | none => s
  | some s' => s'.runReady
termination_by (s.load, s.ready.length)
decreasing_by
  rcases nearer_of_runNext? _next with h | ⟨h1, h⟩
  · exact Prod.Lex.left _ _ h
  · rw [h1]; exact Prod.Lex.right _ h

/-- The tasks that gave way run again, before those that became ready since, and then whoever
else is ready. -/
def turn (s : Scheduler) : Scheduler :=
  { s with ready := s.yielded ++ s.ready, yielded := [] }.runReady

/-- What is left to do before time goes on: the load, the tasks, and the ticks that came. -/
def work (s : Scheduler) : Nat :=
  s.load + s.tasks.length + total (·.ticksDue s.nowNanos) s.tasks

/-- Runs tasks until each has finished, waits, or could only look at the pipe in vain once more.
The tasks that gave way run again in the opposite order, so turns come in pairs: a task that
polls and polls keeps its place. -/
def settle (s : Scheduler) : Scheduler :=
  let next := s.turn.turn
  if _less : next.work < s.work then next.settle else next
termination_by s.work

/-! ## Time -/

/-- Lets `ms` milliseconds go by. Time moves from deadline to deadline, and whenever it stops
the tasks come to rest before it goes on. -/
def advance (s : Scheduler) (ms : Nat) : Scheduler :=
  match s.nextDeadline? with
  | none => { s with now := s.now + ms }
  | some deadline =>
    if s.now < deadline ∧ deadline ≤ s.now + ms then
      advance { s with now := deadline }.fire.settle (ms - (deadline - s.now))
    else { s with now := s.now + ms }
termination_by ms
decreasing_by omega

end Scheduler

end MessagePipe
