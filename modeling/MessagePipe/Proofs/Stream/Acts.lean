import Mathlib.Logic.Relation
import MessagePipe.Proofs.Stream.Calls
import MessagePipe.Session.Moves

/-!
# MessagePipe.Proofs.Stream.Acts

What can happen to a scheduler at one instant, piece by piece.  A task that runs looks at the
pipe, reports what came of it, and goes on, waits, gives way or is finished.
While it does so it has the floor: it is neither ready nor waiting.  A `Stage`
is a scheduler with the task that has the floor, if any, and `Act` lists the
pieces with all that is known when they happen:

1. the script acts, or the executor moves tasks about, only while nobody has
   the floor;
2. a task waits only after it found its side not ready (`look`), and a reaper
   only for a tick that is still to come (`sleep`);
3. whatever else a task learns from a look it reports in the same act
   (`attempt`).

A task that runs does so act by act, as long as it has the floor
(`turn_runTask`).
-/

namespace MessagePipe

/-! ## How a task goes on -/

namespace Job

/-- How a look brings a job further: the call, which receives into a given buffer, and its reply,
which does not ask to wait; what is reported, and what is left to do. -/
inductive Progress (buffer : Bytes) : Job → Call → Reply → List Event → Option Job → Prop
  | sent {sender data result} (hw : result ≠ .error .wouldBlock) :
      Progress buffer (.send sender data) (.send sender data .never) (.sent result)
        [.sent (result.mapError .ofPipe)] none
  | received {reader result out'} (hw : result ≠ .error .wouldBlock) :
      Progress buffer (.recv reader) (.recv reader buffer .never) (.received result out')
        [.received (streamResult (Pipe.messageOf result out'))] none
  | item {reader left n out'} :
      Progress buffer (.messages reader (left + 1)) (.recv reader buffer .never)
        (.received (.ok n) out') [.received (.ok (out'.take n))] (some (.messages reader left))
  | closed {reader left out'} :
      Progress buffer (.messages reader (left + 1)) (.recv reader buffer .never)
        (.received (.error .closed) out') [.ended] none
  | failed {reader left e out'} (hw : e ≠ .wouldBlock) (hc : e ≠ .closed) :
      Progress buffer (.messages reader (left + 1)) (.recv reader buffer .never)
        (.received (.error e) out') [.received (.error (.ofPipe e))] (some (.failed left))

/-- What is left to do is no reaper. -/
theorem Progress.ne_reap {buffer : Bytes} {job rest : Job} {call : Call} {reply : Reply}
    {events : List Event} (h : job.Progress buffer call reply events (some rest)) {every : Duration}
    {due : Option Nat} : rest ≠ .reap every due := by
  cases h <;> exact fun h => nomatch h

theorem Progress.isReaper {buffer : Bytes} {job : Job} {call : Call} {reply : Reply}
    {events : List Event} {next : Option Job} (h : job.Progress buffer call reply events next)
    (id : Nat) : Task.isReaper ⟨id, job⟩ = false := by
  cases h <;> rfl

/-- Looks that leave a job nothing to do but wait on a side. -/
inductive Blocked : Job → Call → Reply → Side → Prop
  | send {sender data} :
      Blocked (.send sender data) (.send sender data .never) (.sent (.error .wouldBlock)) .writable
  | recv {reader out} :
      Blocked (.recv reader) (.recv reader out .never)
        (.received (.error .wouldBlock) out) .readable
  | messages {reader left out} :
      Blocked (.messages reader (left + 1)) (.recv reader out .never)
        (.received (.error .wouldBlock) out) .readable

theorem Blocked.isReaper {job : Job} {call : Call} {reply : Reply} {side : Side}
    (h : job.Blocked call reply side) (id : Nat) : Task.isReaper ⟨id, job⟩ = false := by
  cases h <;> rfl

/-- Sequences of messages that are asked for no more items. -/
inductive Sated : Job → Prop
  | messages {reader} : Sated (.messages reader 0)
  | failed : Sated (.failed 0)

theorem Sated.isReaper {job : Job} (h : job.Sated) (id : Nat) :
    Task.isReaper ⟨id, job⟩ = false := by
  cases h <;> rfl

end Job

/-- A reaper waits between its sweeps. -/
def Task.Proper (t : Task) : Prop := ∀ every due, t.job = .reap every due → every.isZero = false

/-! ## The acts -/

/-- A scheduler, the task that has the floor, and the jobs that the script has started. -/
structure Stage where
  scheduler : Scheduler
  running : Option Task
  jobs : List Job

/-- Tasks were cancelled or moved about, and none waits or gave way that did not before. -/
structure Scheduler.Arranged (s s' : Scheduler) : Prop where
  pipe : s'.pipe = s.pipe
  config : s'.config = s.config
  now : s'.now = s.now
  journal : s'.journal = s.journal
  waiting : ∀ w ∈ s'.waiting, w ∈ s.waiting
  yielded : ∀ t ∈ s'.yielded, t ∈ s.yielded
  proper : ∀ t ∈ s'.tasks, t ∈ s.tasks ∨ t.Proper
  those : ∀ id, (s'.those id).Perm (s.those id) ∨ s'.those id = []

namespace Stage

/-- All that can happen at one instant. -/
inductive Act : Stage → Stage → Prop
  /-- The script makes a call through the stream. -/
  | call {s : Scheduler} {jobs call reply p}
      (hv : s.pipe.visit ⟨s.clock, false⟩ call = (some reply, p)) :
      Act ⟨s, none, jobs⟩ ⟨s.answered .direct call reply p, none, jobs⟩
  /-- The script makes a call behind the stream's back. Nobody is told. -/
  | bypass {s : Scheduler} {jobs call reply p}
      (hv : s.pipe.visit ⟨s.clock, false⟩ call = (some reply, p)) :
      Act ⟨s, none, jobs⟩ ⟨s.visited .inner call reply p, none, jobs⟩
  /-- The script starts a task. -/
  | start {s jobs} {job : Job} (hj : job.startable = true) :
      Act ⟨s, none, jobs⟩ ⟨s.spawn ⟨jobs.length, job⟩, none, jobs ++ [job]⟩
  | arrange {s s' jobs} (h : Scheduler.Arranged s s') : Act ⟨s, none, jobs⟩ ⟨s', none, jobs⟩
  /-- A task takes the floor. -/
  | resume {s : Scheduler} {jobs i t} (ht : s.ready[i]? = some t) :
      Act ⟨s, none, jobs⟩ ⟨{ s with ready := s.ready.eraseIdx i }, some t, jobs⟩
  /-- A look brings the task further, or to its end. -/
  | attempt {s : Scheduler} {jobs t call reply p events next}
      (hp : t.job.Progress s.pipe.freshBuffer call reply events next)
      (hv : s.pipe.visit ⟨s.clock, false⟩ call = (some reply, p)) :
      Act ⟨s, some t, jobs⟩ ⟨(s.answered (.task t.id) call reply p).report t.id events,
        next.map (⟨t.id, ·⟩), jobs⟩
  /-- The task finds its side not ready, and waits. -/
  | look {s : Scheduler} {jobs t call reply side} (hb : t.job.Blocked call reply side)
      (hv : s.pipe.visit ⟨s.clock, false⟩ call = (some reply, s.pipe))
      (hr : s.pipe.ready side = false) :
      Act ⟨s, some t, jobs⟩ ⟨(s.answered (.task t.id) call reply s.pipe).waitPoll t, none, jobs⟩
  /-- A sequence of messages that has yielded an item is ready for the next one. -/
  | pause {s jobs t} : Act ⟨s, some t, jobs⟩ ⟨s.goOn t, none, jobs⟩
  /-- The task has received as much as it was asked for. -/
  | enough {s jobs t} (hs : t.job.Sated) :
      Act ⟨s, some t, jobs⟩ ⟨s.record (.stopped t.id), none, jobs⟩
  /-- A sequence of messages that has yielded an error is asked once more, and is over. -/
  | finish {s jobs id left} :
      Act ⟨s, some ⟨id, .failed (left + 1)⟩, jobs⟩ ⟨s.report id [.ended], none, jobs⟩
  /-- A reaper sweeps and says so. -/
  | sweep {s : Scheduler} {jobs id every due reply p} {notice : Notice}
      (hv : s.pipe.visit ⟨s.clock, false⟩ .sweep = (some reply, p)) :
      Act ⟨s, some ⟨id, .reap every due⟩, jobs⟩
        ⟨(s.answered (.reaper id) .sweep reply p).record (.noted notice),
          some ⟨id, .reap every due⟩, jobs⟩
  /-- A reaper is finished, and says so. -/
  | exit {s jobs id every due} {notice : Notice} :
      Act ⟨s, some ⟨id, .reap every due⟩, jobs⟩ ⟨s.record (.noted notice), none, jobs⟩
  /-- A reaper waits for its next tick. -/
  | sleep {s : Scheduler} {jobs id every due} {next : Nat} (hn : s.nowNanos < next) :
      Act ⟨s, some ⟨id, .reap every due⟩, jobs⟩ ⟨s.waitTick id every next, none, jobs⟩
  /-- A reaper has more ticks to answer and lets the others go first. -/
  | giveWay {s jobs id every due next} :
      Act ⟨s, some ⟨id, .reap every due⟩, jobs⟩ ⟨s.giveWay ⟨id, .reap every next⟩, none, jobs⟩

/-- One act after the other. -/
abbrev Acts : Stage → Stage → Prop := Relation.ReflTransGen Act

/-- The task that has the floor acts. -/
def Own (g g' : Stage) : Prop := g.running ≠ none ∧ Act g g'

/-- A task acts as long as it has the floor. -/
abbrev Turn : Stage → Stage → Prop := Relation.ReflTransGen Own

variable {g g' : Stage} {s : Scheduler} {t : Task} {jobs : List Job}

theorem Own.of_act (h : Act ⟨s, some t, jobs⟩ g) : Own ⟨s, some t, jobs⟩ g :=
  ⟨Option.some_ne_none t, h⟩

theorem Turn.acts (h : Turn g g') : Acts g g' :=
  h.lift id fun _ _ hown => hown.2

end Stage

open Stage

/-! ## Runs of tasks -/

namespace Scheduler

variable (s : Scheduler) (jobs : List Job) (id : Nat)

theorem turn_send (sender : Credentials) (data : Bytes) :
    Turn ⟨s, some ⟨id, .send sender data⟩, jobs⟩
      ⟨s.runTask ⟨id, .send sender data⟩, none, jobs⟩ := by
  have hv := s.pipe.visit_send_never ⟨s.clock, false⟩ sender data
  refine .single (.of_act ?_)
  simp only [runTask, trySend_eq]
  cases hres : (s.pipe.trySend sender data s.clock).1 with
  | ok n =>
      rw [hres] at hv
      exact .attempt (t := ⟨id, .send sender data⟩) (.sent (by simp)) hv
  | error e =>
      rw [hres] at hv
      by_cases he : StreamError.ofPipe e = .full
      · obtain ⟨rfl, hp, hr⟩ := Pipe.trySend_full hres he
        rw [hp] at hv
        rw [hp]
        exact .look .send hv hr
      · have hw : e ≠ .wouldBlock := by
          rintro rfl
          contradiction
        have hact : Act ⟨s, some ⟨id, .send sender data⟩, jobs⟩ _ :=
          .attempt (.sent (by simpa using hw)) hv
        simp only [Except.mapError]
        split
        · next h => exact absurd (Except.error.inj (Prod.mk.inj h).1) he
        · next h =>
            obtain ⟨rfl, rfl⟩ := Prod.mk.inj h
            exact hact

theorem turn_recv (reader : Credentials) :
    Turn ⟨s, some ⟨id, .recv reader⟩, jobs⟩ ⟨s.runTask ⟨id, .recv reader⟩, none, jobs⟩ := by
  have hv := s.pipe.visit_recv_never ⟨s.clock, false⟩ reader s.pipe.freshBuffer
  refine .single (.of_act ?_)
  simp only [runTask, tryRecv_eq]
  cases hres : (s.pipe.tryRecv reader s.pipe.freshBuffer).1 with
  | ok n =>
      rw [hres] at hv
      exact .attempt (t := ⟨id, .recv reader⟩) (.received (by simp)) hv
  | error e =>
      rw [hres] at hv
      by_cases he : e = .wouldBlock ∨ StreamError.ofPipe e = .empty
      · obtain ⟨rfl, hp, hr⟩ := Pipe.tryRecv_empty hres he
        rw [hp] at hv
        rw [hp]
        exact .look .recv hv hr
      · rw [not_or] at he
        have hact : Act ⟨s, some ⟨id, .recv reader⟩, jobs⟩ _ :=
          .attempt (.received (by simpa using he.1)) hv
        simp only [Pipe.messageOf, Except.map, streamResult_error he.1] at hact ⊢
        split
        · next h => exact absurd (Except.error.inj (Prod.mk.inj h).1) he.2
        · next h =>
            obtain ⟨rfl, rfl⟩ := Prod.mk.inj h
            exact hact

/-- A sequence of messages yields an item and is ready for the next, or it waits, or is finished. -/
theorem turn_nextItem (reader : Credentials) (left : Nat) :
    Turn ⟨s, some ⟨id, .messages reader left⟩, jobs⟩ ⟨s.nextItem id reader left, none, jobs⟩ := by
  cases left with
  | zero => exact .single (.of_act (.enough .messages))
  | succ left =>
      have hv := s.pipe.visit_recv_never ⟨s.clock, false⟩ reader s.pipe.freshBuffer
      simp only [nextItem, tryRecv_eq]
      cases hres : (s.pipe.tryRecv reader s.pipe.freshBuffer).1 with
      | ok n =>
          rw [hres] at hv
          exact .head (.of_act (.attempt .item hv)) (.single (.of_act .pause))
      | error e =>
          by_cases he : e = .wouldBlock ∨ StreamError.ofPipe e = .empty
          · obtain ⟨rfl, hp, hr⟩ := Pipe.tryRecv_empty hres he
            rw [hres, hp] at hv
            rw [hp]
            exact .single (.of_act (.look .messages hv hr))
          · rw [not_or] at he
            rw [hres] at hv
            simp only [Pipe.messageOf, Except.map, streamResult_error he.1]
            split
            · next h => exact absurd (Prod.mk.inj h).1 (by simp)
            · next h => exact absurd (Except.error.inj (Prod.mk.inj h).1) he.2
            · next h =>
                obtain ⟨hclosed, rfl⟩ := Prod.mk.inj h
                have hclosed : e = .closed := by
                  have := Except.error.inj hclosed
                  cases e with
                  | ring e => cases e <;> contradiction
                  | closed => rfl
                  | _ => contradiction
                subst hclosed
                exact .single (.of_act
                  (.attempt (t := ⟨id, .messages reader (left + 1)⟩) .closed hv))
            · next hclosed h =>
                obtain ⟨herr, rfl⟩ := Prod.mk.inj h
                obtain rfl := Except.error.inj herr
                have hc : e ≠ .closed := by
                  rintro rfl
                  exact hclosed rfl
                exact .head (.of_act
                  (.attempt (t := ⟨id, .messages reader (left + 1)⟩) (.failed he.1 hc) hv))
                  (.single (.of_act .pause))

theorem turn_noItem (left : Nat) :
    Turn ⟨s, some ⟨id, .failed left⟩, jobs⟩ ⟨s.noItem id left, none, jobs⟩ := by
  cases left with
  | zero => exact .single (.of_act (.enough .failed))
  | succ left => exact .single (.of_act .finish)

/-! ### Reapers -/

variable (every : Duration) (due : Option Nat)

theorem turn_sweepTicks (ticks : Nat) :
    Turn ⟨s, some ⟨id, .reap every due⟩, jobs⟩
      ⟨sweepTicks id ticks s, some ⟨id, .reap every due⟩, jobs⟩ := by
  induction ticks generalizing s with
  | zero => exact .refl
  | succ ticks ih =>
      have hv : s.pipe.visit ⟨s.clock, false⟩ .sweep =
          (some (.swept (s.pipe.sweep s.clock).1 (Pipe.cutoff s.clock s.pipe.expiryMs)),
            (s.pipe.sweep s.clock).2) := rfl
      have hact : Act ⟨s, some ⟨id, .reap every due⟩, jobs⟩
          ⟨(s.sweep (.reaper id)).2.record (.noted (.taskReaperSwept (s.sweep (.reaper id)).1)),
            some ⟨id, .reap every due⟩, jobs⟩ := by
        rw [sweep_eq]
        exact .sweep hv
      exact .head (.of_act hact) (ih _)

@[simp] theorem now_sweepTicks (ticks : Nat) : (sweepTicks id ticks s).now = s.now := by
  induction ticks generalizing s with
  | zero => rfl
  | succ ticks ih =>
      have hsweep : (s.sweep (.reaper id)).2.now = s.now := by
        rw [sweep_eq, now_answered]
      exact (ih _).trans hsweep

theorem lt_of_ticksDue_eq_zero (every : Duration) (due now : Nat)
    (h : Task.ticksDue ⟨id, .reap every (some due)⟩ now = 0) : now < due := by
  simp only [Task.ticksDue] at h
  split at h
  · assumption
  split at h
  · contradiction
  · exact absurd h (Nat.succ_ne_zero _)

/-- A reaper that has answered all ticks that have come waits for one that is to come. -/
theorem lt_nextTick {every : Duration} (hpos : 0 < every.onTimer.nanos) (due now : Nat)
    (h : Task.ticksDue ⟨id, .reap every (some due)⟩ now ≠ 0) :
    now < Task.nextTick every due now (Task.ticksDue ⟨id, .reap every (some due)⟩ now) := by
  simp only [Task.ticksDue, Task.nextTick] at h ⊢
  split at h
  · contradiction
  next hdue =>
  rw [if_neg hdue]
  cases Task.missed due now with
  | true => exact Nat.lt_add_of_pos_right hpos
  | false =>
      have hlt := Nat.lt_div_mul_add hpos (a := now - due)
      simp only [Bool.false_eq_true, if_false, Nat.add_mul]
      omega

theorem turn_reap (he : every.isZero = false) :
    Turn ⟨s, some ⟨id, .reap every due⟩, jobs⟩ ⟨s.reap id every due, none, jobs⟩ := by
  have hpos : 0 < every.onTimer.nanos := by
    have h : every.nanos ≠ 0 := by simpa [Duration.isZero] using he
    have hl : 0 < Duration.longestTimer.nanos := by decide
    exact Nat.lt_min.mpr ⟨Nat.pos_of_ne_zero h, hl⟩
  cases due with
  | none => exact .single (.of_act (.sleep (Nat.lt_add_of_pos_right hpos)))
  | some due =>
      have hnext := lt_nextTick id hpos due s.nowNanos
      have hzero := lt_of_ticksDue_eq_zero id every due s.nowNanos
      simp only [reap]
      generalize Task.ticksDue ⟨id, .reap every (some due)⟩ s.nowNanos = ticks at hnext hzero
      split
      · next h0 =>
          have hnone : ticks = 0 := by
            unfold ticksPerTurn at h0
            omega
          exact .single (.of_act (.sleep (hzero hnone)))
      next hsome =>
      split
      · exact .single (.of_act .exit)
      split
      · exact (s.turn_sweepTicks jobs id every _ _).tail (.of_act .giveWay)
      · next hlt =>
          refine (s.turn_sweepTicks jobs id every _ _).tail (.of_act (.sleep ?_))
          rw [nowNanos, now_sweepTicks, ← nowNanos]
          have hmin : min ticks ticksPerTurn = ticks := by omega
          rw [hmin] at hsome ⊢
          exact hnext hsome

/-- A task that runs does so act by act, as long as it has the floor. -/
theorem turn_runTask {t : Task} (ht : t.Proper) :
    Turn ⟨s, some t, jobs⟩ ⟨s.runTask t, none, jobs⟩ := by
  obtain ⟨id, job⟩ := t
  cases job with
  | send sender data => exact s.turn_send jobs id sender data
  | recv reader => exact s.turn_recv jobs id reader
  | messages reader left => exact s.turn_nextItem jobs id reader left
  | failed left => exact s.turn_noItem jobs id left
  | reap every due => exact s.turn_reap jobs id every due (ht every due rfl)

end Scheduler

end MessagePipe
