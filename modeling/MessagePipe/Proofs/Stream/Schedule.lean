import MessagePipe.Proofs.Pipe.Expiry
import MessagePipe.Proofs.Stream.Delivery
import MessagePipe.Proofs.Stream.Reapers
import MessagePipe.Proofs.Stream.Retries
import MessagePipe.Proofs.Stream.Scripts

/-!
# MessagePipe.Proofs.Stream.Schedule

The schedule of a reaper whose executor is on time.  Between two of its turns a
reaper is at its `Scheduler.Pace`: it waits for the next tick, or the tick has
come and it is ready, or it has finished because the pipe was closed or nobody
kept it.  Whatever the others do leaves it there (`TaskSession.OnPace.other`);
its own turn answers one tick (`Scheduler.Pace.turn`).

* `TaskSession.OnPace.goes` — a reaper keeps its pace as long as the executor
  is on time;
* `TaskSession.OnPace.halted` — it does not sweep once the pipe is closed, or
  nobody keeps it;
* `TaskSession.Reachable.reaper_schedule` — what follows for every session and
  everything that can happen after the reaper was started;
* `TaskSession.scheduled_run` — the same for the reapers of scripts.
-/

namespace MessagePipe

open Stage TaskSession

namespace Scheduler

/-! ## Ticks -/

variable {id every start k : Nat} {s s' : Scheduler} {t : Task}

/-- Up to thirty years ticks are as far apart as they should be. -/
theorem tick_eq (h : every ≤ 30 * 365 * 86400 * 1000) (start i : Nat) :
    tick start every i = start + i * every := by
  rw [tick, interval, Nat.min_eq_left h]

theorem tick_zero (start every : Nat) : tick start every 0 = start := by
  rw [tick, Nat.zero_mul, Nat.add_zero]

theorem tick_succ (start every i : Nat) :
    tick start every (i + 1) = tick start every i + interval every := by
  rw [tick, tick, Nat.add_mul, Nat.one_mul, Nat.add_assoc]

theorem nanos_onTimer (every : Nat) :
    (Duration.ofMillis every).onTimer.nanos = interval every * 1000000 := by
  simp only [Duration.onTimer, Duration.ofMillis, Duration.longestTimer, Duration.ofParts, interval]
  omega

theorem ceilMillis_nanos (ms : Nat) : (Duration.mk (ms * 1000000)).ceilMillis = ms := by
  simp only [Duration.ceilMillis]
  omega

/-- A reaper, and the instant of its next tick if it had one. -/
def reaper (id every : Nat) (next : Option Nat) : Task :=
  ⟨id, .reap (.ofMillis every) (next.map (· * 1000000))⟩

theorem isReaper_reaper (id every : Nat) (next : Option Nat) :
    isReaper id (reaper id every next) = true := by
  simp [isReaper, reaper, Task.isReaper]

/-! ## The pace of a reaper -/

/-- Where a reaper that was started at the instant `start` and has swept `k` times is between two of
its turns. -/
inductive Pace (id every start : Nat) (s : Scheduler) : Nat → Prop
  /-- It has not had its first turn. -/
  | fresh (hp : s.places id = ⟨[reaper id every none], [], []⟩) (hnow : s.now = start) :
      Pace id every start s 0
  /-- It waits for its next tick. -/
  | waits {k : Nat}
      (hp : s.places id = ⟨[], [⟨reaper id every (some (tick start every (k + 1))),
        tick start every (k + 1)⟩], []⟩)
      (hpast : tick start every k ≤ s.now) (hnext : s.now ≤ tick start every (k + 1)) :
      Pace id every start s k
  /-- The tick has come. -/
  | due {k : Nat}
      (hp : s.places id = ⟨[reaper id every (some (tick start every (k + 1)))], [], []⟩)
      (hnow : s.now = tick start every (k + 1)) : Pace id every start s k
  /-- It has finished, at a tick at which the pipe was closed or kept by nobody. -/
  | gone {k : Nat} (hp : s.places id = nowhere) (hpast : tick start every (k + 1) ≤ s.now)
      (hover : s.Over) : Pace id every start s k

namespace Pace

/-- What does not concern the reaper leaves it at its pace. -/
theorem spared (h : Pace id every start s k) (hs : Spares id s s') (hover : s.Over → s'.Over) :
    Pace id every start s' k := by
  obtain ⟨hplaces, -, hnow⟩ := hs
  cases h with
  | fresh hp hstart => exact .fresh (hplaces.trans hp) (hnow.trans hstart)
  | waits hp hpast hnext => exact .waits (hplaces.trans hp) (hnow ▸ hpast) (hnow ▸ hnext)
  | due hp htick => exact .due (hplaces.trans hp) (hnow.trans htick)
  | gone hp hpast hover' => exact .gone (hplaces.trans hp) (hnow ▸ hpast) (hover hover')

/-- A reaper that is on time never gives way. -/
theorem yielded (h : Pace id every start s k) : s.yielded.filter (isReaper id) = [] := by
  cases h <;> exact congrArg Places.yielded ‹_›

theorem spares_rejoin (h : Pace id every start s k) :
    Spares id s { s with ready := s.yielded ++ s.ready, yielded := [] } := by
  refine ⟨?_, rfl, rfl⟩
  simp only [places, List.filter_append, h.yielded, List.nil_append, List.filter_nil]

theorem places_fire (s : Scheduler) (id : Nat) :
    s.fire.places id =
      ⟨(s.places id).ready ++
          ((s.places id).waiting.filter (decide <| ·.deadline ≤ s.now)).map (·.task),
        (s.places id).waiting.filter fun w => !decide (w.deadline ≤ s.now),
        (s.places id).yielded⟩ := by
  have hcomm : ∀ q : Waiter → Bool, (s.waiting.filter q).filter (isReaper id ·.task) =
      (s.waiting.filter (isReaper id ·.task)).filter q := by
    intro q
    simp only [List.filter_filter, Bool.and_comm]
  simp only [places, fire, List.filter_append, List.filter_map, Function.comp_def, hcomm]

/-- When its tick has come the reaper becomes ready. -/
theorem fire (h : Pace id every start s k) (hover : s.Over → s.fire.Over) :
    Pace id every start s.fire k := by
  have hfire := places_fire s id
  cases h with
  | fresh hp hnow => exact .fresh (by rw [hfire, hp]; rfl) hnow
  | waits hp hpast hnext =>
      rw [hp] at hfire
      by_cases htick : tick start every (k + 1) ≤ s.now
      · exact .due (by simpa [htick] using hfire) (Nat.le_antisymm hnext htick)
      · exact .waits (by simpa [htick] using hfire) hpast hnext
  | due hp hnow => exact .due (by rw [hfire, hp]; rfl) hnow
  | gone hp hpast hgone => exact .gone (by rw [hfire, hp]; rfl) hpast (hover hgone)

/-- Time goes by until the next tick, and not while the reaper is due. -/
theorem elapse (h : Pace id every start s k) {ms : Nat}
    (hready : ∀ t ∈ s.ready, isReaper id t = false)
    (hwaiting : ∀ w ∈ s.waiting, isReaper id w.task = true → s.now + ms ≤ w.deadline) :
    Pace id every start { s with now := s.now + ms } k := by
  have hnobody : s.ready.filter (isReaper id) = [] :=
    List.filter_eq_nil_iff.mpr fun t ht => by simp [hready t ht]
  cases h with
  | fresh hp _ | due hp _ =>
      have hsomebody := congrArg Places.ready hp
      rw [show (s.places id).ready = [] from hnobody] at hsomebody
      contradiction
  | waits hp hpast hnext =>
      refine .waits hp (Nat.le_add_right_of_le hpast) ?_
      have hmem : (⟨reaper id every (some (tick start every (k + 1))),
          tick start every (k + 1)⟩ : Waiter) ∈ s.waiting.filter (isReaper id ·.task) := by
        rw [show s.waiting.filter (isReaper id ·.task) = _ from congrArg Places.waiting hp]
        exact List.mem_singleton_self _
      exact hwaiting _ (List.mem_filter.mp hmem).1 (isReaper_reaper _ _ _)
  | gone hp hpast hover => exact .gone hp (Nat.le_add_right_of_le hpast) hover

end Pace

/-! ## Turns of the reaper -/

/-- The only reaper of its number takes the floor. -/
theorem places_eraseIdx {i : Nat} {u : Task} (hi : s.ready[i]? = some t) (ht : isReaper id t = true)
    (hp : s.places id = ⟨[u], [], []⟩) :
    t = u ∧ { s with ready := s.ready.eraseIdx i }.places id = nowhere := by
  simp only [places, Places.mk.injEq] at hp
  obtain ⟨hready, hwaiting, hyielded⟩ := hp
  obtain ⟨hlt, rfl⟩ := List.getElem?_eq_some_iff.mp hi
  have hperm := (List.getElem_cons_eraseIdx_perm hlt).filter (isReaper id)
  rw [hready, List.filter_cons_of_pos ht, List.perm_singleton] at hperm
  obtain ⟨hown, hnobody⟩ := List.cons.inj hperm
  exact ⟨hown, by simp only [places, hnobody, hwaiting, hyielded]; rfl⟩

/-- Reapers do not keep the pipe. -/
theorem alive_eraseIdx {i : Nat} (hi : s.ready[i]? = some t) (ht : t.isReaper = true) :
    { s with ready := s.ready.eraseIdx i }.alive = s.alive := by
  have hall : (∀ u ∈ s.tasks, u.isReaper = true) ↔
      ∀ u ∈ { s with ready := s.ready.eraseIdx i }.tasks, u.isReaper = true := by
    have hmem : ∀ u, u ∈ s.tasks ↔ u ∈ t :: { s with ready := s.ready.eraseIdx i }.tasks :=
      fun u => (tasks_eraseIdx hi).mem_iff.symm
    simp only [hmem, List.forall_mem_cons, ht, true_and]
  rw [Bool.eq_iff_iff, ← not_iff_not, Bool.not_eq_true, Bool.not_eq_true, alive_eq_false_iff,
    alive_eq_false_iff, hall]

/-- What a turn of the reaper that has swept `k` times comes to. -/
inductive Turned (id every start k : Nat) (s s' : Scheduler) : Prop
  /-- The first tick only starts the schedule. -/
  | starts (hk : k = 0) (hnow : s.now = start) (hpipe : s'.pipe = s.pipe)
      (hjournal : s'.journal = s.journal)
  /-- The pipe is open and somebody keeps it: all messages go up to the first that has not outlived
  the expiry. If any go, no sender waits any longer. -/
  | sweeps (removed : Nat) (hnow : s.now = tick start every (k + 1)) (hover : ¬ s.Over)
      (hleft : s'.pipe.ring.toQueue.messages =
        s.pipe.ring.toQueue.messages.dropWhile (Message.outlived s.pipe.expiryMs s.clock))
      (hremoved : removed = (s.pipe.ring.toQueue.messages.takeWhile
        (Message.outlived s.pipe.expiryMs s.clock)).length)
      (hjournal : s'.journal = .noted (.taskReaperSwept removed) ::
        .visited s.now (.reaper id) s.clock .sweep
          (.swept removed (Pipe.cutoff s.clock s.pipe.expiryMs)) :: s.journal)
      (hroused : removed ≠ 0 → ∀ w ∈ s'.waiting, w.task.side ≠ some .writable)
  /-- The pipe is closed, or nobody keeps it: the reaper is finished. -/
  | ends (hnow : s.now = tick start every (k + 1)) (hover : s.Over) (hpipe : s'.pipe = s.pipe)
      (hjournal : s'.journal = .noted .taskReaperExiting :: s.journal)
      (hgone : s'.has (isReaper id) = false)

/-- A reaper that runs as its first tick comes waits for the next one. -/
theorem runTask_first (s : Scheduler) (id every : Nat) :
    s.runTask (reaper id every none) =
      s.wait (reaper id every (some (s.now + interval every))) (s.now + interval every) := by
  have hdue : s.nowNanos + (Duration.ofMillis every).onTimer.nanos =
      (s.now + interval every) * 1000000 := by
    rw [nanos_onTimer, nowNanos, Nat.add_mul]
  simp only [runTask, reaper, Option.map_none, reap, waitTick, hdue, ceilMillis_nanos]
  rfl

/-- A reaper that runs as a later tick comes answers that tick, and waits for the next one. -/
theorem runTask_tick (s : Scheduler) (id every : Nat) :
    s.runTask (reaper id every (some s.now)) =
      if s.pipe.closed || !s.alive then s.record (.noted .taskReaperExiting)
      else (sweepTicks id 1 s).wait (reaper id every (some (s.now + interval every)))
        (s.now + interval every) := by
  have hticks : Task.ticksDue ⟨id, .reap (.ofMillis every) (some (s.now * 1000000))⟩
      s.nowNanos = 1 := by
    simp [Task.ticksDue, Task.missed, nowNanos]
  have hnext : Task.nextTick (.ofMillis every) (s.now * 1000000) s.nowNanos 1 =
      (s.now + interval every) * 1000000 := by
    simp [Task.nextTick, Task.missed, nowNanos, nanos_onTimer, Nat.add_mul]
  simp only [runTask, reaper, Option.map_some, reap, hticks]
  rw [show min 1 ticksPerTurn = 1 from rfl, hnext]
  simp only [waitTick, ceilMillis_nanos]
  rfl

theorem sweepTicks_one (s : Scheduler) (id : Nat) :
    sweepTicks id 1 s = (s.answered (.reaper id) .sweep
      (.swept (s.pipe.sweep s.clock).1 (Pipe.cutoff s.clock s.pipe.expiryMs))
      (s.pipe.sweep s.clock).2).record (.noted (.taskReaperSwept (s.pipe.sweep s.clock).1)) := by
  rw [← sweep_eq]
  rfl

theorem places_sweepTicks_one (s : Scheduler) (id n : Nat) :
    (sweepTicks n 1 s).places id = s.places id := by
  rw [sweepTicks_one]
  exact places_signalAll _ _

theorem pipe_sweepTicks_one (s : Scheduler) (id : Nat) :
    (sweepTicks id 1 s).pipe = (s.pipe.sweep s.clock).2 := by
  rw [sweepTicks_one, record, pipe_answered]

theorem journal_sweepTicks_one (s : Scheduler) (id : Nat) :
    (sweepTicks id 1 s).journal = .noted (.taskReaperSwept (s.pipe.sweep s.clock).1) ::
      .visited s.now (.reaper id) s.clock .sweep
        (.swept (s.pipe.sweep s.clock).1 (Pipe.cutoff s.clock s.pipe.expiryMs)) :: s.journal := by
  rw [sweepTicks_one, record, journal_answered]

/-- Senders do not wait on after a sweep that made room for them. -/
theorem waiting_sweepTicks_one (s : Scheduler) (id : Nat) (h : (s.pipe.sweep s.clock).1 ≠ 0) :
    ∀ w ∈ (sweepTicks id 1 s).waiting, w.task.side ≠ some .writable := by
  intro w hw
  rw [sweepTicks_one] at hw
  refine (waiting_answered _ _ _ _ _ hw).2 .writable ?_
  rw [Reply.signals, if_neg h]
  exact List.mem_singleton_self _

theorem sweepTimes_sweepTicks_one (s : Scheduler) (id : Nat) :
    (sweepTicks id 1 s).sweepTimes id = s.sweepTimes id ++ [s.now] := by
  have hjournal : (sweepTicks id 1 s).journal = [_, _] ++ s.journal := s.journal_sweepTicks_one id
  rw [sweepTimes_of_journal id hjournal]
  simp [Entry.reapedAt?]

/-- A reaper that begins to wait is nowhere else. -/
theorem places_wait (hp : s.places id = nowhere) (ht : isReaper id t = true) (deadline : Nat) :
    (s.wait t deadline).places id = ⟨[], [⟨t, deadline⟩], []⟩ := by
  simp only [places, nowhere, Places.mk.injEq] at hp
  obtain ⟨hready, hwaiting, hyielded⟩ := hp
  simp [places, wait, hready, hwaiting, hyielded, ht]

/-- So is one that was started just now. -/
theorem places_spawn (hp : s.places id = nowhere) (ht : isReaper id t = true) :
    (s.spawn t).places id = ⟨[t], [], []⟩ := by
  simp only [places, nowhere, Places.mk.injEq] at hp
  obtain ⟨hready, hwaiting, hyielded⟩ := hp
  simp [places, spawn, hready, hwaiting, hyielded, ht]

/-- A sweep takes all messages up to the first that has not outlived the expiry. -/
theorem sweep_outlived {p : Pipe} (h : p.ring.WellFormed) (now : UInt64) :
    (p.sweep now).2.ring.toQueue.messages =
        p.ring.toQueue.messages.dropWhile (Message.outlived p.expiryMs now) ∧
      (p.sweep now).1 =
        (p.ring.toQueue.messages.takeWhile (Message.outlived p.expiryMs now)).length := by
  obtain ⟨hleft, hreply⟩ := World.sweepReply_outlived h p.expiryMs now
  exact ⟨hleft, (Reply.swept.inj hreply).1⟩

theorem over_iff (s : Scheduler) : s.Over ↔ (s.pipe.closed || !s.alive) = true := by
  simp [Over]

theorem has_eq_false_iff : s.has (isReaper id) = false ↔ s.places id = nowhere := by
  simp only [has, places, nowhere, Places.mk.injEq, List.filter_eq_nil_iff, Bool.or_eq_false_iff,
    List.any_eq_false, and_assoc]

/-- The first turn starts the schedule. -/
theorem turned_first (hp : s.places id = nowhere) (every : Nat) :
    Turned id every s.now 0 s (s.runTask (reaper id every none)) ∧
      Pace id every s.now (s.runTask (reaper id every none)) 0 ∧
      (s.runTask (reaper id every none)).sweepTimes id = s.sweepTimes id := by
  have htick : s.now + interval every = tick s.now every 1 := by
    rw [tick_succ, tick_zero]
  rw [runTask_first, htick]
  refine ⟨.starts rfl rfl rfl rfl, .waits ?_ ?_ ?_, rfl⟩
  · exact places_wait hp (isReaper_reaper _ _ _) _
  · exact Nat.le_of_eq (tick_zero s.now every)
  · exact htick ▸ Nat.le_add_right _ _

/-- At a tick at which the pipe is closed, or nobody keeps it, the reaper finishes. -/
theorem turned_over (hp : s.places id = nowhere) (hnow : s.now = tick start every (k + 1))
    (hover : s.Over) :
    Turned id every start k s (s.runTask (reaper id every (some s.now))) ∧
      Pace id every start (s.runTask (reaper id every (some s.now))) k ∧
      (s.runTask (reaper id every (some s.now))).sweepTimes id = s.sweepTimes id := by
  rw [runTask_tick, if_pos (s.over_iff.mp hover)]
  exact ⟨.ends hnow hover rfl rfl (has_eq_false_iff.mpr hp),
    .gone hp (Nat.le_of_eq hnow.symm) hover, sweepTimes_record rfl⟩

/-- At any other tick it sweeps. -/
theorem turned_open (hp : s.places id = nowhere) (hnow : s.now = tick start every (k + 1))
    (hover : ¬ s.Over) (hring : s.pipe.ring.WellFormed) :
    Turned id every start k s (s.runTask (reaper id every (some s.now))) ∧
      Pace id every start (s.runTask (reaper id every (some s.now))) (k + 1) ∧
      (s.runTask (reaper id every (some s.now))).sweepTimes id =
        s.sweepTimes id ++ [tick start every (k + 1)] := by
  have hnext : s.now + interval every = tick start every (k + 1 + 1) := by
    rw [tick_succ, hnow]
  have hlater : (sweepTicks id 1 s).now = tick start every (k + 1) :=
    (now_sweepTicks s id 1).trans hnow
  obtain ⟨hleft, hremoved⟩ := sweep_outlived hring s.clock
  rw [← pipe_sweepTicks_one s id] at hleft
  rw [runTask_tick, if_neg fun hif => hover (s.over_iff.mpr hif), hnext]
  refine ⟨.sweeps _ hnow hover hleft hremoved (journal_sweepTicks_one s id) fun hsome w hw => ?_,
    .waits ?_ (Nat.le_of_eq hlater.symm) ?_, ?_⟩
  · cases List.mem_append.mp hw with
    | inl hw => exact s.waiting_sweepTicks_one id hsome w hw
    | inr hw => rw [List.mem_singleton.mp hw]; exact nofun
  · exact places_wait ((places_sweepTicks_one s id id).trans hp) (isReaper_reaper _ _ _) _
  · exact Nat.le_trans (Nat.le_of_eq hlater) (tick_succ start every (k + 1) ▸ Nat.le_add_right _ _)
  · rw [← hnow]
    exact sweepTimes_sweepTicks_one s id

/-- It does not matter who else is ready. -/
theorem Turned.of_ready {ready : List Task}
    (h : Turned id every start k { s with ready := ready } s')
    (hsame : { s with ready := ready }.Over ↔ s.Over) : Turned id every start k s s' := by
  cases h with
  | starts hk hnow hpipe hjournal => exact .starts hk hnow hpipe hjournal
  | sweeps removed hnow hover hleft hremoved hjournal hroused =>
      exact .sweeps removed hnow (mt hsame.mpr hover) hleft hremoved hjournal hroused
  | ends hnow hover hpipe hjournal hgone => exact .ends hnow (hsame.mp hover) hpipe hjournal hgone

/-- A turn in which messages went leaves no sender waiting. -/
theorem Turned.roused (h : Turned id every start k s s')
    (hless : s'.pipe.ring.toQueue.messages.length < s.pipe.ring.toQueue.messages.length) :
    ∀ w ∈ s'.waiting, w.task.side ≠ some .writable := by
  cases h with
  | starts hk hnow hpipe | ends hnow hover hpipe =>
      rw [hpipe] at hless
      exact absurd hless (Nat.lt_irrefl _)
  | sweeps removed hnow hover hleft hremoved hjournal hroused =>
      refine hroused fun hzero => ?_
      have hsplit := congrArg List.length (List.takeWhile_append_dropWhile
        (p := Message.outlived s.pipe.expiryMs s.clock) (l := s.pipe.ring.toQueue.messages))
      rw [List.length_append, ← hremoved, ← hleft] at hsplit
      omega

/-- A turn of the reaper answers one tick. -/
theorem Pace.turn (h : Pace id every start s k) (hring : s.pipe.ring.WellFormed) {i : Nat}
    (hi : s.ready[i]? = some t) (ht : isReaper id t = true)
    (hrun : s' = { s with ready := s.ready.eraseIdx i }.runTask t) :
    Turned id every start k s s' ∧
      (Pace id every start s' k ∧ s'.sweepTimes id = s.sweepTimes id ∨
        ¬ s.Over ∧ Pace id every start s' (k + 1) ∧
          s'.sweepTimes id = s.sweepTimes id ++ [tick start every (k + 1)]) := by
  have hthere : t ∈ s.ready.filter (isReaper id) :=
    List.mem_filter.mpr ⟨List.mem_of_getElem? hi, ht⟩
  have hsame : { s with ready := s.ready.eraseIdx i }.Over ↔ s.Over := by
    have hreaper : t.isReaper = true := (Bool.and_eq_true_iff.mp ht).1
    rw [Over, Over, alive_eraseIdx hi hreaper]
  subst hrun
  cases h with
  | fresh hp hnow =>
      obtain ⟨rfl, hnobody⟩ := places_eraseIdx hi ht hp
      subst hnow
      obtain ⟨hturned, hpace, hsweeps⟩ := turned_first hnobody every
      exact ⟨hturned.of_ready hsame, .inl ⟨hpace, hsweeps⟩⟩
  | waits hp | gone hp =>
      rw [show s.ready.filter (isReaper id) = [] from congrArg Places.ready hp] at hthere
      contradiction
  | due hp hnow =>
      rw [← hnow] at hp
      obtain ⟨rfl, hnobody⟩ := places_eraseIdx hi ht hp
      by_cases hover : s.Over
      · obtain ⟨hturned, hpace, hsweeps⟩ := turned_over hnobody hnow (hsame.mpr hover)
        exact ⟨hturned.of_ready hsame, .inl ⟨hpace, hsweeps⟩⟩
      · obtain ⟨hturned, hpace, hsweeps⟩ :=
          turned_open hnobody hnow (mt hsame.mp hover) hring
        exact ⟨hturned.of_ready hsame, .inr ⟨hover, hpace, hsweeps⟩⟩

end Scheduler

namespace TaskSession

variable {c : PipeConfig} {config : StreamConfig} {id every start k : Nat} {s s' : TaskSession}
  {jobs : List Job}

/-! ## Sessions on time -/

/-- A session in which reaper `id` is at its pace and has swept `k` times, as it should have. -/
structure OnPace (c : PipeConfig) (config : StreamConfig) (id every start : Nat) (s : TaskSession)
    (k : Nat) : Prop where
  reachable : ∃ jobs, s.Reachable c config jobs
  given : id < s.reapers
  pace : Scheduler.Pace id every start s.scheduler k
  sweeps : s.scheduler.sweepTimes id =
    (List.range k).map fun i => Scheduler.tick start every (i + 1)

theorem reapers_move {m : Move} (h : s.move m = some s') : s.reapers ≤ s'.reapers := by
  cases m with
  | act step =>
      obtain ⟨-, rfl⟩ := act_eq_some h
      rcases s.reapers_act step with ⟨hsame, -⟩ | ⟨hnext, -⟩ <;> omega
  | exec m =>
      obtain ⟨scheduler, -, rfl⟩ := exec_eq_some h
      exact Nat.le_refl _

namespace OnPace

/-- Reaper `s.reapers` begins when the script starts it. -/
theorem spawn (h : s.Reachable c config jobs) (he : 0 < every) :
    OnPace c config s.reapers every s.scheduler.now
      (s.act (.spawnReaper (.ofMillis every))).2 0 := by
  have hmove : s.move (.act (.spawnReaper (.ofMillis every))) =
      some (s.act (.spawnReaper (.ofMillis every))).2 := rfl
  have hzero : (Duration.ofMillis every).isZero = false := by
    simp only [Duration.isZero, Duration.ofMillis, beq_eq_false_iff_ne]
    omega
  obtain ⟨hnobody, hnone⟩ := h.numbered.absent s.reapers (Nat.le_refl _)
  refine ⟨⟨_, h.after_move hmove⟩, ?_, ?_, ?_⟩ <;>
    simp only [act, hzero, Bool.false_eq_true, if_false]
  · exact Nat.lt_succ_self _
  · exact .fresh (Scheduler.places_spawn hnobody (Scheduler.isReaper_reaper _ _ none)) rfl
  · exact hnone

/-- Whatever happens that is not its turn, the reaper keeps its pace. -/
theorem other (h : OnPace c config id every start s k) {m : Move} (hm : s.OnTime id m)
    (hmove : s.move m = some s')
    (hother : ∀ i t, m = .exec (.resume i) → s.scheduler.ready[i]? = some t →
      isReaper id t = false) : OnPace c config id every start s' k := by
  obtain ⟨jobs, hs⟩ := h.reachable
  have hover := over_move hs hm hmove
  have kept : ∀ {scheduler}, s'.scheduler = scheduler →
      Scheduler.Pace id every start scheduler k →
      scheduler.sweepTimes id = s.scheduler.sweepTimes id →
      OnPace c config id every start s' k := by
    rintro _ rfl hpace hsweeps
    exact ⟨⟨_, hs.after_move hmove⟩, Nat.lt_of_lt_of_le h.given (reapers_move hmove), hpace,
      hsweeps.trans h.sweeps⟩
  have spared : s.scheduler.Spares id s'.scheduler → OnPace c config id every start s' k :=
    fun hspares => kept rfl (h.pace.spared hspares hover) hspares.sweeps
  cases m with
  | act step =>
      obtain ⟨hmom, rfl⟩ := act_eq_some hmove
      exact spared (spares_act hmom (.inl (Nat.ne_of_gt h.given)) hm.2)
  | exec m =>
      obtain ⟨scheduler, hrun, rfl⟩ := exec_eq_some hmove
      cases m with
      | resume i =>
          obtain ⟨t, ht, rfl⟩ := Scheduler.resume_eq_some hrun
          have hproper : t.Proper := hs.proper t (Scheduler.mem_tasks_of_ready ht)
          exact spared (Scheduler.spares_resume ht hproper (hother i t rfl ht))
      | rejoin =>
          obtain rfl := Option.some.inj hrun
          exact spared h.pace.spares_rejoin
      | fire =>
          obtain rfl := Option.some.inj hrun
          exact kept rfl (h.pace.fire hover) rfl
      | elapse ms =>
          obtain rfl := Option.some.inj hrun
          exact kept rfl (h.pace.elapse hm.1 hm.2) rfl

/-- Its turn answers one tick. -/
theorem turn (h : OnPace c config id every start s k) {i : Nat} {t : Task}
    (hi : s.scheduler.ready[i]? = some t) (ht : isReaper id t = true)
    (hmove : s.move (.exec (.resume i)) = some s') :
    s.scheduler.Turned id every start k s'.scheduler ∧
      (OnPace c config id every start s' k ∨
        ¬ s.scheduler.Over ∧ OnPace c config id every start s' (k + 1)) := by
  obtain ⟨jobs, hs⟩ := h.reachable
  have hreachable := hs.after_move hmove
  have hgiven := Nat.lt_of_lt_of_le h.given (reapers_move hmove)
  obtain ⟨scheduler, hrun, rfl⟩ := exec_eq_some hmove
  obtain ⟨u, hu, hrun⟩ := Scheduler.resume_eq_some hrun
  obtain rfl := Option.some.inj (hi.symm.trans hu)
  obtain ⟨hturned, hstays | ⟨hover, hpace, hsweeps⟩⟩ := h.pace.turn hs.told.ring hi ht hrun
  · exact ⟨hturned, .inl ⟨⟨_, hreachable⟩, hgiven, hstays.1, hstays.2.trans h.sweeps⟩⟩
  · refine ⟨hturned, .inr ⟨hover, ⟨_, hreachable⟩, hgiven, hpace, ?_⟩⟩
    rw [List.range_succ, List.map_append, ← h.sweeps]
    exact hsweeps

theorem move (h : OnPace c config id every start s k) {m : Move} (hm : s.OnTime id m)
    (hmove : s.move m = some s') :
    OnPace c config id every start s' k ∨
      ¬ s.scheduler.Over ∧ OnPace c config id every start s' (k + 1) := by
  by_cases hown : ∃ i t, m = .exec (.resume i) ∧ s.scheduler.ready[i]? = some t ∧
      isReaper id t = true
  · obtain ⟨i, t, rfl, hi, ht⟩ := hown
    exact (h.turn hi ht hmove).2
  · refine .inl (h.other hm hmove fun i t heq hi => ?_)
    rw [Bool.eq_false_iff]
    exact fun ht => hown ⟨i, t, heq, hi, ht⟩

theorem goes (h : OnPace c config id every start s k) (hgo : s.Goes id s') :
    ∃ k', OnPace c config id every start s' k' := by
  induction hgo with
  | refl => exact ⟨k, h⟩
  | tail _ hstep ih =>
      obtain ⟨k', hk'⟩ := ih
      obtain ⟨m, hm, hmove⟩ := hstep
      exact (hk'.move hm hmove).elim (⟨_, ·⟩) fun hnext => ⟨_, hnext.2⟩

/-- Once the pipe is closed, or nobody keeps it, the reaper does not sweep again. -/
theorem halted (h : OnPace c config id every start s k) (hover : s.scheduler.Over)
    (hgo : s.Goes id s') : s'.scheduler.Over ∧ OnPace c config id every start s' k := by
  induction hgo with
  | refl => exact ⟨hover, h⟩
  | tail _ hstep ih =>
      obtain ⟨hover', hk⟩ := ih
      obtain ⟨m, hm, hmove⟩ := hstep
      obtain ⟨jobs, hs⟩ := hk.reachable
      exact ⟨over_move hs hm hmove hover',
        (hk.move hm hmove).resolve_right fun hnext => hnext.1 hover'⟩

end OnPace

/-! ## The schedule -/

/-- What can be said of reaper `id`, which was started at the instant `start` to sweep every `every`
milliseconds, and has swept `k` times. -/
structure Scheduled (id every start k : Nat) (s : TaskSession) : Prop where
  /-- It made a call on the pipe at each of the ticks from 1 to `k`, and none at any other time. -/
  times : s.scheduler.sweepTimes id =
    (List.range k).map fun i => Scheduler.tick start every (i + 1)
  past : Scheduler.tick start every k ≤ s.scheduler.now
  /-- The next tick does not go by as long as it is there. -/
  running : s.scheduler.has (isReaper id) = true →
    s.scheduler.now ≤ Scheduler.tick start every (k + 1)
  /-- It is gone only after the tick has come at which the pipe was closed, or nobody kept it. -/
  finished : s.scheduler.has (isReaper id) = false →
    s.scheduler.Over ∧ Scheduler.tick start every (k + 1) ≤ s.scheduler.now
  /-- It makes no call but in its own turns. -/
  others : ∀ m s', s.OnTime id m → s.move m = some s' →
    (∀ i t, m = .exec (.resume i) → s.scheduler.ready[i]? = some t → isReaper id t = false) →
      s'.scheduler.sweepTimes id = s.scheduler.sweepTimes id
  /-- Its turns come at ticks, and what it does then is known. -/
  turn : ∀ i t s', s.scheduler.ready[i]? = some t → isReaper id t = true →
    s.move (.exec (.resume i)) = some s' → s.scheduler.Turned id every start k s'.scheduler
  /-- If it removed a message, every task that was sending and is not cancelled tries again before
  the session comes to rest. -/
  retried : ∀ i t s', s.scheduler.ready[i]? = some t → isReaper id t = true →
    s.move (.exec (.resume i)) = some s' →
    s'.scheduler.pipe.ring.toQueue.messages.length <
      s.scheduler.pipe.ring.toQueue.messages.length →
    ∀ n sender data, (⟨n, .send sender data⟩ : Task) ∈ s.scheduler.tasks →
    ∀ ms s'', s'.moves ms = some s'' → .act (.cancel n) ∉ ms → s''.scheduler.Quiescent →
      s''.scheduler.CalledSince s'.scheduler.journal n (.send sender data .never)
  /-- Once the pipe is closed, or nobody keeps it, that is so for good; the reaper makes no more
  calls, and is gone after the next tick. -/
  halted : s.scheduler.Over → ∀ s', s.Goes id s' →
    s'.scheduler.Over ∧ s'.scheduler.sweepTimes id = s.scheduler.sweepTimes id ∧
      (Scheduler.tick start every (k + 1) < s'.scheduler.now →
        s'.scheduler.has (isReaper id) = false)

namespace OnPace

theorem running (h : OnPace c config id every start s k)
    (hthere : s.scheduler.has (isReaper id) = true) :
    s.scheduler.now ≤ Scheduler.tick start every (k + 1) := by
  cases h.pace with
  | fresh hp hnow => exact Nat.le_trans (Nat.le_of_eq hnow) (Nat.le_add_right _ _)
  | waits hp hpast hnext => exact hnext
  | due hp hnow => exact Nat.le_of_eq hnow
  | gone hp =>
      rw [Scheduler.has_eq_false_iff.mpr hp] at hthere
      contradiction

theorem finished (h : OnPace c config id every start s k)
    (hgone : s.scheduler.has (isReaper id) = false) :
    s.scheduler.Over ∧ Scheduler.tick start every (k + 1) ≤ s.scheduler.now := by
  have hnowhere := Scheduler.has_eq_false_iff.mp hgone
  cases h.pace with
  | fresh hp | waits hp | due hp =>
      rw [hp] at hnowhere
      simp [Scheduler.nowhere] at hnowhere
  | gone hp hpast hover => exact ⟨hover, hpast⟩

theorem past (h : OnPace c config id every start s k) :
    Scheduler.tick start every k ≤ s.scheduler.now := by
  have hstep := Scheduler.tick_succ start every k
  cases h.pace with
  | fresh hp hnow => exact Nat.le_of_eq ((Scheduler.tick_zero start every).trans hnow.symm)
  | waits hp hpast hnext => exact hpast
  | due hp hnow => omega
  | gone hp hpast hover => omega

theorem scheduled (h : OnPace c config id every start s k) : s.Scheduled id every start k where
  times := h.sweeps
  past := h.past
  running := h.running
  finished := h.finished
  others := fun m s' hm hmove hother => (h.other hm hmove hother).sweeps.trans h.sweeps.symm
  turn := fun i t s' hi ht hmove => (h.turn hi ht hmove).1
  retried := by
    intro i t s' hi ht hmove hless n sender data hthere ms s'' hms hcancel hq
    obtain ⟨jobs, hs⟩ := h.reachable
    have hroused := (h.turn hi ht hmove).1.roused hless
    have hstays : (⟨n, .send sender data⟩ : Task) ∈ s'.scheduler.tasks := by
      rcases mem_tasks_move hmove hthere (fun _ => nofun) (fun hr => by contradiction) with
        hstays | ⟨j, hj, hown⟩
      · exact hstays
      · -- the turn was that of a reaper, which does not send
        cases hj
        rw [hi, Option.some.injEq] at hown
        subst hown
        contradiction
    refine (hs.after_move hmove).called hstays (fun w hw heq => hroused w hw ?_) hms hcancel hq
    rw [heq]
    rfl
  halted := fun hover s' hgo => by
    obtain ⟨hover', hk⟩ := h.halted hover hgo
    refine ⟨hover', hk.sweeps.trans h.sweeps.symm, fun hlate => ?_⟩
    rw [Bool.eq_false_iff]
    exact fun hthere => absurd (hk.running hthere) (Nat.not_le.mpr hlate)

end OnPace

/-- **Schedule of a reaper**: a reaper whose executor is on time sweeps at every tick from the first
to the last before its end, and at no other time. A sweep takes the longest run of messages at the
front that have outlived the expiry, and whoever was sending tries again if there are any. At the
first tick at which the pipe is closed, or kept by nobody, the reaper finishes instead. Intervals of
up to thirty years are kept exactly. -/
theorem Reachable.reaper_schedule (h : s.Reachable c config jobs) (he : 0 < every)
    (hgo : (s.act (.spawnReaper (.ofMillis every))).2.Goes s.reapers s') :
    (every ≤ 30 * 365 * 86400 * 1000 →
      ∀ i, Scheduler.tick s.scheduler.now every i = s.scheduler.now + i * every) ∧
    ∃ k, s'.Scheduled s.reapers every s.scheduler.now k := by
  obtain ⟨k, hk⟩ := (OnPace.spawn h he).goes hgo
  exact ⟨fun hlong => Scheduler.tick_eq hlong _, k, hk.scheduled⟩

/-- Moves that would be on time anywhere. -/
theorem goes_of_moves (id : Nat) {ms : List Move} (h : s.moves ms = some s')
    (hm : ∀ m ∈ ms, ∀ s : TaskSession, s.OnTime id m) : s.Goes id s' := by
  induction ms generalizing s with
  | nil =>
      obtain rfl := Option.some.inj h
      exact .refl
  | cons m ms ih =>
      simp only [moves, Option.bind_eq_bind, Option.bind_eq_some_iff] at h
      obtain ⟨s₁, hmove, h⟩ := h
      exact .head ⟨m, hm m List.mem_cons_self s, hmove⟩
        (ih h fun m hmem => hm m (List.mem_cons_of_mem _ hmem))

/-- A sender waits for the only slot, whose message has outlived the expiry at the first tick. The
reaper removes it then, and the sender has its turn. -/
theorem reaper_schedule_expired :
    ∃ s s' : TaskSession, s.Reachable ⟨⟨1, 4⟩, .ofMillis 5⟩ .default [.send ⟨2, 2⟩ [8]] ∧ 0 < 5 ∧
      (s.act (.spawnReaper (.ofMillis 5))).2.Goes s.reapers s' ∧
      s'.scheduler.sweepTimes s.reapers = [5] ∧
      s'.scheduler.pipe.ring.toQueue.messages = [⟨[8], ⟨2, 2⟩, 20⟩] ∧
      ∃ k, s'.Scheduled s.reapers 5 s.scheduler.now k := by
  have hreach : ∃ s s₁ s₂ : TaskSession,
      s.Reachable ⟨⟨1, 4⟩, .ofMillis 5⟩ .default [.send ⟨2, 2⟩ [8]] ∧ s.reapers = 0 ∧
      (s.act (.spawnReaper (.ofMillis 5))).2.moves
        [.exec (.resume 0), .act (.setClock 20)] = some s₁ ∧
      s₁.scheduler.ready = [] ∧ s₁.scheduler.waiting.map (·.deadline) = [10, 5] ∧
      s₁.scheduler.now = 0 ∧ s₁.move (.exec (.elapse 5)) = some s₂ ∧
      (s₂.moves [.exec .fire, .exec (.resume 0), .exec (.resume 0)]).map
        (fun s' => (s'.scheduler.sweepTimes 0, s'.scheduler.pipe.ring.toQueue.messages)) =
          some ([5], [⟨[8], ⟨2, 2⟩, 20⟩]) :=
    ⟨_, _, _, ⟨7, _, [.act (.trySend ⟨1, 1⟩ [9]), .act (.start (.send ⟨2, 2⟩ [8])),
      .exec (.resume 0)], rfl, rfl, rfl⟩, rfl, rfl, rfl, rfl, rfl, rfl, by decide +kernel⟩
  obtain ⟨s, s₁, s₂, hs, hid, h₁, hready, hdeadlines, hnow, h₂, h'⟩ := hreach
  obtain ⟨s', h', hfinal⟩ := Option.map_eq_some_iff.mp h'
  obtain ⟨hsweeps, hqueued⟩ := Prod.mk.inj hfinal
  have hgo₁ := goes_of_moves s.reapers h₁ (by simp [OnTime, Step.usesPipe])
  have hgo' := goes_of_moves s.reapers h' (by simp [OnTime])
  have htime : s₁.OnTime s.reapers (.exec (.elapse 5)) := by
    refine ⟨fun t ht => ?_, fun w hw _ => ?_⟩
    · rw [hready] at ht
      contradiction
    · have hmem := List.mem_map_of_mem (f := (·.deadline)) hw
      rw [hdeadlines] at hmem
      rw [hnow]
      simp at hmem
      omega
  have hgo := (hgo₁.tail ⟨_, htime, h₂⟩).trans hgo'
  exact ⟨s, s', hs, by decide, hgo, hid ▸ hsweeps, hqueued, (hs.reaper_schedule (by decide) hgo).2⟩

/-- Scripts are on time, so a reaper that a script starts keeps its pace. -/
theorem OnPace.run (h : s.Reachable c config jobs) (ht : s.scheduler.Timely) (he : 0 < every)
    {steps : List Step}
    (hs : (s.perform (.spawnReaper (.ofMillis every))).2.Undisturbed s.reapers steps) :
    ∃ k, OnPace c config s.reapers every s.scheduler.now
      ((s.perform (.spawnReaper (.ofMillis every))).2.run steps) k := by
  have hallowed : (Step.spawnReaper (.ofMillis every)).Allowed := nofun
  obtain ⟨htimely, jobs', hn, hproper⟩ := timely_perform hallowed h.length h.proper ht
  exact (OnPace.spawn h he).goes ((s.goes_settle s.reapers _).trans
    (goes_run hs hn (s.ready_perform _) hproper htimely))

/-- The schedule of a reaper that a script starts after the steps `before`. -/
theorem scheduled_run {first : TaskSession} {clock : UInt64} {before after : List Step}
    (h : TaskSession.start c config clock = .ok first) (hb : ∀ step ∈ before, step.Allowed)
    (he : 0 < every)
    (ha : ((first.run before).perform (.spawnReaper (.ofMillis every))).2.Undisturbed
      (first.run before).reapers after) :
    ∃ k, (((first.run before).perform (.spawnReaper (.ofMillis every))).2.run after).Scheduled
      (first.run before).reapers every (first.run before).scheduler.now k := by
  obtain ⟨hn, -, hproper, htimely⟩ := timely_start h
  obtain ⟨k, hk⟩ := OnPace.run (reachable_run h hb) (timely_run hb hn hproper htimely) he ha
  exact ⟨k, hk.scheduled⟩

end TaskSession

end MessagePipe
