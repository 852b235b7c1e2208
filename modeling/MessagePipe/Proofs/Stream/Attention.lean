import MessagePipe.Proofs.Stream.Moves

/-!
# MessagePipe.Proofs.Stream.Attention

No task waits in vain.  A task begins to wait only when its side is not ready,
and whoever makes a side ready through the stream signals all that wait for it.
A change that is made behind the stream's back signals nobody; but a task that
waited at that time is due to look again one poll interval later at the
latest.  Both are kept by every act (`Attended`):

* no deadline is further away than one poll interval;
* if the side of a waiting task is ready, then this came about behind the
  stream's back, and the task looks again within one interval from then.

So when no task could go on (`Scheduler.Quiescent`), and the last change behind
the stream's back was an interval ago, nobody waits for what is already there
(`TaskSession.Reachable.nobody_in_vain`).
-/

namespace MessagePipe

/-- How long a wait lasts that nobody ends, in milliseconds. -/
def StreamConfig.pollMillis (c : StreamConfig) : Nat := c.pollInterval.onTimer.ceilMillis

theorem StreamConfig.pollMillis_le {c : StreamConfig} {ms : Nat}
    (h : c.pollInterval = .ofMillis ms) : c.pollMillis ≤ ms := by
  have hle : (Duration.ofMillis ms).onTimer.nanos ≤ ms * 1000000 := Nat.min_le_left _ _
  simp only [pollMillis, h, Duration.ceilMillis]
  omega

/-- The instant of a change that was made behind the stream's back: somebody should have been
signalled, and nobody was. -/
def Entry.bypassedAt? : Entry → Option Nat
  | visited time .inner _ _ reply => if reply.signals.isEmpty then none else some time
  | _ => none

namespace Scheduler

variable {config : StreamConfig} {s s' : Scheduler}

/-- What keeps the tasks of a scheduler from waiting in vain. -/
structure Attended (config : StreamConfig) (s : Scheduler) : Prop where
  kept : s.config = config
  ring : s.pipe.ring.WellFormed
  /-- A wait is over after one poll interval. -/
  polled : ∀ w ∈ s.waiting, w.task.side ≠ none → w.deadline ≤ s.now + config.pollMillis
  /-- What a task waits for came about behind the stream's back, if it is there. -/
  noticed : ∀ w ∈ s.waiting, ∀ side, w.task.side = some side → s.pipe.ready side = true →
    ∃ e ∈ s.journal, ∃ time, e.bypassedAt? = some time ∧ w.deadline ≤ time + config.pollMillis

namespace Attended

/-- Fewer tasks wait, and nothing became ready that a task still waits for. -/
theorem less (h : s.Attended config) (hconfig : s'.config = s.config) (hnow : s.now ≤ s'.now)
    (hring : s'.pipe.ring.WellFormed) (hjournal : ∀ e ∈ s.journal, e ∈ s'.journal)
    (hwaiting : ∀ w ∈ s'.waiting, w ∈ s.waiting)
    (hready : ∀ w ∈ s'.waiting, ∀ side, w.task.side = some side →
      s'.pipe.ready side = true → s.pipe.ready side = true) : s'.Attended config where
  kept := hconfig.trans h.kept
  ring := hring
  polled := fun w hw hside => Nat.le_trans (h.polled w (hwaiting w hw) hside) (by omega)
  noticed := fun w hw side hside hr => by
    obtain ⟨e, he, hnoticed⟩ :=
      h.noticed w (hwaiting w hw) side hside (hready w hw side hside hr)
    exact ⟨e, hjournal e he, hnoticed⟩

/-- A call through the stream signals whom it may concern. -/
theorem answered (h : s.Attended config) {m : Moment} {call : Call} {reply : Reply} {p : Pipe}
    (hv : s.pipe.visit m call = (some reply, p)) (agent : Agent) :
    (s.answered agent call reply p).Attended config := by
  obtain rfl : (s.pipe.visit m call).2 = p := congrArg Prod.snd hv
  refine h.less (by simp) (by simp) ?_ (fun e he => ?_)
    (fun w hw => (waiting_answered _ _ _ _ _ hw).1) ?_
  · rw [pipe_answered]
    exact Pipe.wellFormed_visit h.ring m call
  · rw [journal_answered]
    exact List.mem_cons_of_mem _ he
  · intro w hw side hside hr
    rw [pipe_answered] at hr
    have hready := Pipe.ready_visit h.ring (congrArg Prod.fst hv) hr
    have hunsignalled := (waiting_answered _ _ _ _ _ hw).2
    exact hready.resolve_right fun hsignal => hunsignalled side hsignal hside

/-- A call behind the stream's back signals nobody. Who waits now looks again in time. -/
theorem bypassed (h : s.Attended config) {m : Moment} {call : Call} {reply : Reply} {p : Pipe}
    (hv : s.pipe.visit m call = (some reply, p)) :
    (s.visited .inner call reply p).Attended config where
  kept := h.kept
  ring := by
    obtain rfl : (s.pipe.visit m call).2 = p := congrArg Prod.snd hv
    exact Pipe.wellFormed_visit h.ring m call
  polled := h.polled
  noticed := fun w hw side hside hr => by
    obtain rfl : (s.pipe.visit m call).2 = p := congrArg Prod.snd hv
    by_cases hold : s.pipe.ready side = true
    · obtain ⟨e, he, hnoticed⟩ := h.noticed w hw side hside hold
      exact ⟨e, List.mem_cons_of_mem _ he, hnoticed⟩
    · have hsignal : side ∈ reply.signals :=
        (Pipe.ready_visit h.ring (congrArg Prod.fst hv) hr).resolve_left hold
      have hsome : reply.signals.isEmpty = false := by
        cases hnil : reply.signals with
        | nil => rw [hnil] at hsignal; contradiction
        | cons _ _ => rfl
      have hdeadline := h.polled w hw (by rw [hside]; exact Option.some_ne_none side)
      exact ⟨_, List.mem_cons_self, s.now, by simp only [Entry.bypassedAt?, hsome]; rfl, hdeadline⟩

theorem record (h : s.Attended config) (e : Entry) : (s.record e).Attended config :=
  h.less rfl (Nat.le_refl _) h.ring (fun _ he => List.mem_cons_of_mem _ he) (fun _ hw => hw)
    fun _ _ _ _ hr => hr

theorem report (h : s.Attended config) (id : Nat) (events : List Event) :
    (s.report id events).Attended config := by
  rw [report_eq]
  exact h.less rfl (Nat.le_refl _) h.ring (fun _ he => List.mem_append_right _ he)
    (fun _ hw => hw) fun _ _ _ _ hr => hr

/-- A task begins to wait for a side that is not ready. -/
theorem waitPoll (h : s.Attended config) {t : Task} {side : Side} (ht : t.side = some side)
    (hr : s.pipe.ready side = false) : (s.waitPoll t).Attended config := by
  unfold Scheduler.waitPoll
  split
  · exact h.less rfl (Nat.le_refl _) h.ring (fun _ he => he) (fun _ hw => hw) fun _ _ _ _ hr => hr
  · refine ⟨h.kept, h.ring, fun w hw hside => ?_, fun w hw side' hside hready => ?_⟩
    · cases List.mem_append.mp hw with
      | inl hw => exact h.polled w hw hside
      | inr hw =>
          obtain rfl := List.mem_singleton.mp hw
          have hdeadline : s.pollDeadline = s.now + config.pollMillis := by
            rw [pollDeadline, h.kept]
            rfl
          exact Nat.le_of_eq hdeadline
    · cases List.mem_append.mp hw with
      | inl hw => exact h.noticed w hw side' hside hready
      | inr hw =>
          obtain rfl := List.mem_singleton.mp hw
          rw [ht, Option.some.injEq] at hside
          subst hside
          rw [show (s.wait t s.pollDeadline).pipe = s.pipe from rfl, hr] at hready
          contradiction

/-- A reaper waits for no side. -/
theorem waitTick (h : s.Attended config) (id : Nat) (every : Duration) (due : Nat) :
    (s.waitTick id every due).Attended config := by
  have hnew : ∀ w ∈ (s.waitTick id every due).waiting, w ∈ s.waiting ∨ w.task.side = none := by
    intro w hw
    cases List.mem_append.mp hw with
    | inl hw => exact .inl hw
    | inr hw => exact .inr (by rw [List.mem_singleton.mp hw]; rfl)
  refine ⟨h.kept, h.ring, fun w hw hside => ?_, fun w hw side hside hready => ?_⟩
  · exact h.polled w ((hnew w hw).resolve_right hside) hside
  · have hsome : w.task.side ≠ none := by rw [hside]; exact Option.some_ne_none side
    exact h.noticed w ((hnew w hw).resolve_right hsome) side hside hready

theorem arranged (h : s.Attended config) (ha : s.Arranged s') : s'.Attended config := by
  refine h.less ha.config (Nat.le_of_eq ha.now.symm) ?_ ?_ ha.waiting ?_
  · rw [ha.pipe]; exact h.ring
  · rw [ha.journal]; exact fun _ he => he
  · rw [ha.pipe]; exact fun _ _ _ _ hr => hr

end Attended

end Scheduler

/-- Who is blocked waits on the side that the look was about. -/
theorem Job.Blocked.side {t : Task} {call : Call} {reply : Reply} {side : Side}
    (h : t.job.Blocked call reply side) : t.side = some side := by
  obtain ⟨id, job⟩ := t
  cases h <;> rfl

theorem Stage.attended_act {config : StreamConfig} {g g' : Stage}
    (hg : g.scheduler.Attended config) (h : Act g g') : g'.scheduler.Attended config := by
  cases h with
  | call hv => exact hg.answered hv .direct
  | bypass hv => exact hg.bypassed hv
  | start | giveWay | pause | resume =>
      exact hg.less rfl (Nat.le_refl _) hg.ring (fun _ he => he) (fun _ hw => hw)
        fun _ _ _ _ hr => hr
  | arrange h => exact hg.arranged h
  | attempt hp hv => exact (hg.answered hv _).report _ _
  | @look s jobs t call reply side hb hv hr =>
      have hready := hr
      rw [← s.pipe_answered (.task t.id) call reply s.pipe] at hready
      exact (hg.answered hv (.task t.id)).waitPoll hb.side hready
  | finish => exact hg.report _ _
  | sweep hv => exact (hg.answered hv _).record _
  | enough hs | exit => exact hg.record _
  | sleep hn => exact hg.waitTick _ _ _

theorem Stage.kept_attended {config : StreamConfig} :
    Kept fun g => g.scheduler.Attended config where
  act := attended_act
  elapse := fun ms hg =>
    hg.less rfl (Nat.le_add_right _ ms) hg.ring (fun _ he => he) (fun _ hw => hw)
      fun _ _ _ _ hr => hr

/-! ## Nobody waits in vain -/

namespace Scheduler

variable {config : StreamConfig} {s : Scheduler}

/-- Nobody who is not finished waits for what is already there: receivers wait only while the ring
is empty, senders only while it is full, and after the pipe was closed nobody does. -/
structure NoneInVain (s : Scheduler) : Prop where
  receivers : ∀ t ∈ s.tasks, t.side = some .readable →
    s.pipe.ring.count = 0 ∧ s.pipe.closed = false
  senders : ∀ t ∈ s.tasks, t.side = some .writable →
    s.pipe.ring.count = s.pipe.ring.capacity ∧ s.pipe.closed = false
  closed : s.pipe.closed = true → ∀ t ∈ s.tasks, t.side = none

/-- When no task could go on, whoever has a side waits. -/
theorem Quiescent.waits (h : s.Quiescent) {t : Task} (ht : t ∈ s.tasks) (hside : t.side ≠ none) :
    ∃ w ∈ s.waiting, w.task = t := by
  obtain ⟨hready, hyielded, -⟩ := h
  simp only [tasks, hready, List.nil_append, List.mem_append, List.mem_map] at ht
  exact ht.resolve_right fun hy => hside (hyielded t hy)

/-- A single task that waits for an instant to come. -/
theorem quiescent_singleton {w : Waiter} (hready : s.ready = []) (hyielded : s.yielded = [])
    (hwaiting : s.waiting = [w]) (hw : s.now < w.deadline) :
    s.Quiescent ∧ s.tasks = [w.task] := by
  refine ⟨⟨hready, by simp [hyielded], fun u hu => ?_⟩,
    by simp [tasks, hready, hyielded, hwaiting]⟩
  rw [hwaiting, List.mem_singleton] at hu
  rw [hu]
  exact hw

/-- Nobody waits in vain when no task could go on, and every change behind the stream's back was
made at least one poll interval ago. -/
theorem Attended.noneInVain (h : s.Attended config) (hq : s.Quiescent)
    (hlong : ∀ e ∈ s.journal, ∀ time, e.bypassedAt? = some time →
      time + config.pollMillis ≤ s.now) : s.NoneInVain := by
  have hready : ∀ t ∈ s.tasks, ∀ side, t.side = some side → s.pipe.ready side = false := by
    intro t ht side hside
    obtain ⟨w, hw, rfl⟩ := hq.waits ht (by rw [hside]; exact Option.some_ne_none side)
    cases hr : s.pipe.ready side with
    | false => rfl
    | true =>
        obtain ⟨e, he, time, htime, hdeadline⟩ := h.noticed w hw side hside hr
        have hpast := hlong e he time htime
        have hfuture := hq.2.2 w hw
        omega
  refine ⟨fun t ht hside => ?_, fun t ht hside => ?_, fun hclosed t ht => ?_⟩
  · have hr := hready t ht .readable hside
    simp only [Pipe.ready, Bool.or_eq_false_iff, Bool.not_eq_false'] at hr
    exact ⟨h.ring.isEmpty_iff.mp hr.1, hr.2⟩
  · have hr := hready t ht .writable hside
    simp only [Pipe.ready, Bool.or_eq_false_iff, Bool.not_eq_false'] at hr
    exact ⟨h.ring.isFull_iff.mp hr.1, hr.2⟩
  · cases hside : t.side with
    | none => rfl
    | some side =>
        have hr := hready t ht side hside
        cases side <;> simp [Pipe.ready, hclosed] at hr

end Scheduler

namespace TaskSession

variable {c : PipeConfig} {config : StreamConfig} {s : TaskSession} {jobs : List Job}

theorem Reachable.attended (h : s.Reachable c config jobs) : s.scheduler.Attended config := by
  refine h.invariant (fun p clock hp => ?_) Stage.kept_attended
  obtain ⟨storage, hinit, -, -⟩ := Pipe.create_eq_ok hp
  exact ⟨rfl, Ring.wellFormed_init hinit, fun w hw => (List.not_mem_nil hw).elim,
    fun w hw => (List.not_mem_nil hw).elim⟩

/-- **No lost signal**: when no task could go on, nobody waits for what is already there, provided
that nothing was changed behind the stream's back, or not within the last poll interval. -/
theorem Reachable.nobody_in_vain (h : s.Reachable c config jobs) (hq : s.scheduler.Quiescent) :
    ((∀ e ∈ s.scheduler.journal, e.bypassedAt? = none) → s.scheduler.NoneInVain) ∧
    ∀ ms, config.pollInterval = .ofMillis ms →
      (∀ e ∈ s.scheduler.journal, ∀ time, e.bypassedAt? = some time →
        time + ms ≤ s.scheduler.now) →
      s.scheduler.NoneInVain := by
  constructor
  · intro hnone
    refine h.attended.noneInVain hq fun e he time htime => ?_
    rw [hnone e he] at htime
    contradiction
  · intro ms hms hlong
    refine h.attended.noneInVain hq fun e he time htime => ?_
    have hle := StreamConfig.pollMillis_le hms
    have hpast := hlong e he time htime
    omega

/-- A sender finds the only slot taken and waits while nobody has signalled it. In another session
two tasks wait for messages when one is sent behind the stream's back, three milliseconds later;
after the next poll one of them has it, and the other has found the ring empty again. -/
theorem nobody_in_vain_polled :
    (∃ s : TaskSession, s.Reachable ⟨⟨1, 4⟩, .ofMillis 5⟩ .default [.send ⟨1, 1⟩ [2]] ∧
      s.scheduler.Quiescent ∧ s.scheduler.tasks = [⟨0, .send ⟨1, 1⟩ [2]⟩] ∧
      s.scheduler.journal.filterMap Entry.bypassedAt? = [] ∧ s.scheduler.NoneInVain) ∧
    ∃ s : TaskSession, s.Reachable ⟨⟨1, 4⟩, .ofMillis 5⟩ .default [.recv ⟨1, 1⟩, .recv ⟨2, 2⟩] ∧
      s.scheduler.Quiescent ∧ s.scheduler.tasks = [⟨1, .recv ⟨2, 2⟩⟩] ∧
      s.scheduler.journal.filterMap Entry.bypassedAt? = [3] ∧ s.scheduler.NoneInVain := by
  constructor
  · have hreach : ∃ s : TaskSession,
        s.Reachable ⟨⟨1, 4⟩, .ofMillis 5⟩ .default [.send ⟨1, 1⟩ [2]] ∧
        s.scheduler.ready = [] ∧ s.scheduler.yielded = [] ∧
        s.scheduler.waiting = [⟨⟨0, .send ⟨1, 1⟩ [2]⟩, 10⟩] ∧ s.scheduler.now = 0 ∧
        s.scheduler.journal.map Entry.bypassedAt? = [none, none] :=
      ⟨_, ⟨7, _, [.act (.trySend ⟨1, 1⟩ [1]), .act (.start (.send ⟨1, 1⟩ [2])),
        .exec (.resume 0)], rfl, rfl, rfl⟩, rfl, rfl, rfl, rfl, rfl⟩
    obtain ⟨s, hs, hready, hyielded, hwaiting, hnow, hjournal⟩ := hreach
    obtain ⟨hq, htasks⟩ :=
      Scheduler.quiescent_singleton hready hyielded hwaiting (by rw [hnow]; decide)
    have hnone : ∀ e ∈ s.scheduler.journal, e.bypassedAt? = none := by
      intro e he
      have hmem := List.mem_map_of_mem (f := Entry.bypassedAt?) he
      rw [hjournal] at hmem
      simpa using hmem
    exact ⟨s, hs, hq, htasks, List.filterMap_eq_nil_iff.mpr hnone, (hs.nobody_in_vain hq).1 hnone⟩
  · have hreach : ∃ s : TaskSession,
        s.Reachable ⟨⟨1, 4⟩, .ofMillis 5⟩ .default [.recv ⟨1, 1⟩, .recv ⟨2, 2⟩] ∧
        s.scheduler.ready = [] ∧ s.scheduler.yielded = [] ∧
        s.scheduler.waiting = [⟨⟨1, .recv ⟨2, 2⟩⟩, 23⟩] ∧ s.scheduler.now = 13 ∧
        s.scheduler.journal.map Entry.bypassedAt? = [none, none, none, some 3, none, none] :=
      ⟨_, ⟨7, _, [.act (.start (.recv ⟨1, 1⟩)), .act (.start (.recv ⟨2, 2⟩)), .exec (.resume 0),
        .exec (.resume 0), .exec (.elapse 3), .act (.inner (.send ⟨1, 5⟩ [9] .never)),
        .exec (.elapse 10), .exec .fire, .exec (.resume 0), .exec (.resume 0)], rfl, rfl, rfl⟩,
        rfl, rfl, rfl, rfl, rfl⟩
    obtain ⟨s, hs, hready, hyielded, hwaiting, hnow, hjournal⟩ := hreach
    obtain ⟨hq, htasks⟩ :=
      Scheduler.quiescent_singleton hready hyielded hwaiting (by rw [hnow]; decide)
    have hbypassed : s.scheduler.journal.filterMap Entry.bypassedAt? = [3] := by
      have hsome := congrArg (List.filterMap id) hjournal
      rw [List.filterMap_map] at hsome
      exact hsome
    refine ⟨s, hs, hq, htasks, hbypassed, (hs.nobody_in_vain hq).2 10 rfl fun e he time htime => ?_⟩
    have hmem : time ∈ s.scheduler.journal.filterMap Entry.bypassedAt? :=
      List.mem_filterMap.mpr ⟨e, he, htime⟩
    rw [hbypassed, List.mem_singleton] at hmem
    rw [hmem, hnow]

end TaskSession

end MessagePipe
