import MessagePipe.Proofs.Stream.Attention
import MessagePipe.Session.Timing

/-!
# MessagePipe.Proofs.Stream.Scripts

Scripts that are run by `TaskSession.run` are moves in a particular order, so
all that holds of the sessions that moves can lead to holds of them
(`TaskSession.reachable_run`).  After each step of a script the tasks are at
rest: none could go on (`TaskSession.quiescent_run`), unless tasks poll without
any interval, and so nobody waits in vain (`TaskSession.noneInVain_run`).  Time
goes by only while nobody is ready, and stops at every deadline, so scripts are
on time for their reapers (`TaskSession.goes_run`).
-/

namespace MessagePipe

open Stage

namespace Scheduler

/-- Whether a move takes no time. -/
def Move.instant : Move → Bool
  | .elapse _ => false
  | _ => true

/-- Moves of the executor that take no time, one after the other. -/
abbrev Runs : Scheduler → Scheduler → Prop :=
  Relation.ReflTransGen fun s s' => ∃ m : Move, m.instant = true ∧ s.move m = some s'

variable {s s' : Scheduler} {jobs : List Job}

/-! ## Coming to rest -/

theorem move_of_runNext? (h : s.runNext? = some s') : s.move (.resume 0) = some s' := by
  unfold runNext? at h
  split at h
  · contradiction
  · next t ready hready =>
      simp only [move, hready]
      exact h

/-- Tasks that are ready run until none is left. -/
theorem runs_runReady (s : Scheduler) : Runs s s.runReady ∧ s.runReady.ready = [] := by
  induction s using runReady.induct with
  | case1 s hnone =>
      have hready : s.ready = [] := by
        unfold runNext? at hnone
        split at hnone
        · assumption
        · contradiction
      rw [runReady]
      split
      · exact ⟨.refl, hready⟩
      · next hsome =>
          rw [hnone] at hsome
          contradiction
  | case2 s s' hsome ih =>
      rw [runReady]
      split
      · next hnone =>
          rw [hnone] at hsome
          contradiction
      · next s'' hsome' =>
          obtain rfl := Option.some.inj (hsome.symm.trans hsome')
          exact ⟨.head ⟨.resume 0, rfl, move_of_runNext? hsome⟩ ih.1, ih.2⟩

theorem runs_turn (s : Scheduler) : Runs s s.turn ∧ s.turn.ready = [] := by
  have hrun := runs_runReady { s with ready := s.yielded ++ s.ready, yielded := [] }
  exact ⟨.head ⟨.rejoin, rfl, rfl⟩ hrun.1, hrun.2⟩

theorem runs_settle (s : Scheduler) : Runs s s.settle ∧ s.settle.ready = [] := by
  induction s using settle.induct with
  | case1 s next hless ih =>
      rw [settle, dif_pos hless]
      exact ⟨((runs_turn s).1.trans (runs_turn _).1).trans ih.1, ih.2⟩
  | case2 s next hless =>
      rw [settle, dif_neg hless]
      exact ⟨(runs_turn s).1.trans (runs_turn _).1, (runs_turn _).2⟩

/-- Moves that take no time are acts. -/
theorem acts_of_runs (h : Runs s s') (hp : Stage.Proper ⟨s, none, jobs⟩) :
    Acts ⟨s, none, jobs⟩ ⟨s', none, jobs⟩ := by
  induction h with
  | refl => exact .refl
  | tail _ hm ih =>
      obtain ⟨m, hinstant, hm⟩ := hm
      have hproper := acts_invariant kept_proper.act ih hp
      cases acts_move hm hproper with
      | inl hacts => exact ih.trans hacts
      | inr helapse =>
          obtain ⟨ms, rfl, -⟩ := helapse
          contradiction

/-! ## Deadlines -/

/-- No deadline has come. -/
def Timely (s : Scheduler) : Prop := ∀ w ∈ s.waiting, s.now < w.deadline

/-- The earlier of a deadline, if there is one, and that of a task that waits. -/
def earlier (d : Option Nat) (w : Waiter) : Option Nat :=
  some (match d with | none => w.deadline | some d => min d w.deadline)

theorem foldl_earlier (first : Waiter) (l : List Waiter) :
    ∃ u ∈ first :: l, l.foldl earlier (some first.deadline) = some u.deadline ∧
      ∀ w ∈ first :: l, u.deadline ≤ w.deadline := by
  induction l generalizing first with
  | nil => exact ⟨first, List.mem_cons_self, rfl, fun w hw => by rw [List.mem_singleton.mp hw]⟩
  | cons v l ih =>
      -- the earlier of the first two stands for both
      have hmin : ∃ e ∈ [first, v], min first.deadline v.deadline = e.deadline ∧
          e.deadline ≤ first.deadline ∧ e.deadline ≤ v.deadline := by
        by_cases hle : first.deadline ≤ v.deadline
        · exact ⟨first, by simp, Nat.min_eq_left hle, Nat.le_refl _, hle⟩
        · exact ⟨v, by simp, Nat.min_eq_right (by omega), by omega, Nat.le_refl _⟩
      obtain ⟨e, he, heq, hfirst, hv⟩ := hmin
      obtain ⟨u, hu, hfold, hall⟩ := ih e
      refine ⟨u, ?_, ?_, fun w hw => ?_⟩
      · simp only [List.mem_cons, List.not_mem_nil, or_false] at he hu ⊢
        grind
      · rw [List.foldl_cons, ← hfold, ← heq]
        rfl
      · have hue := hall e List.mem_cons_self
        cases List.mem_cons.mp hw with
        | inl hw => rw [hw]; omega
        | inr hw =>
            cases List.mem_cons.mp hw with
            | inl hw => rw [hw]; omega
            | inr hw => exact hall w (List.mem_cons_of_mem _ hw)

/-- If anybody waits, the next deadline is that of somebody who waits, and comes before all
others. -/
theorem nextDeadline?_eq_some (s : Scheduler) {w : Waiter} (hw : w ∈ s.waiting) :
    ∃ u ∈ s.waiting, s.nextDeadline? = some u.deadline ∧ u.deadline ≤ w.deadline := by
  have heq : s.nextDeadline? = s.waiting.foldl earlier none := rfl
  rw [heq]
  cases hl : s.waiting with
  | nil =>
      rw [hl] at hw
      contradiction
  | cons v l =>
      rw [hl] at hw
      obtain ⟨u, hu, hfold, hall⟩ := foldl_earlier v l
      exact ⟨u, hu, hfold, hall w hw⟩

namespace Timely

theorem less (h : s.Timely) (hnow : s'.now = s.now) (hw : ∀ w ∈ s'.waiting, w ∈ s.waiting) :
    s'.Timely := by
  intro w hmem
  rw [hnow]
  exact h w (hw w hmem)

/-- A call only ends waits. -/
theorem answered (h : s.Timely) (agent : Agent) (call : Call) (reply : Reply) (p : Pipe) :
    (s.answered agent call reply p).Timely :=
  h.less (now_answered _ _ _ _ _) fun _ hw => (waiting_answered _ _ _ _ _ hw).1

theorem wait (h : s.Timely) (t : Task) {deadline : Nat} (hd : s.now < deadline) :
    (s.wait t deadline).Timely := by
  intro w hw
  cases List.mem_append.mp hw with
  | inl hw => exact h w hw
  | inr hw => rw [List.mem_singleton.mp hw]; exact hd

theorem waitPoll (h : s.Timely) (t : Task) : (s.waitPoll t).Timely := by
  unfold Scheduler.waitPoll
  split
  · exact h.less rfl fun _ hw => hw
  · next hzero =>
      have hnanos : s.config.pollInterval.nanos ≠ 0 := by simpa [Duration.isZero] using hzero
      have htimer : 0 < s.config.pollInterval.onTimer.nanos :=
        Nat.lt_min.mpr ⟨Nat.pos_of_ne_zero hnanos, by decide⟩
      refine h.wait t ?_
      simp only [pollDeadline, Duration.ceilMillis]
      omega

theorem waitTick (h : s.Timely) (id : Nat) (every : Duration) {due : Nat} (hd : s.nowNanos < due) :
    (s.waitTick id every due).Timely := by
  refine h.wait _ ?_
  simp only [nowNanos] at hd
  simp only [Duration.ceilMillis]
  omega

theorem fire (s : Scheduler) : s.fire.Timely := by
  intro w hw
  have hlater := (List.mem_filter.mp hw).2
  have hlater : ¬ w.deadline ≤ s.now := by simpa using hlater
  exact Nat.lt_of_not_le hlater

end Timely

end Scheduler

namespace Stage

open Scheduler

/-- At the instant `now` no deadline has come. -/
structure Punctual (now : Nat) (g : Stage) : Prop where
  now : g.scheduler.now = now
  timely : g.scheduler.Timely

/-- Acts take no time, and whoever begins to wait does so for an instant that is to come. -/
theorem punctual_act {now : Nat} {g g' : Stage} (hg : g.Punctual now) (h : Act g g') :
    g'.Punctual now := by
  obtain ⟨hnow, htimely⟩ := hg
  cases h with
  | call hv => exact ⟨(now_answered _ _ _ _ _).trans hnow, htimely.answered _ _ _ _⟩
  | bypass | start | resume | pause | enough | finish | exit | giveWay =>
      exact ⟨hnow, htimely.less rfl fun _ hw => hw⟩
  | arrange h => exact ⟨h.now.trans hnow, htimely.less h.now h.waiting⟩
  | attempt hp hv =>
      rw [← hnow, report_eq]
      exact ⟨now_answered _ _ _ _ _, (htimely.answered _ _ _ _).less rfl fun _ hw => hw⟩
  | look hb hv hr =>
      rw [← hnow]
      exact ⟨by simp, (htimely.answered _ _ _ _).waitPoll _⟩
  | sweep hv =>
      rw [← hnow]
      exact ⟨now_answered _ _ _ _ _, (htimely.answered _ _ _ _).less rfl fun _ hw => hw⟩
  | sleep hn => exact ⟨hnow, htimely.waitTick _ _ hn⟩

end Stage

namespace Scheduler

variable {s : Scheduler} {jobs : List Job}

/-- While the tasks come to rest no time goes by. -/
theorem timely_settle (hp : Stage.Proper ⟨s, none, jobs⟩) (h : s.Timely) :
    s.settle.Timely ∧ Stage.Proper ⟨s.settle, none, jobs⟩ := by
  have hacts := acts_of_runs (runs_settle s).1 hp
  have hpunctual := acts_invariant punctual_act hacts ⟨rfl, h⟩
  exact ⟨hpunctual.timely, acts_invariant kept_proper.act hacts hp⟩

/-- Time stops at every deadline, so none is missed. -/
theorem timely_advance (ms : Nat) (hp : Stage.Proper ⟨s, none, jobs⟩) (h : s.Timely) :
    (s.advance ms).Timely ∧ Stage.Proper ⟨s.advance ms, none, jobs⟩ := by
  induction s, ms using advance.induct with
  | case1 s ms hnone =>
      rw [advance, hnone]
      refine ⟨fun w hw => ?_, hp⟩
      obtain ⟨u, -, hu, -⟩ := s.nextDeadline?_eq_some hw
      rw [hnone] at hu
      contradiction
  | case2 s ms deadline hsome hlt ih =>
      rw [advance, hsome]
      simp only [hlt, and_self, if_true]
      have hfire := Arranged.fire { s with now := deadline }
      have hproper : Stage.Proper ⟨{ s with now := deadline }.fire, none, jobs⟩ :=
        Proper.act (show Stage.Proper ⟨{ s with now := deadline }, none, jobs⟩ from hp)
          (.arrange hfire)
      have hsettle := timely_settle hproper (.fire _)
      exact ih hsettle.2 hsettle.1
  | case3 s ms deadline hsome hlt =>
      rw [advance, hsome]
      simp only [hlt, if_false]
      refine ⟨fun w hw => ?_, hp⟩
      -- the next deadline has not come, so it lies beyond the time that goes by
      obtain ⟨u, hmem, hu, hle⟩ := s.nextDeadline?_eq_some hw
      obtain rfl := Option.some.inj (hsome.symm.trans hu)
      have hnot := h u hmem
      show s.now + ms < w.deadline
      omega

/-- Moves of the executor, one after the other. -/
abbrev Executes : Scheduler → Scheduler → Prop :=
  Relation.ReflTransGen fun s s' => ∃ m, s.move m = some s'

theorem executes_settle (s : Scheduler) : Executes s s.settle :=
  (runs_settle s).1.lift id fun _ _ ⟨m, _, hm⟩ => ⟨m, hm⟩

theorem executes_advance (s : Scheduler) (ms : Nat) : Executes s (s.advance ms) := by
  induction s, ms using advance.induct with
  | case1 s ms hnone =>
      rw [advance, hnone]
      exact .single ⟨.elapse ms, rfl⟩
  | case2 s ms deadline hsome hlt ih =>
      rw [advance, hsome]
      simp only [hlt, and_self, if_true]
      have helapse : s.move (.elapse (deadline - s.now)) = some { s with now := deadline } := by
        have hsum : s.now + (deadline - s.now) = deadline := by omega
        simp only [move, hsum]
      exact .head ⟨_, helapse⟩ (.head ⟨.fire, rfl⟩ ((executes_settle _).trans ih))
  | case3 s ms deadline hsome hlt =>
      rw [advance, hsome]
      simp only [hlt, if_false]
      exact .single ⟨.elapse ms, rfl⟩

end Scheduler

/-! ## Scripts as moves -/

namespace TaskSession

variable {c : PipeConfig} {config : StreamConfig} {s first : TaskSession} {clock : UInt64}
  {steps : List Step}

/-- Whether a step is one that a script may take: reapers are started by `spawnReaper`. -/
def Step.Allowed (step : Step) : Prop := ∀ job, step = .start job → job.startable = true

/-- What the executor does by itself starts nothing. -/
theorem moves_executes {scheduler : Scheduler} (h : s.scheduler.Executes scheduler) :
    ∃ ms, s.moves ms = some { s with scheduler := scheduler } ∧ ms.filterMap Move.job? = [] := by
  induction h with
  | refl => exact ⟨[], rfl, rfl⟩
  | tail _ hm ih =>
      obtain ⟨ms, hms, hjobs⟩ := ih
      obtain ⟨m, hm⟩ := hm
      refine ⟨ms ++ [.exec m], ?_, by rw [List.filterMap_append, hjobs]; rfl⟩
      rw [moves_append, hms]
      simp only [Option.bind_some, moves, move, hm, Option.map_some, Option.bind_eq_bind]

theorem not_momentary {step : Step} (h : step.momentary = false) (ha : step.Allowed) :
    ∃ ms, step = .advance ms := by
  cases step with
  | advance ms => exact ⟨ms, rfl⟩
  | start job =>
      have hjob := ha job rfl
      simp [Step.momentary, hjob] at h
  | _ => contradiction

theorem moves_perform {step : Step} (ha : step.Allowed) :
    ∃ ms, s.moves ms = some (s.perform step).2 ∧ ms.filterMap Move.job? = step.job?.toList := by
  cases hm : step.momentary with
  | true =>
      obtain ⟨ms, hms, hjobs⟩ := moves_executes (s.act step).2.scheduler.executes_settle
      refine ⟨.act step :: ms, ?_, ?_⟩
      · simp only [moves, move, hm, if_true, Option.bind_eq_bind, Option.bind_some]
        exact hms
      · rw [List.filterMap_cons, hjobs]
        simp only [Move.job?]
        cases step.job? <;> rfl
  | false =>
      obtain ⟨ms, rfl⟩ := not_momentary hm ha
      exact moves_executes
        ((s.scheduler.executes_advance ms).trans (Scheduler.executes_settle _))

theorem moves_run (ha : ∀ step ∈ steps, step.Allowed) :
    ∃ ms, s.moves ms = some (s.run steps) ∧
      ms.filterMap Move.job? = steps.filterMap Step.job? := by
  induction steps generalizing s with
  | nil => exact ⟨[], rfl, rfl⟩
  | cons step steps ih =>
      obtain ⟨ms, hms, hjobs⟩ := moves_perform (s := s) (ha step List.mem_cons_self)
      obtain ⟨ms', hms', hjobs'⟩ := ih (s := (s.perform step).2) fun step hmem =>
        ha step (List.mem_cons_of_mem _ hmem)
      refine ⟨ms ++ ms', by rw [moves_append, hms]; exact hms', ?_⟩
      rw [List.filterMap_append, hjobs, hjobs', List.filterMap_cons]
      cases step.job? <;> rfl

/-- The sessions of scripts are among those that moves can lead to. -/
theorem reachable_run (h : start c config clock = .ok first)
    (ha : ∀ step ∈ steps, step.Allowed) :
    (first.run steps).Reachable c config (steps.filterMap Step.job?) := by
  obtain ⟨ms, hms, hjobs⟩ := moves_run (s := first) ha
  exact ⟨clock, first, ms, h, hms, hjobs⟩

/-! ## At rest between steps -/

/-- Before a step of a script no deadline has come, and none has after it. -/
theorem timely_perform {jobs : List Job} {step : Step} (ha : step.Allowed)
    (hn : s.tasks = jobs.length) (hp : Stage.Proper ⟨s.scheduler, none, jobs⟩)
    (h : s.scheduler.Timely) :
    (s.perform step).2.scheduler.Timely ∧ ∃ jobs', (s.perform step).2.tasks = jobs'.length ∧
      Stage.Proper ⟨(s.perform step).2.scheduler, none, jobs'⟩ := by
  cases hm : step.momentary with
  | true =>
      obtain ⟨hacts, hn'⟩ := acts_act hm hn
      have hproper := acts_invariant kept_proper.act hacts.to_reflTransGen hp
      have hpunctual := acts_invariant punctual_act hacts.to_reflTransGen ⟨rfl, h⟩
      have hsettle := Scheduler.timely_settle hproper hpunctual.timely
      exact ⟨hsettle.1, _, hn', hsettle.2⟩
  | false =>
      obtain ⟨ms, rfl⟩ := not_momentary hm ha
      have hadvance := Scheduler.timely_advance ms hp h
      have hsettle := Scheduler.timely_settle hadvance.2 hadvance.1
      exact ⟨hsettle.1, jobs, hn, hsettle.2⟩

theorem timely_run {jobs : List Job} (ha : ∀ step ∈ steps, step.Allowed)
    (hn : s.tasks = jobs.length) (hp : Stage.Proper ⟨s.scheduler, none, jobs⟩)
    (h : s.scheduler.Timely) : (s.run steps).scheduler.Timely := by
  induction steps generalizing s jobs with
  | nil => exact h
  | cons step steps ih =>
      obtain ⟨htimely, jobs', hn', hp'⟩ := timely_perform (ha step List.mem_cons_self) hn hp h
      exact ih (fun step hmem => ha step (List.mem_cons_of_mem _ hmem)) hn' hp' htimely

/-- Nobody is ready between two steps. -/
theorem ready_perform (s : TaskSession) (step : Step) : (s.perform step).2.scheduler.ready = [] :=
  (Scheduler.runs_settle _).2

theorem ready_run (h : s.scheduler.ready = []) : (s.run steps).scheduler.ready = [] := by
  induction steps generalizing s with
  | nil => exact h
  | cons step steps ih => exact ih (s.ready_perform step)

end TaskSession

namespace Scheduler

variable {config : StreamConfig} {s s' : Scheduler}

/-- Only tasks that poll without any interval give way, and reapers. -/
structure Patient (config : StreamConfig) (s : Scheduler) : Prop where
  kept : s.config = config
  yielded : ∀ t ∈ s.yielded, t.side ≠ none → config.pollInterval.isZero = true

namespace Patient

theorem less (h : s.Patient config) (hconfig : s'.config = s.config)
    (hy : ∀ t ∈ s'.yielded, t ∈ s.yielded) : s'.Patient config :=
  ⟨hconfig.trans h.kept, fun t ht => h.yielded t (hy t ht)⟩

theorem answered (h : s.Patient config) (agent : Agent) (call : Call) (reply : Reply) (p : Pipe) :
    (s.answered agent call reply p).Patient config := by
  refine h.less (config_answered _ _ _ _ _) ?_
  rw [yielded_answered]
  exact fun _ ht => ht

theorem report (h : s.Patient config) (id : Nat) (events : List Event) :
    (s.report id events).Patient config := by
  rw [report_eq]
  exact h.less rfl fun _ ht => ht

theorem giveWay (h : s.Patient config) {t : Task}
    (ht : t.side ≠ none → config.pollInterval.isZero = true) : (s.giveWay t).Patient config := by
  refine ⟨h.kept, fun u hu => ?_⟩
  cases List.mem_cons.mp hu with
  | inl hu => rw [hu]; exact ht
  | inr hu => exact h.yielded u hu

theorem waitPoll (h : s.Patient config) (t : Task) : (s.waitPoll t).Patient config := by
  unfold Scheduler.waitPoll
  split
  · next hzero =>
      rw [h.kept] at hzero
      exact h.giveWay fun _ => hzero
  · exact h.less rfl fun _ ht => ht

end Patient

end Scheduler

theorem Stage.kept_patient {config : StreamConfig} :
    Kept fun g => g.scheduler.Patient config where
  act := fun {g g'} hg h => by
    cases h with
    | call => exact hg.answered _ _ _ _
    | bypass | start | resume | pause | enough | exit | sleep => exact hg.less rfl fun _ ht => ht
    | arrange h => exact hg.less h.config h.yielded
    | attempt => exact (hg.answered _ _ _ _).report _ _
    | look => exact (hg.answered _ _ _ _).waitPoll _
    | finish => exact hg.report _ _
    | sweep => exact (hg.answered _ _ _ _).less rfl fun _ ht => ht
    | giveWay => exact hg.giveWay fun hside => absurd rfl hside
  elapse := fun _ hg => hg.less rfl fun _ ht => ht

namespace TaskSession

variable {c : PipeConfig} {config : StreamConfig} {first : TaskSession} {clock : UInt64}
  {steps : List Step}

theorem timely_start (h : start c config clock = .ok first) :
    first.tasks = ([] : List Job).length ∧ first.scheduler.ready = [] ∧
      Stage.Proper ⟨first.scheduler, none, []⟩ ∧ first.scheduler.Timely := by
  obtain ⟨p, -, rfl⟩ := start_eq_ok h
  exact ⟨rfl, rfl, fun t ht => (List.not_mem_nil ht).elim,
    fun w hw => (List.not_mem_nil hw).elim⟩

/-- **At rest**: between two steps of a script no task could go on, if waiting tasks poll at some
interval at all. -/
theorem quiescent_run (h : start c config clock = .ok first)
    (ha : ∀ step ∈ steps, step.Allowed) (hpoll : config.pollInterval.isZero = false) :
    (first.run steps).scheduler.Quiescent := by
  have hpatient := (reachable_run h ha).invariant
    (fun _ _ _ => ⟨rfl, fun _ ht => (List.not_mem_nil ht).elim⟩) Stage.kept_patient
  obtain ⟨hn, hready, hproper, htimely⟩ := timely_start h
  refine ⟨ready_run hready, fun t ht => ?_, timely_run ha hn hproper htimely⟩
  cases hside : t.side with
  | none => rfl
  | some side =>
      have hzero := hpatient.yielded t ht (by rw [hside]; exact Option.some_ne_none side)
      rw [hpoll] at hzero
      contradiction

/-- Between two steps of a script nobody waits in vain, if whatever was changed behind the stream's
back was changed a poll interval ago. -/
theorem noneInVain_run (h : start c config clock = .ok first)
    (ha : ∀ step ∈ steps, step.Allowed) (hpoll : config.pollInterval.isZero = false)
    (hlong : ∀ e ∈ (first.run steps).scheduler.journal, ∀ time, e.bypassedAt? = some time →
      time + config.pollMillis ≤ (first.run steps).scheduler.now) :
    (first.run steps).scheduler.NoneInVain :=
  (reachable_run h ha).attended.noneInVain (quiescent_run h ha hpoll) hlong

/-! ## On time for reapers -/

/-- The steps of a script that use the pipe only while the script keeps it, and that do not abort
reaper `id`. -/
def Undisturbed (id : Nat) (s : TaskSession) : List Step → Prop
  | [] => True
  | step :: steps =>
    step.Allowed ∧ s.OnTime id (.act step) ∧ Undisturbed id (s.perform step).2 steps

variable {s : TaskSession} {id : Nat} {jobs : List Job}

/-- Nobody is late if no time goes by. -/
theorem goes_runs (s : TaskSession) (id : Nat) {scheduler scheduler' : Scheduler}
    (h : scheduler.Runs scheduler') :
    ({ s with scheduler := scheduler } : TaskSession).Goes id
      { s with scheduler := scheduler' } := by
  refine h.lift (fun scheduler => ({ s with scheduler := scheduler } : TaskSession)) ?_
  rintro a b ⟨m, hinstant, hm⟩
  refine ⟨.exec m, ?_, by simp only [move, hm, Option.map_some]⟩
  cases m with
  | elapse ms => contradiction
  | _ => trivial

/-- Time stops at every deadline, and goes on when nobody is ready. -/
theorem goes_advance (s : TaskSession) (id ms : Nat) {scheduler : Scheduler}
    (hready : scheduler.ready = []) (hp : Stage.Proper ⟨scheduler, none, jobs⟩)
    (ht : scheduler.Timely) :
    ({ s with scheduler := scheduler } : TaskSession).Goes id
      { s with scheduler := scheduler.advance ms } := by
  have elapsed : ∀ (scheduler : Scheduler) (ms : Nat), scheduler.ready = [] →
      (∀ w ∈ scheduler.waiting, scheduler.now + ms ≤ w.deadline) →
      ({ s with scheduler := scheduler } : TaskSession).Goes id
        { s with scheduler := { scheduler with now := scheduler.now + ms } } := by
    intro scheduler ms hready hlater
    have hnobody : ∀ t ∈ scheduler.ready, isReaper id t = false := by
      rw [hready]
      exact fun t ht => (List.not_mem_nil ht).elim
    exact .single ⟨.exec (.elapse ms), ⟨hnobody, fun w hw _ => hlater w hw⟩, rfl⟩
  induction scheduler, ms using Scheduler.advance.induct with
  | case1 scheduler ms hnone =>
      rw [Scheduler.advance, hnone]
      refine elapsed _ _ hready fun w hw => ?_
      obtain ⟨u, -, hu, -⟩ := scheduler.nextDeadline?_eq_some hw
      rw [hnone] at hu
      contradiction
  | case2 scheduler ms deadline hsome hlt ih =>
      rw [Scheduler.advance, hsome]
      simp only [hlt, and_self, if_true]
      have hsum : scheduler.now + (deadline - scheduler.now) = deadline := by omega
      have hstop := elapsed _ (deadline - scheduler.now) hready fun w hw => by
        obtain ⟨u, -, hu, hle⟩ := scheduler.nextDeadline?_eq_some hw
        obtain rfl := Option.some.inj (hsome.symm.trans hu)
        omega
      rw [hsum] at hstop
      have hproper : Stage.Proper ⟨{ scheduler with now := deadline }.fire, none, jobs⟩ :=
        Proper.act (show Stage.Proper ⟨{ scheduler with now := deadline }, none, jobs⟩ from hp)
          (.arrange (Scheduler.Arranged.fire _))
      have hruns := Scheduler.runs_settle { scheduler with now := deadline }.fire
      have hsettle := Scheduler.timely_settle hproper (.fire _)
      have hfire : Scheduler.Runs { scheduler with now := deadline }
          { scheduler with now := deadline }.fire := .single ⟨.fire, rfl, rfl⟩
      exact (hstop.trans (goes_runs s id (hfire.trans hruns.1))).trans
        (ih hruns.2 hsettle.2 hsettle.1)
  | case3 scheduler ms deadline hsome hlt =>
      rw [Scheduler.advance, hsome]
      simp only [hlt, if_false]
      refine elapsed _ _ hready fun w hw => ?_
      obtain ⟨u, hmem, hu, hle⟩ := scheduler.nextDeadline?_eq_some hw
      obtain rfl := Option.some.inj (hsome.symm.trans hu)
      have hnot := ht u hmem
      omega

/-- What follows a step takes no time. -/
theorem goes_settle (s : TaskSession) (id : Nat) (step : Step) :
    (s.act step).2.Goes id (s.perform step).2 :=
  goes_runs _ id (Scheduler.runs_settle _).1

theorem goes_perform {step : Step} (ha : step.Allowed) (hm : s.OnTime id (.act step))
    (hready : s.scheduler.ready = []) (hp : Stage.Proper ⟨s.scheduler, none, jobs⟩)
    (ht : s.scheduler.Timely) : s.Goes id (s.perform step).2 := by
  cases hmom : step.momentary with
  | true =>
      have hact : s.move (.act step) = some (s.act step).2 := by
        simp only [move, hmom, if_true]
      exact .head ⟨_, hm, hact⟩ (s.goes_settle id step)
  | false =>
      obtain ⟨ms, rfl⟩ := not_momentary hmom ha
      exact (goes_advance s id ms hready hp ht).trans (s.goes_settle id (.advance ms))

/-- Scripts are on time for a reaper that they do not abort. -/
theorem goes_run {steps : List Step} (hs : s.Undisturbed id steps) (hn : s.tasks = jobs.length)
    (hready : s.scheduler.ready = []) (hp : Stage.Proper ⟨s.scheduler, none, jobs⟩)
    (ht : s.scheduler.Timely) : s.Goes id (s.run steps) := by
  induction steps generalizing s jobs with
  | nil => exact .refl
  | cons step steps ih =>
      obtain ⟨ha, hm, hs⟩ := hs
      obtain ⟨htimely, jobs', hn', hp'⟩ := timely_perform ha hn hp ht
      exact (goes_perform ha hm hready hp ht).trans
        (ih hs hn' (s.ready_perform step) hp' htimely)

end TaskSession

end MessagePipe
