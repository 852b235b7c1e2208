import MessagePipe.Proofs.Stream.Presence
import MessagePipe.Session.Timing

/-!
# MessagePipe.Proofs.Stream.Reapers

What leaves a reaper alone.  Signals do not concern reapers, so while others act
a reaper stays where it is (`Scheduler.Spares`): this is shown for the acts of a
task that has the floor, hence for its whole turn (`Scheduler.spares_turn`),
and for the steps of a script (`TaskSession.spares_act`).

A number that no reaper was given yet belongs to nobody (`TaskSession.Numbered`).
And once the pipe is closed, or nobody keeps it, that is how it stays
(`TaskSession.over_move`).
-/

namespace MessagePipe

open Stage TaskSession

namespace Scheduler

/-- The tasks among which a reaper may be, and how it waits. -/
structure Places where
  ready : List Task
  waiting : List Waiter
  yielded : List Task

/-- Where reaper `id` is. -/
def places (s : Scheduler) (id : Nat) : Places :=
  ⟨s.ready.filter (isReaper id), s.waiting.filter (isReaper id ·.task),
    s.yielded.filter (isReaper id)⟩

/-- A reaper that is nowhere has not been started, or has finished. -/
def nowhere : Places := ⟨[], [], []⟩

/-- Nothing happened to reaper `id`, which did nothing, and no time went by. -/
structure Spares (id : Nat) (s s' : Scheduler) : Prop where
  places : s'.places id = s.places id
  sweeps : s'.sweepTimes id = s.sweepTimes id
  now : s'.now = s.now

variable {id : Nat} {s s' s'' : Scheduler} {t : Task}

theorem isReaper_side (h : isReaper id t = true) : t.side = none := by
  obtain ⟨n, job⟩ := t
  cases job <;> first | rfl | contradiction

/-! ## Sweeps -/

theorem sweepTimes_of_journal (id : Nat) {later : List Entry}
    (h : s'.journal = later ++ s.journal) :
    s'.sweepTimes id = s.sweepTimes id ++ later.reverse.filterMap (Entry.reapedAt? id) := by
  simp only [sweepTimes, h, List.reverse_append, List.filterMap_append]

theorem sweepTimes_visited {time : Nat} {agent : Agent} {clock : UInt64} {call : Call}
    {reply : Reply} (h : s'.journal = .visited time agent clock call reply :: s.journal)
    (hagent : agent ≠ .reaper id) : s'.sweepTimes id = s.sweepTimes id := by
  have hnew := sweepTimes_of_journal id
    (show s'.journal = [.visited time agent clock call reply] ++ s.journal from h)
  simpa [Entry.reapedAt?, hagent] using hnew

theorem sweepTimes_record {e : Entry} (he : e.reapedAt? id = none) :
    (s.record e).sweepTimes id = s.sweepTimes id := by
  have hnew := sweepTimes_of_journal id
    (show (s.record e).journal = [e] ++ s.journal from rfl)
  simpa [he] using hnew

theorem sweepTimes_report (task : Nat) (events : List Event) :
    (s.report task events).sweepTimes id = s.sweepTimes id := by
  have hnew := sweepTimes_of_journal id
    (show (s.report task events).journal = (events.map (.event task)).reverse ++ s.journal by
      rw [report_eq])
  have hnone : (events.map (Entry.event task)).filterMap (Entry.reapedAt? id) = [] := by
    rw [List.filterMap_map]
    exact List.filterMap_eq_nil_iff.mpr fun e _ => rfl
  rw [hnew, List.reverse_reverse, hnone, List.append_nil]

/-! ## Acts of others -/

namespace Spares

theorem refl (id : Nat) (s : Scheduler) : Spares id s s := ⟨rfl, rfl, rfl⟩

theorem trans (h : Spares id s s') (h' : Spares id s' s'') : Spares id s s'' :=
  ⟨h'.places.trans h.places, h'.sweeps.trans h.sweeps, h'.now.trans h.now⟩

end Spares

theorem places_signal (s : Scheduler) (side : Side) : (s.signal side).places id = s.places id := by
  have hnone : ∀ w : Waiter, isReaper id w.task = true → (w.task.side == some side) = false := by
    intro w hw
    rw [isReaper_side hw]
    rfl
  have hready : ((s.waiting.filter (·.task.side == some side)).map (·.task)).filter
      (isReaper id) = [] := by
    refine List.filter_eq_nil_iff.mpr fun t ht hr => ?_
    obtain ⟨w, hw, rfl⟩ := List.mem_map.mp ht
    have hsome := (List.mem_filter.mp hw).2
    rw [hnone w hr] at hsome
    contradiction
  have hwaiting : (s.waiting.filter fun w => !(w.task.side == some side)).filter
      (isReaper id ·.task) = s.waiting.filter (isReaper id ·.task) := by
    rw [List.filter_filter]
    refine List.filter_congr fun w _ => ?_
    cases hr : isReaper id w.task with
    | false => rfl
    | true => rw [hnone w hr]; rfl
  simp only [places, signal, List.filter_append, hready, List.append_nil, hwaiting]

theorem places_signalAll (s : Scheduler) (sides : List Side) :
    (s.signalAll sides).places id = s.places id := by
  induction sides generalizing s with
  | nil => rfl
  | cons side sides ih => exact (ih _).trans (s.places_signal side)

theorem spares_answered (s : Scheduler) {agent : Agent} (hagent : agent ≠ .reaper id) (call : Call)
    (reply : Reply) (p : Pipe) : Spares id s (s.answered agent call reply p) where
  places := places_signalAll _ _
  sweeps := sweepTimes_visited (journal_answered _ _ _ _ _) hagent
  now := now_answered _ _ _ _ _

theorem spares_record (s : Scheduler) {e : Entry} (he : e.reapedAt? id = none) :
    Spares id s (s.record e) := ⟨rfl, sweepTimes_record he, rfl⟩

theorem spares_report (s : Scheduler) (task : Nat) (events : List Event) :
    Spares id s (s.report task events) where
  places := by rw [report_eq]; rfl
  sweeps := sweepTimes_report task events
  now := by rw [report_eq]

theorem spares_wait (s : Scheduler) (ht : isReaper id t = false) (deadline : Nat) :
    Spares id s (s.wait t deadline) where
  places := by simp [Scheduler.places, wait, ht]
  sweeps := rfl
  now := rfl

theorem spares_giveWay (s : Scheduler) (ht : isReaper id t = false) :
    Spares id s (s.giveWay t) where
  places := by simp [Scheduler.places, giveWay, ht]
  sweeps := rfl
  now := rfl

theorem spares_waitPoll (s : Scheduler) (ht : isReaper id t = false) :
    Spares id s (s.waitPoll t) := by
  unfold waitPoll
  split
  · exact s.spares_giveWay ht
  · exact s.spares_wait ht _

theorem spares_goOn (s : Scheduler) (ht : isReaper id t = false) : Spares id s (s.goOn t) where
  places := by simp [Scheduler.places, goOn, ht]
  sweeps := rfl
  now := rfl

theorem spares_spawn (s : Scheduler) (ht : isReaper id t = false) : Spares id s (s.spawn t) where
  places := by simp [Scheduler.places, spawn, ht]
  sweeps := rfl
  now := rfl

theorem spares_cancel (s : Scheduler) {p : Task → Bool}
    (hp : ∀ t, isReaper id t = true → p t = false) : Spares id s (s.cancel p) where
  places := by
    have hkeep : ∀ t, (isReaper id t && !p t) = isReaper id t := by
      intro t
      cases hr : isReaper id t with
      | false => rfl
      | true => rw [hp t hr]; rfl
    simp only [Scheduler.places, cancel, List.filter_filter, hkeep]
  sweeps := rfl
  now := rfl

/-- A task other than reaper `id` has the floor, or has had it, and the reaper is where it was. -/
def Stays (id : Nat) (s : Scheduler) (g : Stage) : Prop :=
  (∀ t ∈ g.running, isReaper id t = false) ∧ Spares id s g.scheduler

theorem stays_own {g g' : Stage} (hg : Stays id s g) (h : Own g g') : Stays id s g' := by
  obtain ⟨hfloor, hspares⟩ := hg
  refine ⟨fun u hu => ?_, hspares.trans ?_⟩
  · obtain ⟨t, ht, hid, hreaper⟩ := own_floor h u hu
    rw [isReaper, hid, hreaper]
    exact hfloor t ht
  obtain ⟨hsome, hact⟩ := h
  cases hact with
  | call | bypass | start | arrange | resume => contradiction
  | @attempt s₁ jobs t call reply p events next hp hv =>
      exact (s₁.spares_answered (by simp) _ _ _).trans (spares_report _ _ _)
  | @look s₁ jobs t call reply side hb hv hr =>
      exact (s₁.spares_answered (by simp) _ _ _).trans (spares_waitPoll _ (hfloor t rfl))
  | @pause s₁ jobs t => exact s₁.spares_goOn (hfloor t rfl)
  | finish => exact spares_report _ _ _
  | @sweep s₁ jobs n every due reply p notice hv =>
      have hother : Agent.reaper n ≠ .reaper id := by
        rintro heq
        have hown := hfloor _ rfl
        simp [isReaper, Task.isReaper, Agent.reaper.inj heq] at hown
      exact (s₁.spares_answered hother _ _ _).trans (spares_record _ rfl)
  | enough | exit => exact spares_record _ rfl
  | @sleep s₁ jobs n every due next hn =>
      have hown : isReaper id ⟨n, .reap every (some next)⟩ = false :=
        hfloor ⟨n, .reap every due⟩ rfl
      exact s₁.spares_wait hown _
  | @giveWay s₁ jobs n every due next =>
      have hown : isReaper id ⟨n, .reap every next⟩ = false :=
        hfloor ⟨n, .reap every due⟩ rfl
      exact s₁.spares_giveWay hown

/-- The turn of another task leaves a reaper alone. -/
theorem spares_runTask (hproper : t.Proper) (ht : isReaper id t = false) :
    Spares id s (s.runTask t) := by
  have hstart : Stays id s ⟨s, some t, []⟩ := ⟨fun u hu => Option.some.inj hu ▸ ht, .refl id s⟩
  exact (turn_invariant stays_own (s.turn_runTask [] hproper) hstart).2

/-- An entry that fails the test may be left out. -/
theorem filter_eraseIdx {α : Type} {p : α → Bool} {l : List α} {i : Nat} {a : α}
    (h : l[i]? = some a) (ha : p a = false) : (l.eraseIdx i).filter p = l.filter p := by
  obtain ⟨hlt, rfl⟩ := List.getElem?_eq_some_iff.mp h
  have hsplit : l = l.take i ++ l[i] :: l.drop (i + 1) := by
    rw [List.getElem_cons_drop, List.take_append_drop]
  rw [List.eraseIdx_eq_take_drop_succ, List.filter_append]
  conv_rhs => rw [hsplit, List.filter_append, List.filter_cons_of_neg (by simp [ha])]

theorem spares_resume {i : Nat} (hi : s.ready[i]? = some t) (hproper : t.Proper)
    (ht : isReaper id t = false) :
    Spares id s ({ s with ready := s.ready.eraseIdx i }.runTask t) := by
  have hfloor : Spares id s { s with ready := s.ready.eraseIdx i } :=
    ⟨by simp only [places, filter_eraseIdx hi ht], rfl, rfl⟩
  exact hfloor.trans (spares_runTask hproper ht)

/-! ## Who keeps the pipe -/

/-- Nobody keeps the pipe if the script does not and every task that is left is a reaper. -/
theorem alive_eq_false_iff (s : Scheduler) :
    s.alive = false ↔ s.held = false ∧ ∀ t ∈ s.tasks, t.isReaper = true := by
  have hcount : s.unfinished = s.tasks.countP (!·.isReaper) := by
    simp only [unfinished, tasks, List.countP_append, List.countP_map]
    rfl
  rw [alive, hcount, Bool.or_eq_false_iff, decide_eq_false_iff_not, Nat.not_lt,
    Nat.le_zero, List.countP_eq_zero]
  simp

@[simp] theorem held_answered (s : Scheduler) (agent : Agent) (call : Call) (reply : Reply)
    (p : Pipe) : (s.answered agent call reply p).held = s.held := by
  obtain ⟨_, _, heq, -, -⟩ := s.answered_eq agent call reply p
  rw [heq]

theorem held_own {g g' : Stage} (h : Own g g') : g'.scheduler.held = g.scheduler.held := by
  obtain ⟨hsome, hact⟩ := h
  cases hact with
  | call | bypass | start | arrange | resume => contradiction
  | attempt => rw [report_eq]; exact held_answered _ _ _ _ _
  | look =>
      unfold waitPoll
      split <;> exact held_answered _ _ _ _ _
  | sweep => exact held_answered _ _ _ _ _
  | pause | enough | finish | exit | sleep | giveWay => rfl

/-- Tasks that run do not decide whether the script keeps the pipe. -/
theorem held_runTask (hproper : t.Proper) : (s.runTask t).held = s.held :=
  turn_invariant (P := fun g => g.scheduler.held = s.held) (fun hg h => (held_own h).trans hg)
    (s.turn_runTask [] hproper) rfl

theorem alive_resume {i : Nat} (hi : s.ready[i]? = some t) (hproper : t.Proper)
    (h : s.alive = false) : ({ s with ready := s.ready.eraseIdx i }.runTask t).alive = false := by
  obtain ⟨hheld, hall⟩ := s.alive_eq_false_iff.mp h
  have hold : ∀ u ∈ t :: { s with ready := s.ready.eraseIdx i }.tasks, u ∈ s.tasks :=
    fun u hu => (tasks_eraseIdx hi).mem_iff.mp hu
  obtain ⟨next, hperm, hnext⟩ := tasks_runTask { s with ready := s.ready.eraseIdx i } t
  refine (alive_eq_false_iff _).mpr ⟨(held_runTask hproper).trans hheld, fun u hu => ?_⟩
  cases List.mem_append.mp (hperm.mem_iff.mp hu) with
  | inl hu =>
      rw [(hnext u (Option.mem_toList.mp hu)).2]
      exact hall t (hold t List.mem_cons_self)
  | inr hu => exact hall u (hold u (List.mem_cons_of_mem _ hu))

/-- Nobody comes to keep a pipe that nobody keeps. -/
theorem alive_move {m : Move} (h : s.move m = some s') (hproper : ∀ t ∈ s.tasks, t.Proper)
    (hdead : s.alive = false) : s'.alive = false := by
  obtain ⟨hheld, hall⟩ := s.alive_eq_false_iff.mp hdead
  cases m with
  | resume i =>
      obtain ⟨t, ht, rfl⟩ := resume_eq_some h
      exact alive_resume ht (hproper t (mem_tasks_of_ready ht)) hdead
  | rejoin =>
      obtain rfl := Option.some.inj h
      exact (alive_eq_false_iff _).mpr ⟨hheld, fun t ht => hall t (s.tasks_rejoin.mem_iff.mp ht)⟩
  | fire =>
      obtain rfl := Option.some.inj h
      exact (alive_eq_false_iff _).mpr ⟨hheld, fun t ht => hall t (s.tasks_fire.mem_iff.mp ht)⟩
  | elapse ms =>
      obtain rfl := Option.some.inj h
      exact (alive_eq_false_iff _).mpr ⟨hheld, hall⟩

end Scheduler

namespace TaskSession

variable {c : PipeConfig} {config : StreamConfig} {id : Nat} {s s' : TaskSession} {jobs : List Job}

/-! ## Steps of a script -/

/-- A step leaves a reaper alone that it neither starts nor aborts. -/
theorem spares_act {step : Step} (hm : step.momentary = true)
    (hnew : s.reapers ≠ id ∨ (s.act step).2.reapers = s.reapers)
    (habort : step = .abortReaper → s.watched ≠ some id) :
    s.scheduler.Spares id (s.act step).2.scheduler := by
  have answered : ∀ call reply p,
      s.scheduler.Spares id (s.scheduler.answered .direct call reply p) := fun call reply p =>
    s.scheduler.spares_answered (by simp) call reply p
  cases step with
  | trySend sender data =>
      simp only [act, Scheduler.trySend_eq]
      exact answered _ _ _
  | tryRecv reader =>
      simp only [act, Scheduler.tryRecv_eq]
      exact answered _ _ _
  | clear caller =>
      simp only [act, Scheduler.clear_eq]
      exact answered _ _ _
  | sweep =>
      simp only [act, Scheduler.sweep_eq]
      exact answered _ _ _
  | close => exact answered .close .closed s.scheduler.pipe.close
  | inner call =>
      simp only [act, Scheduler.inner]
      split
      · exact ⟨rfl, Scheduler.sweepTimes_visited rfl (by simp), rfl⟩
      · exact .refl _ _
  | start job =>
      refine s.scheduler.spares_spawn ?_
      cases job <;> first | rfl | contradiction
  | cancel n =>
      refine s.scheduler.spares_cancel fun t ht => ?_
      simp only [isReaper, Bool.and_eq_true] at ht
      simp only [isTask, ht.1, Bool.not_true, Bool.false_and]
  | spawnReaper every =>
      simp only [act] at hnew ⊢
      split
      · exact .refl _ _
      · next hzero =>
          rw [if_neg hzero] at hnew
          have hne : s.reapers ≠ id := hnew.resolve_right (Nat.succ_ne_self _)
          exact s.scheduler.spares_spawn (by simp [isReaper, Task.isReaper, hne])
  | abortReaper =>
      have hother := habort rfl
      simp only [act]
      split
      · exact .refl _ _
      · next n hn =>
          refine s.scheduler.spares_cancel fun t ht => ?_
          simp only [isReaper, Bool.and_eq_true, beq_iff_eq] at ht
          have hne : id ≠ n := by
            rintro rfl
            exact hother hn
          simp [isReaper, ht.2, hne]
  | setClock | drop | look => exact ⟨rfl, rfl, rfl⟩
  | advance ms => contradiction

/-- Reapers are numbered as they are started. -/
theorem reapers_act (s : TaskSession) (step : Step) :
    (s.act step).2.reapers = s.reapers ∧
        (∀ n, (s.act step).2.watched = some n → s.watched = some n) ∨
      (s.act step).2.reapers = s.reapers + 1 ∧ (s.act step).2.watched = some s.reapers := by
  cases step with
  | spawnReaper every =>
      simp only [act]
      split
      · exact .inl ⟨rfl, fun _ h => h⟩
      · exact .inr ⟨rfl, rfl⟩
  | abortReaper =>
      simp only [act]
      split
      · exact .inl ⟨rfl, fun _ h => h⟩
      · exact .inl ⟨rfl, fun _ h => absurd h (by simp)⟩
  | _ => exact .inl ⟨rfl, fun _ h => h⟩

/-! ## Numbers of reapers -/

/-- The reapers that were started are numbered from 0, and nobody has any other number. -/
structure Numbered (s : TaskSession) : Prop where
  watched : ∀ n, s.watched = some n → n < s.reapers
  absent : ∀ n, s.reapers ≤ n →
    s.scheduler.places n = Scheduler.nowhere ∧ s.scheduler.sweepTimes n = []

theorem Numbered.act (h : s.Numbered) {step : Step} (hm : step.momentary = true) :
    (s.act step).2.Numbered := by
  have spared : ∀ n, s.reapers ≤ n → (s.reapers ≠ n ∨ (s.act step).2.reapers = s.reapers) →
      (s.act step).2.scheduler.places n = Scheduler.nowhere ∧
        (s.act step).2.scheduler.sweepTimes n = [] := by
    intro n hn hnew
    have hspares := spares_act hm hnew fun _ hw => Nat.not_lt.mpr hn (h.watched n hw)
    exact ⟨hspares.places.trans (h.absent n hn).1, hspares.sweeps.trans (h.absent n hn).2⟩
  rcases s.reapers_act step with ⟨hsame, hwatched⟩ | ⟨hnext, hwatched⟩
  · refine ⟨fun n hn => hsame ▸ h.watched n (hwatched n hn), fun n hn => ?_⟩
    exact spared n (hsame ▸ hn) (.inr hsame)
  · refine ⟨fun n hn => ?_, fun n hn => spared n (by omega) (.inl (by omega))⟩
    obtain rfl := Option.some.inj (hwatched.symm.trans hn)
    omega

theorem Numbered.exec (h : s.Numbered) (hproper : ∀ t ∈ s.scheduler.tasks, t.Proper)
    {m : Scheduler.Move} {scheduler : Scheduler} (hm : s.scheduler.move m = some scheduler) :
    ({ s with scheduler := scheduler } : TaskSession).Numbered := by
  refine ⟨h.watched, fun n hn => ?_⟩
  obtain ⟨hplaces, hsweeps⟩ := h.absent n hn
  have hnowhere := hplaces
  simp only [Scheduler.places, Scheduler.nowhere, Scheduler.Places.mk.injEq] at hnowhere
  obtain ⟨hready, hwaiting, hyielded⟩ := hnowhere
  cases m with
  | resume i =>
      obtain ⟨t, ht, rfl⟩ := Scheduler.resume_eq_some hm
      have hother : isReaper n t = false :=
        Bool.eq_false_iff.mpr (List.filter_eq_nil_iff.mp hready t (List.mem_of_getElem? ht))
      have hspares := Scheduler.spares_resume ht
        (hproper t (Scheduler.mem_tasks_of_ready ht)) hother
      exact ⟨hspares.places.trans hplaces, hspares.sweeps.trans hsweeps⟩
  | rejoin =>
      obtain rfl := Option.some.inj hm
      refine ⟨?_, hsweeps⟩
      simp only [Scheduler.places, List.filter_append, hready, hwaiting, hyielded, List.filter_nil,
        List.append_nil]
      rfl
  | fire =>
      obtain rfl := Option.some.inj hm
      refine ⟨?_, hsweeps⟩
      have hnobody := List.filter_eq_nil_iff.mp hwaiting
      simp only [Scheduler.places, Scheduler.nowhere, Scheduler.fire, List.filter_append, hready,
        hyielded, List.nil_append, Scheduler.Places.mk.injEq, and_true]
      constructor
      · refine List.filter_eq_nil_iff.mpr fun t ht => ?_
        obtain ⟨w, hw, rfl⟩ := List.mem_map.mp ht
        exact hnobody w (List.mem_filter.mp hw).1
      · exact List.filter_eq_nil_iff.mpr fun w hw => hnobody w (List.mem_filter.mp hw).1
  | elapse ms =>
      obtain rfl := Option.some.inj hm
      exact ⟨hplaces, hsweeps⟩

theorem Reachable.numbered (h : s.Reachable c config jobs) : s.Numbered := by
  refine h.induction (P := fun _ s => s.Numbered) (fun clock first hfirst => ?_)
    fun {jobs s m s'} hs hn hm => ?_
  · obtain ⟨p, -, rfl⟩ := start_eq_ok hfirst
    exact ⟨nofun, fun _ _ => ⟨rfl, rfl⟩⟩
  · cases m with
    | act step =>
        obtain ⟨hmom, rfl⟩ := act_eq_some hm
        exact hn.act hmom
    | exec m =>
        obtain ⟨scheduler, hrun, rfl⟩ := exec_eq_some hm
        exact hn.exec hs.proper hrun

/-! ## Pipes that nobody uses any more -/

/-- Who does not keep the pipe cannot bring it back. -/
theorem alive_act {step : Step} (hm : step.momentary = true)
    (huses : step.usesPipe = true → s.scheduler.held = true) (hdead : s.scheduler.alive = false) :
    (s.act step).2.scheduler.alive = false := by
  obtain ⟨hheld, hall⟩ := s.scheduler.alive_eq_false_iff.mp hdead
  have hunused : step.usesPipe = false := by
    by_contra hused
    rw [huses (by simpa using hused)] at hheld
    contradiction
  have cancelled : ∀ p : Task → Bool, (s.scheduler.cancel p).alive = false := by
    refine fun p => (Scheduler.alive_eq_false_iff _).mpr ⟨hheld, fun t ht => ?_⟩
    rw [Scheduler.tasks_cancel] at ht
    exact hall t (List.mem_filter.mp ht).1
  cases step with
  | cancel n => exact cancelled _
  | abortReaper =>
      simp only [act]
      split
      · exact hdead
      · exact cancelled _
  | setClock | look => exact hdead
  | drop => exact (Scheduler.alive_eq_false_iff _).mpr ⟨rfl, hall⟩
  | advance ms => contradiction
  | _ => exact absurd hunused (by simp [Step.usesPipe])

/-- A pipe that is closed, or that nobody keeps, is so for good. -/
theorem over_move (hs : s.Reachable c config jobs) {m : Move} (hm : s.OnTime id m)
    (h : s.move m = some s') (hover : s.scheduler.Over) : s'.scheduler.Over := by
  cases hover with
  | inl hclosed => exact .inl (kept_move Stage.kept_closed h hs.length hs.proper hclosed).1
  | inr hdead =>
      right
      cases m with
      | act step =>
          obtain ⟨hmom, rfl⟩ := act_eq_some h
          exact alive_act hmom hm.1 hdead
      | exec m =>
          obtain ⟨scheduler, hrun, rfl⟩ := exec_eq_some h
          exact Scheduler.alive_move hrun hs.proper hdead

end TaskSession

end MessagePipe
