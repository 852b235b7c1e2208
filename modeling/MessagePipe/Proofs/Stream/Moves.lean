import MessagePipe.Proofs.Stream.Acts

/-!
# MessagePipe.Proofs.Stream.Moves

Every move of a session is a chain of acts, or lets time go by (`acts_move`).
What each act keeps and the passing of time keeps (`Stage.Kept`) therefore
holds of every session that moves can lead to (`Reachable.invariant`).
-/

namespace MessagePipe

open Relation Stage

/-! ## Who is there -/

namespace Scheduler

variable {s : Scheduler}

theorem tasks_answered (s : Scheduler) (agent : Agent) (call : Call) (reply : Reply) (p : Pipe) :
    (s.answered agent call reply p).tasks.Perm s.tasks := by
  obtain ⟨ready, waiting, heq, hperm, -⟩ := s.answered_eq agent call reply p
  rw [heq]
  exact hperm.append_right _

theorem tasks_report (s : Scheduler) (id : Nat) (events : List Event) :
    (s.report id events).tasks = s.tasks := by
  rw [report_eq]
  rfl

theorem tasks_spawn (s : Scheduler) (t : Task) : (s.spawn t).tasks.Perm (t :: s.tasks) := by
  simp only [tasks, spawn, List.append_assoc, List.singleton_append]
  exact List.perm_middle

theorem tasks_eraseIdx {i : Nat} {t : Task} (h : s.ready[i]? = some t) :
    (t :: { s with ready := s.ready.eraseIdx i }.tasks).Perm s.tasks := by
  obtain ⟨hlt, rfl⟩ := List.getElem?_eq_some_iff.mp h
  simp only [tasks, List.append_assoc]
  exact (List.getElem_cons_eraseIdx_perm hlt).append_right _

theorem mem_tasks_of_ready {i : Nat} {t : Task} (h : s.ready[i]? = some t) : t ∈ s.tasks :=
  (tasks_eraseIdx h).mem_iff.mp List.mem_cons_self

theorem tasks_rejoin (s : Scheduler) :
    { s with ready := s.yielded ++ s.ready, yielded := [] }.tasks.Perm s.tasks := by
  simp only [tasks, List.append_nil, List.append_assoc]
  rw [← List.append_assoc s.ready]
  exact List.perm_append_comm

theorem tasks_fire (s : Scheduler) : s.fire.tasks.Perm s.tasks := by
  simp only [tasks, fire, List.append_assoc]
  refine .append_left _ ?_
  rw [← List.append_assoc, ← List.map_append]
  exact ((List.filter_append_perm _ s.waiting).map _).append_right _

theorem tasks_cancel (s : Scheduler) (p : Task → Bool) :
    (s.cancel p).tasks = s.tasks.filter (!p ·) := by
  simp only [tasks, cancel, List.filter_append, List.filter_map]
  rfl

end Scheduler

namespace Stage

/-- Every task, the one that has the floor among them. -/
def crowd (g : Stage) : List Task := g.running.toList ++ g.scheduler.tasks

/-- Every reaper waits between its sweeps. -/
def Proper (g : Stage) : Prop := ∀ t ∈ g.crowd, t.Proper

variable {g g' : Stage}

theorem Proper.perm (hg : g.Proper) (h : g'.crowd.Perm g.crowd) : g'.Proper :=
  fun t ht => hg t (h.mem_iff.mp ht)

/-- A reaper that had the floor keeps its interval. -/
theorem Proper.again {s s' : Scheduler} {jobs : List Job} {id : Nat} {every : Duration}
    {due next : Option Nat} (hg : Proper ⟨s, some ⟨id, .reap every due⟩, jobs⟩)
    (h : s'.tasks.Perm (⟨id, .reap every next⟩ :: s.tasks)) : Proper ⟨s', none, jobs⟩ := by
  intro u hu
  cases List.mem_cons.mp (h.mem_iff.mp hu) with
  | inl hu =>
      subst hu
      rintro _ _ heq
      cases heq
      exact hg _ List.mem_cons_self every due rfl
  | inr hu => exact hg u (List.mem_cons_of_mem _ hu)

theorem Proper.act (hg : g.Proper) (h : Act g g') : g'.Proper := by
  cases h with
  | call hv => exact hg.perm (Scheduler.tasks_answered _ _ _ _ _)
  | bypass hv => exact hg
  | @start s jobs job hj =>
      intro t ht
      rcases List.mem_cons.mp ((s.tasks_spawn _).mem_iff.mp ht) with rfl | ht
      · rintro every due rfl
        contradiction
      · exact hg t ht
  | arrange h =>
      intro t ht
      exact (h.proper t ht).elim (hg t) id
  | resume ht => exact hg.perm (Scheduler.tasks_eraseIdx ht)
  | attempt hp hv =>
      intro u hu
      cases List.mem_append.mp hu with
      | inl hu =>
          -- what is left of a job that a look brought further is no reaper
          obtain ⟨job, hjob, rfl⟩ := Option.map_eq_some_iff.mp (Option.mem_toList.mp hu)
          subst hjob
          exact fun every due heq => absurd heq hp.ne_reap
      | inr hu =>
          rw [Scheduler.tasks_report] at hu
          have hold := (Scheduler.tasks_answered _ _ _ _ _).mem_iff.mp hu
          exact hg u (List.mem_cons_of_mem _ hold)
  | look hb hv hr =>
      exact hg.perm ((Scheduler.tasks_waitPoll _ _).trans
        ((Scheduler.tasks_answered _ _ _ _ _).cons _))
  | pause => exact hg
  | enough hs | finish | exit => exact fun u hu => hg u (List.mem_cons_of_mem _ hu)
  | sweep hv => exact hg.perm ((Scheduler.tasks_answered _ _ _ _ _).cons _)
  | sleep hn => exact hg.again (Scheduler.tasks_wait _ _ _)
  | giveWay => exact hg.again (Scheduler.tasks_giveWay _ _)

/-- What every act keeps, all of them keep. -/
theorem acts_invariant {P : Stage → Prop} (act : ∀ {g g'}, P g → Act g g' → P g')
    (h : Acts g g') (hg : P g) : P g' := by
  induction h with
  | refl => exact hg
  | tail _ h ih => exact act ih h

/-- What every act of the task that has the floor keeps, its whole turn keeps. -/
theorem turn_invariant {P : Stage → Prop} (own : ∀ {g g'}, P g → Own g g' → P g') {g g' : Stage}
    (h : Turn g g') (hg : P g) : P g' := by
  induction h with
  | refl => exact hg
  | tail _ hown ih => exact own ih hown

/-- A task that acts leaves the floor to nobody, or to what is left of itself. -/
theorem own_floor (h : Own g g') :
    ∀ u ∈ g'.running, ∃ t ∈ g.running, u.id = t.id ∧ u.isReaper = t.isReaper := by
  obtain ⟨hsome, hact⟩ := h
  cases hact with
  | call | bypass | start | arrange | resume => contradiction
  | @attempt s jobs t call reply p events next hp hv =>
      intro u hu
      obtain ⟨rest, hrest, rfl⟩ := Option.map_eq_some_iff.mp hu
      subst hrest
      refine ⟨t, rfl, rfl, ?_⟩
      rw [show t.isReaper = false from hp.isReaper t.id]
      cases rest with
      | reap every due => exact absurd rfl hp.ne_reap
      | _ => rfl
  | look | pause | enough | finish | exit | sleep | giveWay => exact fun u hu => nomatch hu
  | sweep => exact fun u hu => ⟨u, hu, rfl, rfl⟩

/-- Whatever happens, and however much time goes by, it stays as it is. -/
structure Kept (P : Stage → Prop) : Prop where
  act : ∀ {g g'}, P g → Act g g' → P g'
  elapse : ∀ {s jobs} (ms : Nat), P ⟨s, none, jobs⟩ →
    P ⟨{ s with now := s.now + ms }, none, jobs⟩

theorem kept_proper : Kept Proper := ⟨Proper.act, fun _ hg => hg⟩

/-- Nothing that was noted is taken back. -/
theorem journal_act {g g' : Stage} (h : Act g g') :
    g.scheduler.journal <:+ g'.scheduler.journal := by
  cases h with
  | call => rw [Scheduler.journal_answered]; exact List.suffix_cons _ _
  | bypass | exit => exact List.suffix_cons _ _
  | start | resume | pause | sleep | giveWay => exact List.suffix_refl _
  | arrange h => exact h.journal ▸ List.suffix_refl _
  | attempt =>
      rw [Scheduler.report_eq, Scheduler.journal_answered]
      exact (List.suffix_cons _ _).trans (List.suffix_append _ _)
  | look => rw [Scheduler.journal_waitPoll, Scheduler.journal_answered]; exact List.suffix_cons _ _
  | enough | finish => exact List.suffix_cons _ _
  | sweep =>
      rw [Scheduler.record, Scheduler.journal_answered]
      exact (List.suffix_cons _ _).trans (List.suffix_cons _ _)

theorem kept_journal {before : List Entry} : Kept fun g => before <:+ g.scheduler.journal where
  act := fun hg h => hg.trans (journal_act h)
  elapse := fun _ hg => hg

/-- A pipe that is closed stays closed. -/
theorem kept_closed : Kept fun g => g.scheduler.pipe.closed = true where
  act := fun {g g'} hg h => by
    have visited : ∀ {m : Moment} {call : Call} {reply : Reply} {p : Pipe},
        g.scheduler.pipe.visit m call = (some reply, p) → p.closed = true := by
      intro m call reply p hv
      have hclosed := Pipe.closed_visit hg m call
      rwa [hv] at hclosed
    cases h with
    | call hv => exact (congrArg Pipe.closed (Scheduler.pipe_answered _ _ _ _ _)).trans (visited hv)
    | bypass hv => exact visited hv
    | start | resume | pause | enough | finish | exit | sleep | giveWay => exact hg
    | arrange h => exact (congrArg Pipe.closed h.pipe).trans hg
    | attempt hp hv =>
        rw [Scheduler.report_eq]
        exact (congrArg Pipe.closed (Scheduler.pipe_answered _ _ _ _ _)).trans (visited hv)
    | look hb hv hr =>
        rw [Scheduler.pipe_waitPoll, Scheduler.pipe_answered]
        exact hg
    | sweep hv =>
        exact (congrArg Pipe.closed (Scheduler.pipe_answered _ _ _ _ _)).trans (visited hv)
  elapse := fun _ hg => hg

end Stage

/-! ## Moves of the executor -/

namespace Scheduler

variable {s s' : Scheduler} {jobs : List Job}

/-- Nothing has happened but that the clock was set or the pipe let go. -/
theorem Arranged.aside (s : Scheduler) (clock : UInt64) (held : Bool) :
    s.Arranged { s with clock := clock, held := held } :=
  ⟨rfl, rfl, rfl, rfl, fun _ hw => hw, fun _ ht => ht, fun _ ht => .inl ht, fun _ => .inl .rfl⟩

theorem Arranged.rejoin (s : Scheduler) :
    s.Arranged { s with ready := s.yielded ++ s.ready, yielded := [] } := by
  have hperm := s.tasks_rejoin
  exact ⟨rfl, rfl, rfl, rfl, fun _ hw => hw, fun _ ht => (List.not_mem_nil ht).elim,
    fun t ht => .inl (hperm.mem_iff.mp ht), fun id => .inl (hperm.filter _)⟩

theorem Arranged.fire (s : Scheduler) : s.Arranged s.fire := by
  have hperm := s.tasks_fire
  exact ⟨rfl, rfl, rfl, rfl, fun _ hw => (List.mem_filter.mp hw).1, fun _ ht => ht,
    fun t ht => .inl (hperm.mem_iff.mp ht), fun id => .inl (hperm.filter _)⟩

theorem Arranged.cancel (s : Scheduler) (p : Task → Bool)
    (h : ∀ id, (∀ t, TaskSession.isTask id t = true → p t = false) ∨
      ∀ t, TaskSession.isTask id t = true → p t = true) : s.Arranged (s.cancel p) := by
  refine ⟨rfl, rfl, rfl, rfl, fun _ hw => (List.mem_filter.mp hw).1,
    fun _ ht => (List.mem_filter.mp ht).1, fun t ht => ?_, fun id => ?_⟩
  · rw [tasks_cancel] at ht
    exact .inl (List.mem_filter.mp ht).1
  · unfold Scheduler.those
    rw [tasks_cancel, List.filter_filter]
    rcases h id with hkeep | hdrop
    · refine .inl (.of_eq (List.filter_congr fun t _ => ?_))
      cases ht : TaskSession.isTask id t
      · rfl
      · rw [hkeep t ht]; rfl
    · refine .inr (List.filter_eq_nil_iff.mpr fun t _ => ?_)
      cases ht : TaskSession.isTask id t
      · simp
      · simp [hdrop t ht]

/-- A reaper that waits between its sweeps appears. -/
theorem Arranged.spawnReaper (s : Scheduler) (id : Nat) {every : Duration}
    (he : every.isZero = false) : s.Arranged (s.spawn ⟨id, .reap every none⟩) := by
  refine ⟨rfl, rfl, rfl, rfl, fun _ hw => hw, fun _ ht => ht, fun t ht => ?_, fun n => .inl ?_⟩
  · rcases List.mem_cons.mp ((s.tasks_spawn _).mem_iff.mp ht) with rfl | ht
    · refine .inr fun every' due heq => ?_
      cases heq
      exact he
    · exact .inl ht
  · exact (s.tasks_spawn ⟨id, .reap every none⟩).filter _

/-- Whoever is resumed was ready, and runs. -/
theorem resume_eq_some {i : Nat} (h : s.move (.resume i) = some s') :
    ∃ t, s.ready[i]? = some t ∧ s' = { s with ready := s.ready.eraseIdx i }.runTask t := by
  simp only [move, Option.bind_eq_bind, Option.bind_eq_some_iff, Option.some.injEq] at h
  obtain ⟨t, ht, heq⟩ := h
  exact ⟨t, ht, heq.symm⟩

theorem acts_move {m : Move} (h : s.move m = some s') (hp : Stage.Proper ⟨s, none, jobs⟩) :
    Acts ⟨s, none, jobs⟩ ⟨s', none, jobs⟩ ∨
      ∃ ms, m = .elapse ms ∧ s' = { s with now := s.now + ms } := by
  cases m with
  | resume i =>
      obtain ⟨t, ht, rfl⟩ := resume_eq_some h
      have hproper : t.Proper := hp t (mem_tasks_of_ready ht)
      exact .inl (.head (.resume ht) (turn_runTask _ jobs hproper).acts)
  | rejoin =>
      obtain rfl := Option.some.inj h
      exact .inl (.single (.arrange (.rejoin s)))
  | fire =>
      obtain rfl := Option.some.inj h
      exact .inl (.single (.arrange (.fire s)))
  | elapse ms =>
      obtain rfl := Option.some.inj h
      exact .inr ⟨ms, rfl, rfl⟩

end Scheduler

/-! ## Moves of a session -/

namespace TaskSession

variable {c : PipeConfig} {config : StreamConfig} {s s' : TaskSession} {jobs : List Job}

theorem act_eq_some {step : Step} (h : s.move (.act step) = some s') :
    step.momentary = true ∧ s' = (s.act step).2 := by
  simp only [move] at h
  split at h
  · next hmom => exact ⟨hmom, (Option.some.inj h).symm⟩
  · contradiction

theorem exec_eq_some {m : Scheduler.Move} (h : s.move (.exec m) = some s') :
    ∃ scheduler, s.scheduler.move m = some scheduler ∧ s' = { s with scheduler := scheduler } := by
  obtain ⟨scheduler, hm, heq⟩ := Option.map_eq_some_iff.mp h
  exact ⟨scheduler, hm, heq.symm⟩

theorem start_eq_ok {clock : UInt64} (h : start c config clock = .ok s) :
    ∃ p, Pipe.create c = .ok p ∧ s = ⟨.ofPipe p config clock, 0, 0, none⟩ := by
  unfold start at h
  split at h
  · contradiction
  · next p hp => exact ⟨p, hp, (Except.ok.inj h).symm⟩

/-- A step that starts no task leaves their number alone. -/
theorem tasks_act {step : Step} (h : step.job? = none) : (s.act step).2.tasks = s.tasks := by
  cases step with
  | start job => contradiction
  | spawnReaper every =>
      unfold act
      dsimp only
      split <;> rfl
  | abortReaper =>
      unfold act
      dsimp only
      split <;> rfl
  | _ => rfl

/-- A step that starts no task of the script is one act, or none. -/
theorem acts_momentary {step : Step} (h : step.momentary = true) (hj : step.job? = none) :
    ReflGen Act ⟨s.scheduler, none, jobs⟩ ⟨(s.act step).2.scheduler, none, jobs⟩ := by
  cases step with
  | start | advance => contradiction
  | trySend sender data =>
      simp only [act, Scheduler.trySend_eq]
      exact .single (.call (Pipe.visit_send_never _ ⟨_, false⟩ sender data))
  | tryRecv reader =>
      simp only [act, Scheduler.tryRecv_eq]
      exact .single (.call (Pipe.visit_recv_never _ ⟨_, false⟩ reader _))
  | clear caller =>
      simp only [act, Scheduler.clear_eq]
      exact .single (.call rfl)
  | sweep =>
      simp only [act, Scheduler.sweep_eq]
      exact .single (.call rfl)
  | close =>
      exact .single (.call (show s.scheduler.pipe.visit ⟨_, false⟩ .close =
        (some .closed, s.scheduler.pipe.close) from rfl))
  | inner call =>
      simp only [act, Scheduler.inner]
      cases hv : s.scheduler.pipe.visit ⟨s.scheduler.clock, false⟩ call with
      | mk answer p =>
          cases answer with
          | some reply => exact .single (.bypass hv)
          | none => exact .refl
  | cancel id =>
      refine .single (.arrange (.cancel _ _ fun n => ?_))
      by_cases hn : n = id
      · subst hn
        exact .inr fun t ht => ht
      · refine .inl fun t ht => ?_
        simp only [isTask, Bool.and_eq_true, beq_iff_eq] at ht
        simp only [isTask, ht.2, beq_eq_false_iff_ne.mpr hn, Bool.and_false]
  | setClock now => exact .single (.arrange (.aside _ now _))
  | drop => exact .single (.arrange (.aside _ _ false))
  | spawnReaper every =>
      simp only [act]
      split
      · exact .refl
      · next he => exact .single (.arrange (.spawnReaper _ _ (by simpa using he)))
  | abortReaper =>
      simp only [act]
      split
      · exact .refl
      · next id hid =>
          refine .single (.arrange (.cancel _ _ fun n => .inl fun t ht => ?_))
          simp only [isTask, Bool.and_eq_true, Bool.not_eq_true'] at ht
          simp only [isReaper, ht.1, Bool.false_and]
  | look => exact .refl

theorem Step.job?_eq_some {step : Step} {job : Job} (h : step.job? = some job) :
    step = .start job := by
  unfold Step.job? at h
  split at h
  · rw [Option.some.inj h]
  · contradiction

/-- So is a step that starts one. -/
theorem acts_act {step : Step} (h : step.momentary = true) (hn : s.tasks = jobs.length) :
    ReflGen Act ⟨s.scheduler, none, jobs⟩
        ⟨(s.act step).2.scheduler, none, jobs ++ step.job?.toList⟩ ∧
      (s.act step).2.tasks = (jobs ++ step.job?.toList).length := by
  cases hj : step.job? with
  | none =>
      rw [Option.toList_none, List.append_nil]
      exact ⟨acts_momentary h hj, (tasks_act hj).trans hn⟩
  | some job =>
      obtain rfl := Step.job?_eq_some hj
      have hact : Act ⟨s.scheduler, none, jobs⟩
          ⟨s.scheduler.spawn ⟨jobs.length, job⟩, none, jobs ++ [job]⟩ :=
        .start (by simpa [Step.momentary] using h)
      rw [← hn] at hact
      refine ⟨.single hact, ?_⟩
      rw [Option.toList_some, List.length_append, ← hn]
      rfl

theorem moves_append (s : TaskSession) (ms ms' : List Move) :
    s.moves (ms ++ ms') = (s.moves ms).bind fun s => s.moves ms' := by
  induction ms generalizing s with
  | nil => rfl
  | cons m ms ih =>
      simp only [List.cons_append, moves, Option.bind_eq_bind, Option.bind_assoc, ih]

/-- A move keeps what acts and time keep. -/
theorem kept_move {P : Stage → Prop} (hP : Kept P) {m : Move} (h : s.move m = some s')
    (hn : s.tasks = jobs.length) (hp : Stage.Proper ⟨s.scheduler, none, jobs⟩)
    (hs : P ⟨s.scheduler, none, jobs⟩) :
    P ⟨s'.scheduler, none, jobs ++ m.job?.toList⟩ ∧ s'.tasks = (jobs ++ m.job?.toList).length := by
  cases m with
  | act step =>
      obtain ⟨hmom, rfl⟩ := act_eq_some h
      obtain ⟨hacts, hlength⟩ := acts_act hmom hn
      exact ⟨acts_invariant hP.act hacts.to_reflTransGen hs, hlength⟩
  | exec m =>
      obtain ⟨scheduler, hm, rfl⟩ := exec_eq_some h
      simp only [Move.job?, Option.toList_none, List.append_nil]
      refine ⟨?_, hn⟩
      cases Scheduler.acts_move hm hp with
      | inl hacts => exact acts_invariant hP.act hacts hs
      | inr helapse =>
          obtain ⟨ms, -, rfl⟩ := helapse
          exact hP.elapse ms hs

/-- What every move keeps is kept from then on. -/
theorem moves_invariant {P : List Job → TaskSession → Prop} {ms : List Move}
    (move : ∀ {jobs s m s'}, m ∈ ms → P jobs s → s.move m = some s' →
      P (jobs ++ m.job?.toList) s')
    (h : s.moves ms = some s') (hs : P jobs s) :
    P (jobs ++ ms.filterMap Move.job?) s' := by
  induction ms generalizing s jobs with
  | nil =>
      obtain rfl := Option.some.inj h
      rwa [List.filterMap_nil, List.append_nil]
  | cons m ms ih =>
      simp only [moves, Option.bind_eq_bind, Option.bind_eq_some_iff] at h
      obtain ⟨s₁, hm, h⟩ := h
      have hjobs : (m :: ms).filterMap Move.job? = m.job?.toList ++ ms.filterMap Move.job? := by
        rw [List.filterMap_cons]
        cases m.job? <;> rfl
      rw [hjobs, ← List.append_assoc]
      exact ih (fun hmem => move (List.mem_cons_of_mem _ hmem)) h (move List.mem_cons_self hs hm)

theorem kept_moves {P : Stage → Prop} (hP : Kept P) {ms : List Move} (h : s.moves ms = some s')
    (hn : s.tasks = jobs.length) (hp : Stage.Proper ⟨s.scheduler, none, jobs⟩)
    (hs : P ⟨s.scheduler, none, jobs⟩) :
    P ⟨s'.scheduler, none, jobs ++ ms.filterMap Move.job?⟩ := by
  have hkept := moves_invariant
    (P := fun jobs s => s.tasks = jobs.length ∧ Stage.Proper ⟨s.scheduler, none, jobs⟩ ∧
      P ⟨s.scheduler, none, jobs⟩)
    (fun _ ⟨hn, hp, hs⟩ hm => ⟨(kept_move hP hm hn hp hs).2, (kept_move kept_proper hm hn hp hp).1,
      (kept_move hP hm hn hp hs).1⟩) h ⟨hn, hp, hs⟩
  exact hkept.2.2

/-- Whatever holds at the start, and is kept, holds of every session that moves can lead to. -/
theorem Reachable.invariant (h : s.Reachable c config jobs) {P : Stage → Prop}
    (start : ∀ p clock, Pipe.create c = .ok p → P ⟨.ofPipe p config clock, none, []⟩)
    (hP : Kept P) : P ⟨s.scheduler, none, jobs⟩ := by
  obtain ⟨clock, first, ms, hfirst, hms, rfl⟩ := h
  obtain ⟨p, hp, rfl⟩ := start_eq_ok hfirst
  have hproper : Stage.Proper ⟨Scheduler.ofPipe p config clock, none, []⟩ :=
    fun t ht => (List.not_mem_nil ht).elim
  exact kept_moves hP hms (by rfl) hproper (start p clock hp)

theorem Reachable.after_move {m : Move} (h : s.Reachable c config jobs) (hm : s.move m = some s') :
    s'.Reachable c config (jobs ++ m.job?.toList) := by
  obtain ⟨clock, first, ms, hfirst, hms, rfl⟩ := h
  refine ⟨clock, first, ms ++ [m], hfirst, ?_, ?_⟩
  · rw [moves_append, hms]
    simp only [Option.bind_some, moves, hm, Option.bind_eq_bind]
  · rw [List.filterMap_append, List.filterMap_cons]
    cases m.job? <;> rfl

theorem Reachable.proper (h : s.Reachable c config jobs) :
    Stage.Proper ⟨s.scheduler, none, jobs⟩ :=
  h.invariant (fun _ _ _ _ ht => (List.not_mem_nil ht).elim) kept_proper

/-- Sessions can be reasoned about move by move. -/
theorem Reachable.along (h : s.Reachable c config jobs) {P : List Job → TaskSession → Prop}
    {ms : List Move}
    (move : ∀ {jobs s m s'}, m ∈ ms → s.Reachable c config jobs → P jobs s → s.move m = some s' →
      P (jobs ++ m.job?.toList) s')
    (hms : s.moves ms = some s') (hs : P jobs s) :
    P (jobs ++ ms.filterMap Move.job?) s' :=
  (moves_invariant (P := fun jobs s => s.Reachable c config jobs ∧ P jobs s)
    (fun hmem ⟨h, hs⟩ hm => ⟨h.after_move hm, move hmem h hs hm⟩) hms ⟨h, hs⟩).2

theorem Reachable.after_moves {ms : List Move} (h : s.Reachable c config jobs)
    (hms : s.moves ms = some s') : s'.Reachable c config (jobs ++ ms.filterMap Move.job?) :=
  h.along (P := fun jobs s => s.Reachable c config jobs) (fun _ _ h hm => h.after_move hm) hms h

/-- What holds at the start and is kept by every move holds of every session. -/
theorem Reachable.induction (h : s.Reachable c config jobs) {P : List Job → TaskSession → Prop}
    (start : ∀ clock first, TaskSession.start c config clock = .ok first → P [] first)
    (move : ∀ {jobs s m s'}, s.Reachable c config jobs → P jobs s → s.move m = some s' →
      P (jobs ++ m.job?.toList) s') : P jobs s := by
  obtain ⟨clock, first, ms, hfirst, hms, rfl⟩ := h
  have hreach : first.Reachable c config [] := ⟨clock, first, [], hfirst, rfl, rfl⟩
  simpa using hreach.along (fun _ => move) hms (start clock first hfirst)

/-- Tasks are numbered as they are started. -/
theorem Reachable.length (h : s.Reachable c config jobs) : s.tasks = jobs.length := by
  refine h.induction (P := fun jobs s => s.tasks = jobs.length) (fun clock first hfirst => ?_)
    fun hs hn hm => (kept_move kept_proper hm hn hs.proper hs.proper).2
  obtain ⟨p, -, rfl⟩ := start_eq_ok hfirst
  rfl

end TaskSession

end MessagePipe
