import MessagePipe.Proofs.Stream.Moves

/-!
# MessagePipe.Proofs.Stream.Presence

Tasks do not get lost.  A task that runs finishes or is put back where it waits
or gives way, and nothing that happens to the others makes it vanish: it is
still there after a move unless it was cancelled or had its turn
(`TaskSession.mem_tasks_move`).
-/

namespace MessagePipe

namespace Scheduler

variable {s s' : Scheduler} {t u : Task}

/-! ## Runs of tasks -/

/-- A sequence of messages that has run is finished, or goes on under its number. -/
theorem tasks_nextItem (s : Scheduler) (id : Nat) (reader : Credentials) (left : Nat) :
    ∃ next : Option Task, (s.nextItem id reader left).tasks.Perm (next.toList ++ s.tasks) ∧
      ∀ u ∈ next, u.id = id ∧ u.isReaper = false := by
  cases left with
  | zero => exact ⟨none, .rfl, by simp⟩
  | succ left =>
      have hcall := s.tasks_answered (.task id) (.recv reader s.pipe.freshBuffer .never)
        (.received (s.pipe.tryRecv reader s.pipe.freshBuffer).1
          (s.pipe.tryRecv reader s.pipe.freshBuffer).2.1)
        (s.pipe.tryRecv reader s.pipe.freshBuffer).2.2
      simp only [nextItem, tryRecv_eq]
      split
      · next message s' heq =>
          obtain rfl := (Prod.mk.inj heq).2
          exact ⟨some ⟨id, .messages reader left⟩, hcall.cons _, by simp [Task.isReaper]⟩
      · next s' heq =>
          obtain rfl := (Prod.mk.inj heq).2
          exact ⟨some _, (tasks_waitPoll _ _).trans (hcall.cons _), by simp [Task.isReaper]⟩
      · next s' heq =>
          obtain rfl := (Prod.mk.inj heq).2
          exact ⟨none, hcall, by simp⟩
      · next e s' _ _ heq =>
          obtain rfl := (Prod.mk.inj heq).2
          exact ⟨some ⟨id, .failed left⟩, hcall.cons _, by simp [Task.isReaper]⟩

theorem tasks_sweepTicks (id ticks : Nat) (s : Scheduler) :
    (sweepTicks id ticks s).tasks.Perm s.tasks := by
  induction ticks generalizing s with
  | zero => exact .rfl
  | succ ticks ih =>
      have hsweep : (s.sweep (.reaper id)).2.tasks.Perm s.tasks := by
        rw [sweep_eq]
        exact tasks_answered _ _ _ _ _
      exact (ih _).trans hsweep

/-- A task that has run is finished, or goes on under its number, and the others are still
there. -/
theorem tasks_runTask (s : Scheduler) (t : Task) :
    ∃ next : Option Task, (s.runTask t).tasks.Perm (next.toList ++ s.tasks) ∧
      ∀ u ∈ next, u.id = t.id ∧ u.isReaper = t.isReaper := by
  obtain ⟨id, job⟩ := t
  cases job with
  | send sender data =>
      simp only [runTask, trySend_eq]
      split
      · next s' heq =>
          obtain rfl := (Prod.mk.inj heq).2
          exact ⟨some _, (tasks_waitPoll _ _).trans ((tasks_answered _ _ _ _ _).cons _), by simp⟩
      · next result s' _ heq =>
          obtain rfl := (Prod.mk.inj heq).2
          exact ⟨none, tasks_answered _ _ _ _ _, by simp⟩
  | recv reader =>
      simp only [runTask, tryRecv_eq]
      split
      · next s' heq =>
          obtain rfl := (Prod.mk.inj heq).2
          exact ⟨some _, (tasks_waitPoll _ _).trans ((tasks_answered _ _ _ _ _).cons _), by simp⟩
      · next result s' _ heq =>
          obtain rfl := (Prod.mk.inj heq).2
          exact ⟨none, tasks_answered _ _ _ _ _, by simp⟩
  | messages reader left => exact s.tasks_nextItem id reader left
  | failed left => cases left <;> exact ⟨none, .rfl, by simp⟩
  | reap every due =>
      cases due with
      | none => exact ⟨some _, tasks_wait _ _ _, by simp [Task.isReaper]⟩
      | some due =>
          simp only [runTask, reap]
          split
          · exact ⟨some _, tasks_wait _ _ _, by simp [Task.isReaper]⟩
          split
          · exact ⟨none, .rfl, by simp⟩
          split
          · exact ⟨some _, (tasks_giveWay _ _).trans ((tasks_sweepTicks _ _ _).cons _),
              by simp [Task.isReaper]⟩
          · exact ⟨some _, (tasks_wait _ _ _).trans ((tasks_sweepTicks _ _ _).cons _),
              by simp [Task.isReaper]⟩

/-! ## Moves -/

/-- Whatever an executor does, a task is still there, or it is its turn. -/
theorem mem_tasks_move {m : Move} (h : s.move m = some s') (ht : t ∈ s.tasks) :
    t ∈ s'.tasks ∨ ∃ i, m = .resume i ∧ s.ready[i]? = some t := by
  cases m with
  | resume i =>
      obtain ⟨u, hu, rfl⟩ := resume_eq_some h
      obtain ⟨next, hperm, -⟩ := tasks_runTask { s with ready := s.ready.eraseIdx i } u
      rcases List.mem_cons.mp ((tasks_eraseIdx hu).mem_iff.mpr ht) with rfl | hrest
      · exact .inr ⟨i, rfl, hu⟩
      · exact .inl (hperm.mem_iff.mpr (List.mem_append_right _ hrest))
  | rejoin =>
      obtain rfl := Option.some.inj h
      exact .inl (s.tasks_rejoin.mem_iff.mpr ht)
  | fire =>
      obtain rfl := Option.some.inj h
      exact .inl (s.tasks_fire.mem_iff.mpr ht)
  | elapse ms =>
      obtain rfl := Option.some.inj h
      exact .inl ht

theorem mem_tasks_cancel {p : Task → Bool} (ht : t ∈ s.tasks) (hp : p t = false) :
    t ∈ (s.cancel p).tasks := by
  rw [tasks_cancel]
  exact List.mem_filter.mpr ⟨ht, by rw [hp]; rfl⟩

end Scheduler

namespace TaskSession

variable {s s' : TaskSession} {t : Task}

/-- No step of the script takes a task away but those that are there for it. -/
theorem mem_tasks_act {step : Step} (hm : step.momentary = true) (ht : t ∈ s.scheduler.tasks)
    (hcancel : t.isReaper = false → step ≠ .cancel t.id)
    (habort : t.isReaper = true → step ≠ .abortReaper) :
    t ∈ (s.act step).2.scheduler.tasks := by
  have answered := fun agent call reply p =>
    (s.scheduler.tasks_answered agent call reply p).mem_iff.mpr ht
  cases step with
  | trySend sender data =>
      simp only [act, Scheduler.trySend_eq]
      exact answered _ _ _ _
  | tryRecv reader =>
      simp only [act, Scheduler.tryRecv_eq]
      exact answered _ _ _ _
  | clear caller =>
      simp only [act, Scheduler.clear_eq]
      exact answered _ _ _ _
  | sweep =>
      simp only [act, Scheduler.sweep_eq]
      exact answered _ _ _ _
  | close => exact answered .direct .close .closed s.scheduler.pipe.close
  | inner call =>
      simp only [act, Scheduler.inner]
      split <;> exact ht
  | start job => exact (s.scheduler.tasks_spawn _).mem_iff.mpr (List.mem_cons_of_mem _ ht)
  | cancel id =>
      refine Scheduler.mem_tasks_cancel ht ?_
      by_contra hid
      simp only [Bool.not_eq_false, isTask, Bool.and_eq_true, Bool.not_eq_true', beq_iff_eq] at hid
      exact hcancel hid.1 (congrArg Step.cancel hid.2.symm)
  | spawnReaper every =>
      simp only [act]
      split
      · exact ht
      · exact (s.scheduler.tasks_spawn _).mem_iff.mpr (List.mem_cons_of_mem _ ht)
  | abortReaper =>
      simp only [act]
      split
      · exact ht
      · refine Scheduler.mem_tasks_cancel ht ?_
        by_contra hid
        simp only [Bool.not_eq_false, isReaper, Bool.and_eq_true] at hid
        exact habort hid.1 rfl
  | setClock | drop | look => exact ht
  | advance ms => contradiction

/-- After any move a task is still there, unless it was cancelled or it is its turn. -/
theorem mem_tasks_move {m : Move} (h : s.move m = some s') (ht : t ∈ s.scheduler.tasks)
    (hcancel : t.isReaper = false → m ≠ .act (.cancel t.id))
    (habort : t.isReaper = true → m ≠ .act .abortReaper) :
    t ∈ s'.scheduler.tasks ∨ ∃ i, m = .exec (.resume i) ∧ s.scheduler.ready[i]? = some t := by
  cases m with
  | act step =>
      obtain ⟨hm, rfl⟩ := act_eq_some h
      exact .inl (mem_tasks_act hm ht (fun hr heq => hcancel hr (congrArg _ heq))
        fun hr heq => habort hr (congrArg _ heq))
  | exec m =>
      obtain ⟨scheduler, hm, rfl⟩ := exec_eq_some h
      rcases Scheduler.mem_tasks_move hm ht with hstays | ⟨i, rfl, hi⟩
      · exact .inl hstays
      · exact .inr ⟨i, rfl, hi⟩

end TaskSession

end MessagePipe
