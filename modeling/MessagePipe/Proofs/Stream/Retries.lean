import MessagePipe.Proofs.Stream.Attention
import MessagePipe.Proofs.Stream.Presence

/-!
# MessagePipe.Proofs.Stream.Retries

Who is signalled tries again.  A sending task that does not wait goes on to make
its call before it waits again (`Stage.kept_roused`), and unless it is cancelled
nothing but its turn makes it go away.  So when no task could go on any more it
has made its call (`TaskSession.Reachable.called`).
-/

namespace MessagePipe

open Stage

namespace Scheduler

/-- Since `before` was all that had happened, the task of number `id` has made the call. -/
def CalledSince (before : List Entry) (id : Nat) (call : Call) (s : Scheduler) : Prop :=
  ∃ later, s.journal = later ++ before ∧
    ∃ time clock reply, .visited time (.task id) clock call reply ∈ later

variable {before : List Entry} {id : Nat} {call : Call} {s s' : Scheduler}

theorem CalledSince.mono (h : s.CalledSince before id call) (hj : s.journal <:+ s'.journal) :
    s'.CalledSince before id call := by
  obtain ⟨later, hlater, time, clock, reply, hmem⟩ := h
  obtain ⟨new, hnew⟩ := hj
  exact ⟨new ++ later, by rw [← hnew, hlater, List.append_assoc], time, clock, reply,
    List.mem_append_right _ hmem⟩

/-- A call that is noted after `before` was made since. -/
theorem calledSince_visited {time : Nat} {clock : UInt64} {reply : Reply}
    (h : .visited time (.task id) clock call reply :: s.journal <:+ s'.journal)
    (hbefore : before <:+ s.journal) : s'.CalledSince before id call := by
  obtain ⟨new, hnew⟩ := h
  obtain ⟨old, hold⟩ := hbefore
  refine ⟨new ++ .visited time (.task id) clock call reply :: old, ?_, time, clock, reply, by simp⟩
  rw [← hnew, ← hold]
  simp

/-- A sender that runs makes its call. -/
theorem journal_runTask_send (s : Scheduler) (id : Nat) (sender : Credentials) (data : Bytes) :
    .visited s.now (.task id) s.clock (.send sender data .never)
        (.sent (s.pipe.trySend sender data s.clock).1) :: s.journal <:+
      (s.runTask ⟨id, .send sender data⟩).journal := by
  simp only [runTask, trySend_eq]
  split
  · next s' heq =>
      obtain rfl := (Prod.mk.inj heq).2
      simp only [journal_waitPoll, journal_answered, List.suffix_refl]
  · next result s' _ heq =>
      obtain rfl := (Prod.mk.inj heq).2
      rw [record, journal_answered]
      exact List.suffix_cons _ _

end Scheduler

namespace Stage

open Scheduler

/-- A sender has made its call since, or at least it does not wait. -/
structure Roused (before : List Entry) (id : Nat) (sender : Credentials) (data : Bytes)
    (g : Stage) : Prop where
  journal : before <:+ g.scheduler.journal
  called : g.scheduler.CalledSince before id (.send sender data .never) ∨
    ∀ w ∈ g.scheduler.waiting, w.task ≠ ⟨id, .send sender data⟩

/-- Before it waits again a sender makes its call. -/
theorem kept_roused {before : List Entry} {id : Nat} {sender : Credentials} {data : Bytes} :
    Kept (Roused before id sender data) where
  act := fun {g g'} hg h => by
    refine ⟨hg.journal.trans (journal_act h), ?_⟩
    cases hg.called with
    | inl hcalled => exact .inl (hcalled.mono (journal_act h))
    | inr hwaits =>
        cases h with
        | call hv => exact .inr fun w hw => hwaits w (waiting_answered _ _ _ _ _ hw).1
        | bypass | start | resume | pause | enough | finish | exit | giveWay => exact .inr hwaits
        | arrange h => exact .inr fun w hw => hwaits w (h.waiting w hw)
        | attempt hp hv =>
            rw [report_eq]
            exact .inr fun w hw => hwaits w (waiting_answered _ _ _ _ _ hw).1
        | @look s jobs t call reply side hb hv hr =>
            by_cases ht : t = ⟨id, .send sender data⟩
            · subst ht
              obtain ⟨rfl⟩ : call = .send sender data .never := by cases hb; rfl
              have hjournal : .visited s.now (.task id) s.clock (.send sender data .never) reply ::
                  s.journal <:+ ((s.answered (.task id) (.send sender data .never) reply
                    s.pipe).waitPoll ⟨id, .send sender data⟩).journal := by
                simp only [journal_waitPoll, journal_answered, List.suffix_refl]
              exact .inl (calledSince_visited hjournal hg.journal)
            · right
              unfold waitPoll
              split
              · exact fun w hw => hwaits w (waiting_answered _ _ _ _ _ hw).1
              · intro w hw
                cases List.mem_append.mp hw with
                | inl hw => exact hwaits w (waiting_answered _ _ _ _ _ hw).1
                | inr hw => rw [List.mem_singleton.mp hw]; exact ht
        | sweep hv => exact .inr fun w hw => hwaits w (waiting_answered _ _ _ _ _ hw).1
        | sleep hn =>
            refine .inr fun w hw => ?_
            cases List.mem_append.mp hw with
            | inl hw => exact hwaits w hw
            | inr hw =>
                rw [List.mem_singleton.mp hw]
                exact fun heq => nomatch congrArg Task.job heq
  elapse := fun _ hg => ⟨hg.journal, hg.called⟩

end Stage

namespace TaskSession

variable {c : PipeConfig} {config : StreamConfig} {s s' : TaskSession} {jobs : List Job}

/-- A sender that does not wait, and is not cancelled, has made its call by the time that no task
could go on. -/
theorem Reachable.called (h : s.Reachable c config jobs) {id : Nat} {sender : Credentials}
    {data : Bytes} (ht : (⟨id, .send sender data⟩ : Task) ∈ s.scheduler.tasks)
    (hw : ∀ w ∈ s.scheduler.waiting, w.task ≠ ⟨id, .send sender data⟩) {ms : List Move}
    (hms : s.moves ms = some s') (hcancel : .act (.cancel id) ∉ ms)
    (hq : s'.scheduler.Quiescent) :
    s'.scheduler.CalledSince s.scheduler.journal id (.send sender data .never) := by
  have hend := h.along
    (P := fun jobs s₁ => Roused s.scheduler.journal id sender data ⟨s₁.scheduler, none, jobs⟩ ∧
      (s₁.scheduler.CalledSince s.scheduler.journal id (.send sender data .never) ∨
        (⟨id, .send sender data⟩ : Task) ∈ s₁.scheduler.tasks))
    (fun {jobs s₁ m s₂} hmem hs ⟨hroused, hthere⟩ hm => ?_) hms
    ⟨⟨List.suffix_refl _, .inr hw⟩, .inr ht⟩
  · obtain ⟨hroused, hcalled | hthere⟩ := hend
    · exact hcalled
    · refine hroused.called.resolve_right fun hnobody => ?_
      obtain ⟨w, hwaits, hown⟩ := hq.waits hthere (Option.some_ne_none Side.writable)
      exact hnobody w hwaits hown
  · have hnext := (kept_move kept_roused hm hs.length hs.proper hroused).1
    refine ⟨hnext, ?_⟩
    cases hthere with
    | inl hcalled =>
        have hjournal := kept_move kept_journal hm hs.length hs.proper (List.suffix_refl _)
        exact .inl (hcalled.mono hjournal.1)
    | inr hthere =>
        have hkeep : m ≠ .act (.cancel id) := fun heq => hcancel (heq ▸ hmem)
        rcases mem_tasks_move hm hthere (fun _ => hkeep) (fun hr => by contradiction) with
          hstays | ⟨i, rfl, hi⟩
        · exact .inr hstays
        · obtain ⟨scheduler, hrun, rfl⟩ := exec_eq_some hm
          obtain ⟨t, ht, rfl⟩ := Scheduler.resume_eq_some hrun
          obtain rfl := Option.some.inj (hi.symm.trans ht)
          exact .inl (Scheduler.calledSince_visited
            (Scheduler.journal_runTask_send _ id sender data) hroused.journal)

end TaskSession

end MessagePipe
