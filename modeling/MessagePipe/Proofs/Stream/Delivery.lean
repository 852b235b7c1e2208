import MessagePipe.Proofs.Stream.Accounts

/-!
# MessagePipe.Proofs.Stream.Delivery

Every message that is sent through a stream, or past it, is delivered once, or
it expires, is cleared, or is still queued.  The calls of a session, whoever
made them, are a history that the plain pipe explains (`Scheduler.Told`), so
what became of the messages is known (`PlainPipe.Explains.fates`); and who
received what is told by the accounts of the tasks and by the answers to the
script:

* `TaskSession.accounted_act` — what the script is told is what its
  calls did;
* `TaskSession.Reachable.exactly_once` — all of it together, however tasks are
  resumed and cancelled.
-/

namespace MessagePipe

/-! ## Histories of schedulers -/

namespace Entry

/-- The call that an entry tells of. -/
def visit? : Entry → Option Visit
  | visited _ _ clock call reply => some ⟨none, call, clock, reply⟩
  | _ => none

/-- Who received what, if the entry tells of a receive that succeeded. -/
def receipt? : Entry → Option (Agent × Bytes)
  | visited _ agent clock call reply =>
    (Visit.delivered? ⟨none, call, clock, reply⟩).map (agent, ·)
  | _ => none

end Entry

namespace Scheduler

/-- The finished calls on the pipe, in order. -/
def history (s : Scheduler) : List Visit := s.journal.reverse.filterMap Entry.visit?

/-- Who received what, in order. -/
def receipts (s : Scheduler) : List (Agent × Bytes) := s.journal.reverse.filterMap Entry.receipt?

variable {s s' : Scheduler} {start : PlainPipe}

theorem history_visited {time : Nat} {agent : Agent} {clock : UInt64} {call : Call} {reply : Reply}
    (h : s'.journal = .visited time agent clock call reply :: s.journal) :
    s'.history = s.history ++ [⟨none, call, clock, reply⟩] := by
  simp only [history, h, List.reverse_cons, List.filterMap_append]
  rfl

theorem receipts_visited {time : Nat} {agent : Agent} {clock : UInt64} {call : Call} {reply : Reply}
    (h : s'.journal = .visited time agent clock call reply :: s.journal) :
    s'.receipts = s.receipts ++
      ((Visit.delivered? ⟨none, call, clock, reply⟩).map (agent, ·)).toList := by
  simp only [receipts, h, List.reverse_cons, List.filterMap_append, List.filterMap_cons,
    List.filterMap_nil, Entry.receipt?]
  cases Option.map _ _ <;> rfl

/-- What was received is what calls returned. -/
theorem map_snd_receipts (s : Scheduler) :
    s.receipts.map Prod.snd = History.delivered s.history := by
  simp only [receipts, history, History.delivered, List.map_filterMap, List.filterMap_filterMap]
  congr 1
  funext e
  cases e with
  | visited time agent clock call reply =>
      simp only [Entry.receipt?, Entry.visit?, Option.map_map, Option.bind_some]
      cases Visit.delivered? ⟨none, call, clock, reply⟩ <;> rfl
  | _ => rfl

/-- A task received what its account says. -/
theorem delivered_account (s : Scheduler) (id : Nat) :
    (s.account id).delivered =
      s.receipts.filterMap fun r => if r.1 = .task id then some r.2 else none := by
  simp only [account, Account.of, receipts, History.delivered, List.filterMap_filterMap]
  congr 1
  funext e
  cases e with
  | visited time agent clock call reply =>
      simp only [Entry.receipt?, Entry.visitOf?]
      by_cases h : agent = .task id
      · simp only [h, if_true, Option.bind_some]
        cases Visit.delivered? ⟨none, call, clock, reply⟩ <;> simp
      · simp only [h, if_false, Option.bind_none]
        cases Visit.delivered? ⟨none, call, clock, reply⟩ <;> simp [h]
  | _ => rfl

/-- The plain pipe explains all that happened up to now. -/
structure Told (start : PlainPipe) (s : Scheduler) : Prop where
  ring : s.pipe.ring.WellFormed
  explained : start.Explains s.history s.pipe.plain
  /-- Reapers receive nothing. -/
  receivers : ∀ r ∈ s.receipts, ∀ id, r.1 ≠ .reaper id

namespace Told

theorem visited (h : s.Told start) {m : Moment} {agent : Agent} {call : Call} {reply : Reply}
    {p : Pipe} {time : Nat} (hv : s.pipe.visit m call = (some reply, p)) (hpipe : s'.pipe = p)
    (hagent : (∀ id, agent ≠ .reaper id) ∨ call = .sweep)
    (hjournal : s'.journal = .visited time agent m.now call reply :: s.journal) :
    s'.Told start where
  ring := by
    obtain rfl : (s.pipe.visit m call).2 = p := congrArg Prod.snd hv
    rw [hpipe]
    exact Pipe.wellFormed_visit h.ring m call
  explained := by
    rw [history_visited hjournal, hpipe]
    have hanswer := Pipe.plain_visit h.ring (congrArg Prod.fst hv)
    rw [hv] at hanswer
    exact h.explained.concat hanswer
  receivers := by
    rw [receipts_visited hjournal]
    intro r hr id
    cases List.mem_append.mp hr with
    | inl hr => exact h.receivers r hr id
    | inr hr =>
        obtain ⟨message, hmessage, rfl⟩ := Option.map_eq_some_iff.mp (Option.mem_toList.mp hr)
        cases hagent with
        | inl hagent => exact hagent id
        | inr hsweep =>
            subst hsweep
            obtain rfl := Option.some.inj (congrArg Prod.fst hv)
            contradiction

theorem same (h : s.Told start) (hpipe : s'.pipe = s.pipe)
    (hhistory : s'.history = s.history) (hreceipts : s'.receipts = s.receipts) :
    s'.Told start where
  ring := by rw [hpipe]; exact h.ring
  explained := by rw [hpipe, hhistory]; exact h.explained
  receivers := by rw [hreceipts]; exact h.receivers

theorem report (h : s.Told start) (id : Nat) (events : List Event) :
    (s.report id events).Told start := by
  have hvisits : (events.map (Entry.event id)).filterMap Entry.visit? = [] := by
    rw [List.filterMap_map]
    exact List.filterMap_eq_nil_iff.mpr fun e _ => rfl
  have hreceipts : (events.map (Entry.event id)).filterMap Entry.receipt? = [] := by
    rw [List.filterMap_map]
    exact List.filterMap_eq_nil_iff.mpr fun e _ => rfl
  refine h.same (by rw [report_eq]) ?_ ?_ <;> rw [report_eq]
  · simp only [history, List.reverse_append, List.reverse_reverse, List.filterMap_append, hvisits,
      List.append_nil]
  · simp only [receipts, List.reverse_append, List.reverse_reverse, List.filterMap_append,
      hreceipts, List.append_nil]

theorem waitPoll (h : s.Told start) (t : Task) : (s.waitPoll t).Told start := by
  unfold Scheduler.waitPoll
  split <;> exact h.same rfl rfl rfl

/-- What tells of no call. -/
theorem aside (h : s.Told start) {e : Entry} (hvisit : e.visit? = none)
    (hreceipt : e.receipt? = none) : (s.record e).Told start := by
  refine h.same rfl ?_ ?_
  · simp only [history, record, List.reverse_cons, List.filterMap_append, List.filterMap_cons,
      hvisit, List.filterMap_nil, List.append_nil]
  · simp only [receipts, record, List.reverse_cons, List.filterMap_append, List.filterMap_cons,
      hreceipt, List.filterMap_nil, List.append_nil]

end Told

end Scheduler

/-- Every act goes on with the history, or leaves it alone. -/
theorem Stage.kept_told {start : PlainPipe} : Kept fun g => g.scheduler.Told start where
  act := fun {g g'} hg h => by
    cases h with
    | call hv =>
        exact hg.visited hv (Scheduler.pipe_answered _ _ _ _ _) (.inl (by simp))
          (Scheduler.journal_answered _ _ _ _ _)
    | bypass hv =>
        have hinner : ∀ id, Agent.inner ≠ .reaper id := by simp
        exact hg.visited hv rfl (.inl hinner) rfl
    | start | resume | pause | giveWay | sleep => exact hg.same rfl rfl rfl
    | arrange h =>
        refine hg.same h.pipe ?_ ?_
        · rw [Scheduler.history, h.journal, ← Scheduler.history]
        · rw [Scheduler.receipts, h.journal, ← Scheduler.receipts]
    | attempt hp hv =>
        exact (hg.visited hv (Scheduler.pipe_answered _ _ _ _ _) (.inl (by simp))
          (Scheduler.journal_answered _ _ _ _ _)).report _ _
    | look hb hv hr =>
        exact (hg.visited hv (Scheduler.pipe_answered _ _ _ _ _) (.inl (by simp))
          (Scheduler.journal_answered _ _ _ _ _)).waitPoll _
    | enough hs => exact hg.aside rfl rfl
    | finish => exact hg.report _ _
    | sweep hv =>
        exact (hg.visited hv (Scheduler.pipe_answered _ _ _ _ _) (.inr rfl)
          (Scheduler.journal_answered _ _ _ _ _)).aside rfl rfl
    | exit => exact hg.aside rfl rfl
  elapse := fun _ hg => hg.same rfl rfl rfl

/-! ## What the script is told -/

namespace TaskSession

/-- Who makes the calls of a step. -/
def Step.agent : Step → Agent
  | .inner _ => .inner
  | _ => .direct

/-- The message that a step pushed, by its answer. -/
def Step.pushed (clock : UInt64) : Step → Answer → Option Message
  | .trySend sender data, .sent (.ok _) => some ⟨data, sender, clock⟩
  | .inner (.send sender data _), .reply (.sent (.ok _)) => some ⟨data, sender, clock⟩
  | _, _ => none

/-- The message that an answer hands over. -/
def Answer.delivered? : Answer → Option Bytes
  | .received (.ok message) => some message
  | .reply (.received (.ok n) out) => some (out.take n)
  | _ => none

/-- What a step did to the history is what its answer says. -/
structure Step.Accounted (s s' : Scheduler) (step : Step) (answer : Answer) : Prop where
  receipts : s'.receipts = s.receipts ++ (answer.delivered?.map (step.agent, ·)).toList
  sent : History.sent s'.history =
    History.sent s.history ++ (step.pushed s.clock answer).toList

variable {c : PipeConfig} {config : StreamConfig} {s : TaskSession} {jobs : List Job}

/-- A step that makes a call. -/
theorem Step.accounted_visited {s s' : Scheduler} {step : Step} {answer : Answer} {call : Call}
    {reply : Reply} {time : Nat}
    (hjournal : s'.journal = .visited time step.agent s.clock call reply :: s.journal)
    (hdelivered : Visit.delivered? ⟨none, call, s.clock, reply⟩ = answer.delivered?)
    (hsent : Visit.sent? ⟨none, call, s.clock, reply⟩ = step.pushed s.clock answer) :
    step.Accounted s s' answer where
  receipts := by rw [Scheduler.receipts_visited hjournal, hdelivered]
  sent := by
    rw [Scheduler.history_visited hjournal, History.sent, List.filterMap_append, ← History.sent]
    congr 1
    rw [← hsent]
    simp only [List.filterMap_cons, List.filterMap_nil]
    cases Visit.sent? _ <;> rfl

/-- A step that makes none. -/
theorem Step.accounted_same {s s' : Scheduler} {step : Step} {answer : Answer}
    (hjournal : s'.journal = s.journal) (hdelivered : answer.delivered? = none)
    (hsent : step.pushed s.clock answer = none) : step.Accounted s s' answer where
  receipts := by
    rw [Scheduler.receipts, hjournal, ← Scheduler.receipts, hdelivered]
    exact (List.append_nil _).symm
  sent := by
    rw [Scheduler.history, hjournal, ← Scheduler.history, hsent]
    exact (List.append_nil _).symm

theorem accounted_act {step : Step} (h : step.momentary = true) :
    step.Accounted s.scheduler (s.act step).2.scheduler (s.act step).1 := by
  cases step with
  | trySend sender data =>
      simp only [act, Scheduler.trySend_eq]
      refine Step.accounted_visited (Scheduler.journal_answered _ _ _ _ _) rfl ?_
      cases (s.scheduler.pipe.trySend sender data s.scheduler.clock).1 <;> rfl
  | tryRecv reader =>
      simp only [act, Scheduler.tryRecv_eq]
      refine Step.accounted_visited (Scheduler.journal_answered _ _ _ _ _) ?_ rfl
      cases (s.scheduler.pipe.tryRecv reader s.scheduler.pipe.freshBuffer).1 with
      | ok n => rfl
      | error e => cases e <;> rfl
  | clear caller =>
      simp only [act, Scheduler.clear_eq]
      exact Step.accounted_visited (Scheduler.journal_answered _ _ _ _ _) rfl rfl
  | sweep =>
      simp only [act, Scheduler.sweep_eq]
      exact Step.accounted_visited (Scheduler.journal_answered _ _ _ _ _) rfl rfl
  | close =>
      exact Step.accounted_visited (Scheduler.journal_answered _ .direct .close .closed _) rfl rfl
  | inner call =>
      simp only [act, Scheduler.inner]
      cases hv : s.scheduler.pipe.visit ⟨s.scheduler.clock, false⟩ call with
      | mk answer p =>
          cases answer with
          | none => exact Step.accounted_same rfl rfl (by cases call <;> rfl)
          | some reply =>
              refine Step.accounted_visited rfl ?_ ?_
              · cases reply with
                | received result out => cases result <;> rfl
                | _ => rfl
              · cases call <;> cases reply <;> first | rfl | (rename_i result; cases result <;> rfl)
  | start | cancel | setClock | drop | look => exact Step.accounted_same rfl rfl rfl
  | advance ms => contradiction
  | spawnReaper every =>
      simp only [act]
      split <;> exact Step.accounted_same rfl rfl rfl
  | abortReaper =>
      simp only [act]
      split <;> exact Step.accounted_same rfl rfl rfl

/-! ## Exactly once -/

/-- At the start nothing has happened. -/
theorem told_create {p : Pipe} (hp : Pipe.create c = .ok p) (clock : UInt64) :
    (Scheduler.ofPipe p config clock).Told ⟨.empty c.geometry, false⟩ := by
  obtain ⟨storage, hinit, hclosed, -⟩ := Pipe.create_eq_ok hp
  have hplain : p.plain = ⟨.empty c.geometry, false⟩ := by
    rw [Pipe.plain, (Ring.init_eq_ok hinit).1, Ring.toQueue_wiped, hclosed]
  exact ⟨Ring.wellFormed_init hinit, PlainPipe.explains_nil.mpr hplain.symm,
    fun r hr => (List.not_mem_nil hr).elim⟩

theorem Reachable.told (h : s.Reachable c config jobs) :
    s.scheduler.Told ⟨.empty c.geometry, false⟩ :=
  h.invariant (fun _ clock hp => told_create hp clock) Stage.kept_told

theorem Reachable.stands (h : s.Reachable c config jobs) :
    Stage.Stands ⟨s.scheduler, none, jobs⟩ :=
  h.invariant (fun _ _ _ _ => .unborn) Stage.kept_stands

/-- What can be said of the messages and tasks of a session. -/
structure ExactlyOnce (jobs : List Job) (s : TaskSession) : Prop where
  /-- A task that is still there, or was cancelled, has pushed nothing and reported all that it
  took; one that is finished did what it reported. -/
  tasks : ∀ id job, jobs[id]? = some job →
    (∃ rest, job.Underway (s.scheduler.account id) rest ∧
      (s.scheduler.those id = [⟨id, rest⟩] ∨ s.scheduler.those id = [])) ∨
    (job.Settled (s.scheduler.account id) ∧ s.scheduler.those id = [])
  /-- Messages were received by the tasks of the script and by the script itself. -/
  receivers : ∀ r ∈ s.scheduler.receipts,
    r.1 = .direct ∨ r.1 = .inner ∨ ∃ id, id < jobs.length ∧ r.1 = .task id
  /-- Each task received what its account says. -/
  received : ∀ id, (s.scheduler.account id).delivered =
    s.scheduler.receipts.filterMap fun r => if r.1 = .task id then some r.2 else none
  /-- Whatever the script does next, its answer says what is pushed and received. -/
  script : ∀ step : Step, step.momentary = true →
    step.Accounted s.scheduler (s.act step).2.scheduler (s.act step).1
  /-- What was received are the messages that were sent, in that order, without those that expired,
  were cleared or are still queued. -/
  delivered : s.scheduler.receipts.map Prod.snd =
    History.deliveries (History.sent s.scheduler.history) (History.fates s.scheduler.history)
  expired : ∀ m cutoff,
    (m, .expired cutoff) ∈
      (History.sent s.scheduler.history).zip (History.fates s.scheduler.history) →
    m.stamp < cutoff
  /-- The messages that have no fate yet are those that are queued. -/
  queued : (History.fates s.scheduler.history).length ≤
      (History.sent s.scheduler.history).length ∧
    s.scheduler.pipe.ring.toQueue.messages =
      (History.sent s.scheduler.history).drop (History.fates s.scheduler.history).length

/-- **Exactly once**: whoever is cancelled and whenever, what a task reports is what it did, and
every message that was sent is received once, in order, unless it expired, was cleared or is still
queued. -/
theorem Reachable.exactly_once (h : s.Reachable c config jobs) : s.ExactlyOnce jobs := by
  have hstands := h.stands
  obtain ⟨hring, hexplained, hreceivers⟩ := h.told
  obtain ⟨hle, hdelivered, hexpired, hqueued⟩ := hexplained.fates
  have hsent : ∀ h : List Visit, (Queue.empty c.geometry).messages ++ History.sent h =
      History.sent h := fun _ => rfl
  simp only [hsent] at hle hdelivered hexpired hqueued
  exact
    { tasks := fun id job hjob => by
        have hstand : Standing id jobs[id]? (s.scheduler.those id) (s.scheduler.account id) :=
          hstands id
        rw [hjob] at hstand
        exact hstand.of_some
      receivers := fun r hr => by
        obtain ⟨agent, message⟩ := r
        cases agent with
        | direct => exact .inl rfl
        | inner => exact .inr (.inl rfl)
        | reaper id => exact absurd rfl (hreceivers _ hr id)
        | task id =>
            refine .inr (.inr ⟨id, ?_, rfl⟩)
            by_cases hid : id < jobs.length
            · exact hid
            · -- a task that was never started has received nothing
              have hstand : Standing id jobs[id]? (s.scheduler.those id) (s.scheduler.account id) :=
                hstands id
              rw [List.getElem?_eq_none (Nat.not_lt.mp hid)] at hstand
              have hnone : (s.scheduler.account id).delivered = [] := by
                rw [hstand.of_none.2]
                rfl
              rw [s.scheduler.delivered_account id, List.filterMap_eq_nil_iff] at hnone
              have := hnone _ hr
              simp at this
      received := s.scheduler.delivered_account
      script := fun step hstep => accounted_act hstep
      delivered := s.scheduler.map_snd_receipts.trans hdelivered
      expired := hexpired
      queued := ⟨hle, hqueued⟩ }

/-- Of two receivers that wait, one is cancelled before a message is sent, and the other has
it. -/
theorem exactly_once_cancelled :
    ∃ s : TaskSession, s.Reachable ⟨⟨1, 4⟩, .ofMillis 5⟩ .default
        [.recv ⟨1, 1⟩, .recv ⟨1, 1⟩, .send ⟨1, 2⟩ [9]] ∧
      s.scheduler.account 0 = .empty ∧
      s.scheduler.account 1 = ⟨[], 1, [[9]], [.received (.ok [9])]⟩ ∧
      s.scheduler.account 2 = ⟨[⟨[9], ⟨1, 2⟩, 7⟩], 0, [], [.sent (.ok 1)]⟩ ∧
      s.ExactlyOnce [.recv ⟨1, 1⟩, .recv ⟨1, 1⟩, .send ⟨1, 2⟩ [9]] := by
  have hreach : ∃ s : TaskSession, s.Reachable ⟨⟨1, 4⟩, .ofMillis 5⟩ .default
        [.recv ⟨1, 1⟩, .recv ⟨1, 1⟩, .send ⟨1, 2⟩ [9]] ∧
      s.scheduler.account 0 = .empty ∧
      s.scheduler.account 1 = ⟨[], 1, [[9]], [.received (.ok [9])]⟩ ∧
      s.scheduler.account 2 = ⟨[⟨[9], ⟨1, 2⟩, 7⟩], 0, [], [.sent (.ok 1)]⟩ :=
    ⟨_, ⟨7, _, [.act (.start (.recv ⟨1, 1⟩)), .act (.start (.recv ⟨1, 1⟩)), .exec (.resume 0),
      .exec (.resume 0), .act (.cancel 0), .act (.start (.send ⟨1, 2⟩ [9])), .exec (.resume 0),
      .exec (.resume 0)], rfl, rfl, rfl⟩, rfl, rfl, rfl⟩
  obtain ⟨s, hs, h₀, h₁, h₂⟩ := hreach
  exact ⟨s, hs, h₀, h₁, h₂, hs.exactly_once⟩

end TaskSession

end MessagePipe
