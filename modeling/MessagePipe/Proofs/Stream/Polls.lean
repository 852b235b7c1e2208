import MessagePipe.Proofs.Stream.Items

/-!
# MessagePipe.Proofs.Stream.Polls

Streams of messages that are polled.  A stream is asked for one item at a time,
and between two polls anything may happen: other tasks send and receive, the
pipe is swept, cleared or closed, time goes by.

* `Scheduler.polled_runTask` — what one poll comes to, on any pipe (`Job.Poll`);
* `TaskSession.account_move` — nothing but its polls speaks for a stream;
* `Reachable.polled` — so on a closed pipe there is one item for each poll,
  whatever happens in between;
* `Reachable.messages_shape` — the shape of a stream (`Streaming`).
-/

namespace MessagePipe

open Relation Stage

/-! ## One poll -/

/-- What a poll of a sequence of messages comes to: the item that it yields, if any, the pipe before
and after it, and what is left to do. -/
inductive Job.Poll (p : PlainPipe) : Job → Option Event → PlainPipe → Option Job → Prop
  /-- The oldest message is taken. -/
  | message {reader left m rest} (hm : p.queue.messages = m :: rest)
      (hread : reader.mayRead m.owner = true) :
      Poll p (.messages reader (left + 1)) (some m.event) { p with queue.messages := rest }
        (some (.messages reader left))
  /-- It may not be read, and stays. -/
  | denial {reader left m rest} (hm : p.queue.messages = m :: rest)
      (hread : reader.mayRead m.owner = false) :
      Poll p (.messages reader (left + 1)) (some (.received (.error (.ring .accessDenied)))) p
        (some (.failed left))
  | ended {reader left} (hc : p.closed = true) (hn : p.queue.messages = []) :
      Poll p (.messages reader (left + 1)) (some .ended) p none
  /-- There is no item yet. -/
  | waits {reader left} (hc : p.closed = false) (hn : p.queue.messages = []) :
      Poll p (.messages reader (left + 1)) none p (some (.messages reader (left + 1)))
  /-- After an error there is nothing but the end, whatever the pipe is like. -/
  | finished {left} : Poll p (.failed (left + 1)) (some .ended) p none
  /-- No item more is wanted. -/
  | enough {job} (hs : job.Sated) : Poll p job none p none

/-- Whether a job is a sequence of messages, one that has yielded an error or not. -/
def Job.isSequence : Job → Bool
  | messages .. | failed .. => true
  | _ => false

/-- Whether an item more is wanted of a sequence of messages. -/
def Job.asked : Job → Bool
  | messages _ (_ + 1) | failed (_ + 1) => true
  | _ => false

/-- On a closed pipe whoever is asked for an item yields one. -/
theorem Job.Poll.answers {p q : PlainPipe} {job : Job} {item : Option Event} {next : Option Job}
    (h : job.Poll p item q next) (hc : p.closed = true) :
    item.toList.length = job.asked.toNat := by
  cases h with
  | message | denial | ended | finished => rfl
  | waits hopen =>
      rw [hc] at hopen
      contradiction
  | enough hs => cases hs <;> rfl

/-- A sequence that is gone after a poll has said that it is over, if more of it was wanted. -/
theorem Job.Poll.gone {p q : PlainPipe} {job : Job} {item : Option Event}
    (h : job.Poll p item q none) : item = some .ended ∨ job.Sated := by
  cases h with
  | ended | finished => exact .inl rfl
  | enough hs => exact .inr hs

theorem Job.Poll.isReaper {p q : PlainPipe} {job : Job} {item : Option Event} {next : Option Job}
    (h : job.Poll p item q next) (rest : Job) (hrest : rest ∈ next) {id : Nat} :
    Task.isReaper ⟨id, rest⟩ = false := by
  cases h <;> cases hrest <;> rfl

namespace Scheduler

variable {s : Scheduler} {id : Nat}

theorem events_record (s : Scheduler) (id : Nat) (e : Event) :
    ((s.record (.event id e)).account id).events = (s.account id).events ++ [e] := by
  simp [account, record, Account.of, Entry.eventOf?]

/-- What a poll of a task leaves of a scheduler that has given it the floor. -/
structure Polled (s s' : Scheduler) (t : Task) (item : Option Event) (next : Option Job) :
    Prop where
  poll : t.job.Poll s.pipe.plain item s'.pipe.plain next
  events : (s'.account t.id).events = (s.account t.id).events ++ item.toList
  tasks : s'.tasks.Perm (next.toList.map (⟨t.id, ·⟩) ++ s.tasks)
  /-- After an item it is ready for the next. -/
  ready : item ≠ none → ∀ rest ∈ next, s'.ready.head? = some ⟨t.id, rest⟩

/-- Whoever is asked for no more yields nothing. -/
theorem Polled.enough {job : Job} (hs : job.Sated) (s : Scheduler) (id : Nat) :
    Polled s (s.record (.stopped id)) ⟨id, job⟩ none none where
  poll := .enough hs
  events := (congrArg Account.events (account_stopped s id id)).trans (List.append_nil _).symm
  tasks := .rfl
  ready := nofun

/-- What a receive that does not wait comes to. -/
theorem tryRecv_cases (hring : s.pipe.ring.WellFormed) (agent : Agent) (reader : Credentials) :
    (s.pipe.plain.queue.messages = [] ∧ (s.tryRecv agent reader).2.pipe.plain = s.pipe.plain ∧
        (s.tryRecv agent reader).1 = .error (if s.pipe.plain.closed then .closed else .empty)) ∨
      ∃ m rest, s.pipe.plain.queue.messages = m :: rest ∧
        (reader.mayRead m.owner = false ∧
            (s.tryRecv agent reader).2.pipe.plain = s.pipe.plain ∧
            (s.tryRecv agent reader).1 = .error (.ring .accessDenied) ∨
          reader.mayRead m.owner = true ∧
            (s.tryRecv agent reader).2.pipe.plain =
              { s.pipe.plain with queue.messages := rest } ∧
            (s.tryRecv agent reader).1 = .ok m.payload) := by
  have hv := s.pipe.visit_recv_never ⟨s.clock, false⟩ reader s.pipe.freshBuffer
  have ha := Pipe.plain_visit hring (congrArg Prod.fst hv)
  rw [hv] at ha
  have hfit := hring.fits s.pipe.closed
  have hlength : s.pipe.freshBuffer.length = s.pipe.ring.dataSize := Bytes.length_zeros _
  simp only [tryRecv_eq, pipe_answered]
  generalize s.pipe.tryRecv reader s.pipe.freshBuffer = found at ha ⊢
  obtain ⟨result, out, p⟩ := found
  dsimp only at ha ⊢
  have ha : s.pipe.plain.Answers
      ⟨none, .recv reader s.pipe.freshBuffer .never, s.clock, .received result out⟩ p.plain := ha
  have ho := ha.outcome
  generalize p.plain = q at ho ⊢
  cases ho with
  | recvClosed hc hn => exact .inl ⟨hn, rfl, by rw [hc]; rfl⟩
  | recvRefused hc hn he =>
      obtain rfl := Option.some.inj he
      exact .inl ⟨hn, rfl, by rw [hc]; rfl⟩
  | @recvDenied _ _ _ _ _ m rest hm hread => exact .inr ⟨m, rest, hm, .inl ⟨hread, rfl, rfl⟩⟩
  | @recvShort _ _ _ _ _ m rest hm hl =>
      have hle : m.payload.length ≤ s.pipe.ring.dataSize := hfit m (hm ▸ List.mem_cons_self)
      omega
  | @received _ _ _ _ _ m rest hm hread hl =>
      refine .inr ⟨m, rest, hm, .inr ⟨hread, rfl, ?_⟩⟩
      simp only [Pipe.messageOf, Except.map, List.take_left, streamResult]

/-- A receive says nothing for a task, and moves tasks at most. -/
theorem tryRecv_aside (s : Scheduler) (agent : Agent) (reader : Credentials) (id : Nat) :
    ((s.tryRecv agent reader).2.account id).events = (s.account id).events ∧
      (s.tryRecv agent reader).2.tasks.Perm s.tasks := by
  rw [tryRecv_eq]
  refine ⟨?_, tasks_answered _ _ _ _ _⟩
  simp only [account, journal_answered, List.reverse_cons, Account.of_append, Account.append_def]
  exact List.append_nil _

/-- A sequence that has yielded no error looks at the pipe once. -/
theorem polled_nextItem (hring : s.pipe.ring.WellFormed) (id : Nat) (reader : Credentials)
    (left : Nat) :
    ∃ item next, Polled s (s.nextItem id reader left) ⟨id, .messages reader left⟩ item next := by
  cases left with
  | zero => exact ⟨none, none, .enough .messages s id⟩
  | succ left =>
      have hcases := s.tryRecv_cases hring (.task id) reader
      obtain ⟨hevents, htasks⟩ := s.tryRecv_aside (.task id) reader id
      rw [nextItem]
      generalize s.tryRecv (.task id) reader = found at hcases hevents htasks ⊢
      obtain ⟨result, s'⟩ := found
      dsimp only at hcases hevents htasks ⊢
      have yields : ∀ e : Event,
          ((s'.record (.event id e)).account id).events = (s.account id).events ++ [e] := fun e =>
        (s'.events_record id e).trans (congrArg (· ++ [e]) hevents)
      rcases hcases with ⟨hn, hp, rfl⟩ | ⟨m, rest, hm, ⟨hread, hp, rfl⟩ | ⟨hread, hp, rfl⟩⟩
      · cases hc : s.pipe.plain.closed with
        | true =>
            have hpoll : (Job.messages reader (left + 1)).Poll s.pipe.plain (some .ended)
                s'.pipe.plain none := by
              rw [hp]
              exact .ended hc hn
            exact ⟨_, none, hpoll, yields _, htasks, fun _ _ hr => absurd hr (Option.not_mem_none _)⟩
        | false =>
            have hpoll : (Job.messages reader (left + 1)).Poll s.pipe.plain none
                (s'.waitPoll ⟨id, .messages reader (left + 1)⟩).pipe.plain
                (some (.messages reader (left + 1))) := by
              rw [pipe_waitPoll, hp]
              exact .waits hc hn
            have hsilent : ((s'.waitPoll ⟨id, .messages reader (left + 1)⟩).account id).events =
                (s.account id).events ++ [] := by
              rw [account, journal_waitPoll, List.append_nil]
              exact hevents
            exact ⟨none, _, hpoll, hsilent, (tasks_waitPoll _ _).trans (htasks.cons _),
              fun hi => absurd rfl hi⟩
      · have hpoll : (Job.messages reader (left + 1)).Poll s.pipe.plain
            (some (.received (.error (.ring .accessDenied)))) s'.pipe.plain
            (some (.failed left)) := by
          rw [hp]
          exact .denial hm hread
        exact ⟨_, some (.failed left), hpoll, yields _, htasks.cons _,
          fun _ _ hr => by cases hr; rfl⟩
      · have hpoll : (Job.messages reader (left + 1)).Poll s.pipe.plain (some m.event) s'.pipe.plain
            (some (.messages reader left)) := by
          rw [hp]
          exact .message hm hread
        exact ⟨some m.event, some (.messages reader left), hpoll, yields _, htasks.cons _,
          fun _ _ hr => by cases hr; rfl⟩

/-- A sequence that has yielded an error does not look at the pipe. -/
theorem polled_noItem (s : Scheduler) (id left : Nat) :
    ∃ item next, Polled s (s.noItem id left) ⟨id, .failed left⟩ item next := by
  cases left with
  | zero => exact ⟨none, none, .enough .failed s id⟩
  | succ left => exact ⟨some .ended, none, .finished, s.events_record id .ended, .rfl, nofun⟩

theorem polled_runTask (hring : s.pipe.ring.WellFormed) {t : Task} (ht : t.job.isSequence = true) :
    ∃ item next, Polled s (s.runTask t) t item next := by
  obtain ⟨id, job⟩ := t
  cases job with
  | messages reader left => exact s.polled_nextItem hring id reader left
  | failed left => exact s.polled_noItem id left
  | send | recv | reap => contradiction

/-- The turn of another task leaves the account of this one alone. -/
theorem account_runTask {t : Task} (hproper : t.Proper) (ht : TaskSession.isTask id t = false) :
    (s.runTask t).account id = s.account id := by
  have hturn := turn_invariant
    (P := fun g => (∀ u ∈ g.running, TaskSession.isTask id u = false) ∧
      g.scheduler.account id = s.account id)
    (fun {g g'} ⟨hfloor, haccount⟩ hown => ⟨fun u hu => ?_, ?_⟩) (s.turn_runTask [] hproper)
    ⟨fun u hu => Option.some.inj hu ▸ ht, rfl⟩
  · exact hturn.2
  · obtain ⟨v, hv, hid, hreaper⟩ := own_floor hown u hu
    rw [TaskSession.isTask, hid, hreaper]
    exact hfloor v hv
  · exact (account_act hown.2 hfloor).trans haccount

end Scheduler

/-! ## A stream among others -/

namespace TaskSession

variable {c : PipeConfig} {config : StreamConfig} {s s' : TaskSession} {jobs : List Job} {id : Nat}
  {reader : Credentials} {limit : Nat}

/-- Whether a move asks task `id` for an item. -/
def asks (id : Nat) (s : TaskSession) : Move → Bool
  | .exec (.resume i) => s.scheduler.ready[i]?.any fun t => isTask id t && t.job.asked
  | _ => false

/-- How often task `id` is asked for an item in the course of some moves. -/
def polls (id : Nat) (s : TaskSession) : List Move → Nat
  | [] => 0
  | m :: ms =>
    (s.asks id m).toNat +
      match s.move m with
      | some s' => s'.polls id ms
      | none => 0

/-- A move that is not its turn leaves the account of a task alone. -/
theorem account_move {m : Move} (h : s.move m = some s') (hn : s.tasks = jobs.length)
    (hp : Stage.Proper ⟨s.scheduler, none, jobs⟩)
    (hother : ∀ i t, m = .exec (.resume i) → s.scheduler.ready[i]? = some t →
      isTask id t = false) : s'.scheduler.account id = s.scheduler.account id := by
  have act : ∀ {g g' : Stage}, ReflGen Act g g' → g.running = none →
      g'.scheduler.account id = g.scheduler.account id := by
    intro g g' h hnone
    cases h with
    | refl => rfl
    | single h => exact account_act h fun t ht => by simp [hnone] at ht
  cases m with
  | act step =>
      obtain ⟨hmom, rfl⟩ := act_eq_some h
      exact act (acts_act hmom hn).1 rfl
  | exec m =>
      obtain ⟨scheduler, hm, rfl⟩ := exec_eq_some h
      cases m with
      | resume i =>
          obtain ⟨t, ht, rfl⟩ := Scheduler.resume_eq_some hm
          have hproper : t.Proper := hp t (Scheduler.mem_tasks_of_ready ht)
          exact Scheduler.account_runTask hproper (hother i t rfl ht)
      | rejoin | fire | elapse =>
          obtain rfl := Option.some.inj hm
          rfl

theorem mem_those {t : Task} :
    t ∈ s.scheduler.those id ↔ t ∈ s.scheduler.tasks ∧ isTask id t = true :=
  List.mem_filter

/-- A task keeps its job. -/
theorem job_append {job : Job} {new : List Job} (h : jobs[id]? = some job) :
    (jobs ++ new)[id]? = some job := by
  rw [List.getElem?_append_left (List.getElem?_eq_some_iff.mp h).1, h]

/-- A stream is in shape, and as long as it is there it wants what it has not yielded. -/
theorem Reachable.stream (h : s.Reachable c config jobs)
    (hjob : jobs[id]? = some (.messages reader limit)) :
    ∃ finish, Streamed ⟨.empty c.geometry, false⟩ id reader limit s.scheduler.journal.reverse
        finish ∧
      (s.scheduler.those id = [] ∨ ∃ left rest, finish.rest? reader left = some rest ∧
        s.scheduler.those id = [⟨id, rest⟩] ∧
        (s.scheduler.account id).events.length + left = limit) := by
  obtain ⟨hs, htold, hstreams⟩ := h.invariant
    (fun _ clock hp => ⟨fun _ => .unborn, told_create hp clock,
      fun _ _ _ hj => by contradiction, fun _ hs => (List.not_mem_nil hs).elim⟩)
    Stage.kept_streams
  obtain ⟨finish, hstream⟩ := hstreams.shape id reader limit hjob
  refine ⟨finish, hstream, ?_⟩
  have hstanding : Standing id jobs[id]? (s.scheduler.those id) (s.scheduler.account id) := hs id
  rw [hjob] at hstanding
  rcases hstanding.of_some with ⟨rest, hunderway, hthose | hgone⟩ | ⟨-, hgone⟩
  · obtain ⟨left, hrest, hleft⟩ := hstream.of_underway hunderway
    exact .inr ⟨left, rest, hrest, hthose, hleft⟩
  · exact .inl hgone
  · exact .inl hgone

/-- What is ready under the number of a stream is a stream. -/
theorem Reachable.isSequence (h : s.Reachable c config jobs)
    (hjob : jobs[id]? = some (.messages reader limit)) {i : Nat} {t : Task}
    (hi : s.scheduler.ready[i]? = some t) (ht : isTask id t = true) :
    t.id = id ∧ t.job.isSequence = true ∧ s.scheduler.those id = [t] := by
  have hmem : t ∈ s.scheduler.those id := mem_those.mpr ⟨Scheduler.mem_tasks_of_ready hi, ht⟩
  obtain ⟨finish, -, hnil | ⟨left, rest, hrest, hthose, -⟩⟩ := h.stream hjob
  · rw [hnil] at hmem
    contradiction
  · rw [hthose] at hmem ⊢
    obtain rfl := List.mem_singleton.mp hmem
    refine ⟨rfl, ?_, rfl⟩
    cases finish <;> cases hrest <;> rfl

/-- The turn of a stream is one poll. -/
theorem Reachable.poll (h : s.Reachable c config jobs)
    (hjob : jobs[id]? = some (.messages reader limit)) {i : Nat} {t : Task}
    (hi : s.scheduler.ready[i]? = some t) (ht : isTask id t = true) :
    ∃ s' item next, s.move (.exec (.resume i)) = some s' ∧
      t.job.Poll s.scheduler.pipe.plain item s'.scheduler.pipe.plain next ∧
      (s'.scheduler.account id).events = (s.scheduler.account id).events ++ item.toList ∧
      s'.scheduler.those id = next.toList.map (⟨id, ·⟩) ∧
      (item ≠ none → ∀ rest ∈ next, s'.scheduler.ready.head? = some ⟨id, rest⟩) := by
  obtain ⟨rfl, hsequence, hthose⟩ := h.isSequence hjob hi ht
  obtain ⟨item, next, hpoll, hevents, htasks, hready⟩ :=
    Scheduler.polled_runTask (s := { s.scheduler with ready := s.scheduler.ready.eraseIdx i })
      h.told.ring hsequence
  have hmove : s.move (.exec (.resume i)) = some { s with
      scheduler := { s.scheduler with ready := s.scheduler.ready.eraseIdx i }.runTask t } := by
    simp only [move, Scheduler.move, hi]
    rfl
  refine ⟨_, item, next, hmove, hpoll, hevents, ?_, hready⟩
  have hrest : { s.scheduler with ready := s.scheduler.ready.eraseIdx i }.tasks.filter
      (isTask t.id) = [] := by
    have hperm := (Scheduler.tasks_eraseIdx hi).filter (isTask t.id)
    rw [List.filter_cons_of_pos ht, show s.scheduler.tasks.filter (isTask t.id) = [t] from hthose]
      at hperm
    exact (List.cons.inj (List.perm_singleton.mp hperm)).2
  have hown : (next.toList.map (⟨t.id, ·⟩)).filter (isTask t.id) = next.toList.map (⟨t.id, ·⟩) := by
    refine List.filter_eq_self.mpr fun u hu => ?_
    obtain ⟨rest, hrest, rfl⟩ := List.mem_map.mp hu
    simp [isTask, hpoll.isReaper rest (Option.mem_toList.mp hrest)]
  have hafter := htasks.filter (isTask t.id)
  rw [List.filter_append, hrest, hown, List.append_nil] at hafter
  cases next with
  | none => exact List.perm_nil.mp hafter
  | some rest => exact List.perm_singleton.mp hafter

/-- On a closed pipe a stream yields an item when it is asked for one, and no other time. -/
theorem Reachable.answers_move (h : s.Reachable c config jobs)
    (hjob : jobs[id]? = some (.messages reader limit)) (hc : s.scheduler.pipe.closed = true)
    {m : Move} (hm : s.move m = some s') :
    (s'.scheduler.account id).events.length =
      (s.scheduler.account id).events.length + (s.asks id m).toNat := by
  by_cases hturn : ∃ i t, m = .exec (.resume i) ∧ s.scheduler.ready[i]? = some t ∧
      isTask id t = true
  · obtain ⟨i, t, rfl, hi, ht⟩ := hturn
    obtain ⟨s₁, item, next, hmove, hpoll, hevents, -⟩ := h.poll hjob hi ht
    obtain rfl := Option.some.inj (hmove.symm.trans hm)
    have hasks : s.asks id (.exec (.resume i)) = t.job.asked := by
      simp [asks, hi, ht]
    rw [hevents, List.length_append, hpoll.answers hc, hasks]
  · have hother : ∀ i t, m = .exec (.resume i) → s.scheduler.ready[i]? = some t →
        isTask id t = false := fun i t heq hi =>
      Bool.eq_false_iff.mpr fun ht => hturn ⟨i, t, heq, hi, ht⟩
    have hasks : s.asks id m = false := by
      cases m with
      | act step => rfl
      | exec m =>
          cases m with
          | resume i =>
              simp only [asks]
              cases hi : s.scheduler.ready[i]? with
              | none => rfl
              | some t => simp [hother i t rfl hi]
          | rejoin | fire | elapse => rfl
    rw [account_move hm h.length h.proper hother, hasks]
    rfl

/-- So whatever happens in between, there is one item for each poll. -/
theorem Reachable.polled (h : s.Reachable c config jobs)
    (hjob : jobs[id]? = some (.messages reader limit)) (hc : s.scheduler.pipe.closed = true)
    {ms : List Move} (hms : s.moves ms = some s') :
    (s'.scheduler.account id).events.length =
      (s.scheduler.account id).events.length + s.polls id ms := by
  induction ms generalizing s jobs with
  | nil =>
      obtain rfl := Option.some.inj hms
      rfl
  | cons m ms ih =>
      simp only [moves, Option.bind_eq_bind, Option.bind_eq_some_iff] at hms
      obtain ⟨s₁, hm, hms⟩ := hms
      have hclosed := (kept_move kept_closed hm h.length h.proper hc).1
      rw [ih (h.after_move hm) (job_append hjob) hclosed hms, h.answers_move hjob hc hm]
      simp only [polls, hm, Nat.add_assoc]

/-- What has become of the messages of a closed pipe from one moment of a session to another, and
what task `id`, a stream that had yielded nothing but messages, has yielded of them. -/
structure Delivered (id : Nat) (s s' : TaskSession) (finish : Finish) (later : List Entry) :
    Prop where
  journal : s'.scheduler.journal.reverse = s.scheduler.journal.reverse ++ later
  /-- They were taken, swept or cleared in order, or are still queued. -/
  messages : s.scheduler.pipe.plain.queue.messages =
    (s.scheduler.pipe.plain.removed later).map Prod.snd ++ s'.scheduler.pipe.plain.queue.messages
  /-- It has yielded those that it took. -/
  events : (s'.scheduler.account id).events = (s.scheduler.account id).events ++
    (s.scheduler.pipe.plain.served id later).map Message.event ++ finish.events
  /-- None is left if it has found the pipe empty. -/
  emptied : finish = .closed → s'.scheduler.pipe.plain.queue.messages = []

/-- A stream that is polled more often than there are messages on a closed pipe finishes. -/
theorem Reachable.delivers (h : s.Reachable c config jobs)
    (hjob : jobs[id]? = some (.messages reader limit)) (hc : s.scheduler.pipe.closed = true)
    {ms : List Move} (hms : s.moves ms = some s')
    (hstream : Streamed ⟨.empty c.geometry, false⟩ id reader limit s.scheduler.journal.reverse
      .going)
    (hmany : s.scheduler.pipe.plain.queue.messages.length < s.polls id ms) :
    ∃ finish' later, finish' ≠ .going ∧
      Streamed ⟨.empty c.geometry, false⟩ id reader limit s'.scheduler.journal.reverse finish' ∧
      Delivered id s s' finish' later := by
  have h' := h.after_moves hms
  obtain ⟨finish', hstream', -⟩ := h'.stream (job_append hjob)
  obtain ⟨new, hnew⟩ := kept_moves (P := fun g => s.scheduler.journal <:+ g.scheduler.journal)
    kept_journal hms h.length h.proper (List.suffix_refl _)
  have hjournal : s'.scheduler.journal.reverse = s.scheduler.journal.reverse ++ new.reverse := by
    rw [← hnew, List.reverse_append]
  have hnow : PlainPipe.after ⟨.empty c.geometry, false⟩ s.scheduler.journal.reverse =
      s.scheduler.pipe.plain := h.told.explained.after_eq
  have hthen : PlainPipe.after ⟨.empty c.geometry, false⟩ s'.scheduler.journal.reverse =
      s'.scheduler.pipe.plain := h'.told.explained.after_eq
  have hexplained : PlainPipe.Explains ⟨.empty c.geometry, false⟩
      (s'.scheduler.journal.reverse.filterMap Entry.visit?) s'.scheduler.pipe.plain :=
    h'.told.explained
  have hqueue : s.scheduler.pipe.plain.queue.messages =
      (s.scheduler.pipe.plain.removed new.reverse).map Prod.snd ++
        s'.scheduler.pipe.plain.queue.messages := by
    have hall := hexplained
    rw [hjournal, ← List.append_nil (_ ++ new.reverse)] at hall
    rw [← hthen, hjournal, ← hnow]
    exact hall.conserved_within (hnow ▸ hc)
  have hevents : (s'.scheduler.account id).events = (s.scheduler.account id).events ++
      (s.scheduler.pipe.plain.served id new.reverse).map Message.event ++ finish'.events := by
    have hsince := hstream.since (hjournal ▸ hstream')
    rwa [← hjournal, hnow] at hsince
  refine ⟨finish', new.reverse, ?_, hstream', hjournal, hqueue, hevents, ?_⟩
  · -- as long as it yields messages each poll takes one of those that were queued
    rintro rfl
    have hitems := congrArg List.length hevents
    have htaken := congrArg List.length hqueue
    have hserved : (s.scheduler.pipe.plain.served id new.reverse).length ≤
        (s.scheduler.pipe.plain.removed new.reverse).length := List.length_filterMap_le _ _
    rw [h.polled hjob hc hms] at hitems
    simp only [Finish.events, List.append_nil, List.length_append, List.length_map] at hitems htaken
    omega
  · rintro rfl
    exact hstream'.emptied hexplained

/-! ## The shape of a stream -/

/-- What can be said of task `id`, a stream of which at most `limit` items are wanted. -/
structure Streaming (start : PlainPipe) (id : Nat) (reader : Credentials) (limit : Nat)
    (s : TaskSession) (finish : Finish) : Prop where
  /-- The calls of the session explain the pipe as it is. -/
  pipe : start.after s.scheduler.journal.reverse = s.scheduler.pipe.plain
  streamed : Streamed start id reader limit s.scheduler.journal.reverse finish
  /-- It is still there and wants what it has not yielded, or it is gone. -/
  present : s.scheduler.those id = [] ∨ ∃ left rest, finish.rest? reader left = some rest ∧
    s.scheduler.those id = [⟨id, rest⟩] ∧ (s.scheduler.account id).events.length + left = limit
  /-- It goes only if it is cancelled, or with its end, or as nothing more is wanted of it. -/
  stays : ∀ m s', s.move m = some s' → m ≠ .act (.cancel id) → s.scheduler.those id ≠ [] →
    s'.scheduler.those id ≠ [] ∨ .ended ∈ (s'.scheduler.account id).events ∨
      .stopped id ∈ s'.scheduler.journal
  /-- No error but a denial is an item, and nothing follows it but the end. -/
  refusals : ∀ before e after,
    (s.scheduler.account id).events = before ++ .received (.error e) :: after →
      e = .ring .accessDenied ∧ (after = [] ∨ after = [.ended])
  /-- Of the messages that a closed pipe holds some are taken by somebody, in order, or swept or
  cleared, and the others are still queued; the stream yields those that it takes. -/
  drained : ∀ before later rest, s.scheduler.journal.reverse = before ++ later ++ rest →
    (start.after before).closed = true →
      (start.after before).queue.messages =
        ((start.after before).removed later).map Prod.snd ++
          (start.after (before ++ later)).queue.messages ∧
      start.served id (before ++ later) =
        start.served id before ++ (start.after before).served id later
  /-- Its turn is one poll. After an item it is ready for the next, before which anything may
  happen. -/
  poll : ∀ i t, s.scheduler.ready[i]? = some t → isTask id t = true →
    ∃ s' item next, s.move (.exec (.resume i)) = some s' ∧
      t.job.Poll s.scheduler.pipe.plain item s'.scheduler.pipe.plain next ∧
      (s'.scheduler.account id).events = (s.scheduler.account id).events ++ item.toList ∧
      s'.scheduler.those id = next.toList.map (⟨id, ·⟩) ∧
      (item ≠ none → ∀ rest ∈ next, s'.scheduler.ready.head? = some ⟨id, rest⟩)
  /-- On a closed pipe there is one item for each poll, whatever happens in between. -/
  polled : s.scheduler.pipe.closed = true → ∀ ms s', s.moves ms = some s' →
    (s'.scheduler.account id).events.length =
      (s.scheduler.account id).events.length + s.polls id ms
  /-- So if it is polled more often than there are messages it finishes: what it took of them it
  has yielded, in order, and the others were taken before it by somebody else, or come after one
  that it was denied. -/
  delivers : s.scheduler.pipe.closed = true → finish = .going → ∀ ms s', s.moves ms = some s' →
    s.scheduler.pipe.plain.queue.messages.length < s.polls id ms →
      ∃ finish' later, finish' ≠ .going ∧
        Streamed start id reader limit s'.scheduler.journal.reverse finish' ∧
        Delivered id s s' finish' later

/-- A stream goes only if it is cancelled, or with its end, or as nothing more is wanted of it. -/
theorem Reachable.stays (h : s.Reachable c config jobs)
    (hjob : jobs[id]? = some (.messages reader limit)) {m : Move} (hm : s.move m = some s')
    (hcancel : m ≠ .act (.cancel id)) (hthere : s.scheduler.those id ≠ []) :
    s'.scheduler.those id ≠ [] ∨ .ended ∈ (s'.scheduler.account id).events ∨
      .stopped id ∈ s'.scheduler.journal := by
  obtain ⟨t, ht⟩ := List.exists_mem_of_ne_nil _ hthere
  obtain ⟨htasks, htask⟩ := mem_those.mp ht
  have hreaper : t.isReaper = false := by simp_all [isTask]
  have hid : t.id = id := by simp_all [isTask]
  rcases mem_tasks_move hm htasks (fun _ => hid ▸ hcancel)
    (fun hr => by rw [hreaper] at hr; contradiction) with hstays | ⟨i, rfl, hi⟩
  · exact .inl (List.ne_nil_of_mem (mem_those.mpr ⟨hstays, htask⟩))
  · obtain ⟨s₁, item, next, hmove, hpoll, hevents, hthose, -⟩ := h.poll hjob hi htask
    obtain rfl := Option.some.inj (hmove.symm.trans hm)
    cases next with
    | some rest => exact .inl (by simp [hthose])
    | none =>
        right
        rcases hpoll.gone with rfl | hsated
        · exact .inl (by simp [hevents])
        · right
          obtain ⟨scheduler, hrun, rfl⟩ := exec_eq_some hm
          obtain ⟨u, hu, rfl⟩ := Scheduler.resume_eq_some hrun
          obtain rfl := Option.some.inj (hi.symm.trans hu)
          obtain ⟨n, job⟩ := t
          cases hid
          cases hsated <;> exact List.mem_cons_self

/-- **Shape of a stream**: it yields messages, each of them the oldest one when it was taken and
one that its reader may read, and then nothing more for now, or its end, or one denial and its end.
It ends by itself only on a closed and empty pipe, and a closed pipe it drains when polled. -/
theorem Reachable.messages_shape (h : s.Reachable c config jobs) {id : Nat} {reader : Credentials}
    {limit : Nat} (hjob : jobs[id]? = some (.messages reader limit)) :
    ∃ finish, Streaming ⟨.empty c.geometry, false⟩ id reader limit s finish := by
  obtain ⟨finish, hstream, hpresent⟩ := h.stream hjob
  have hexplained := h.told.explained
  refine ⟨finish, hexplained.after_eq, hstream, hpresent, fun m s' hm => h.stays hjob hm,
    fun before e after he => ?_, fun before later rest hsplit hc => ?_, fun i t => h.poll hjob,
    fun hc ms s' => h.polled hjob hc, fun hc hgoing ms s' hms hmany => ?_⟩
  · obtain ⟨hdenied, hafter⟩ := hstream.refusals he
    exact ⟨hdenied, hafter.imp And.right And.right⟩
  · rw [Scheduler.history, hsplit] at hexplained
    exact ⟨hexplained.conserved_within hc, PlainPipe.served_append ..⟩
  · exact h.delivers hjob hc hms (hgoing ▸ hstream) hmany

/-- A stream over a closed pipe yields the first of two messages, and a while later it is denied the
second. It is asked once more only after somebody else has taken that message, and ends. -/
theorem messages_shape_denied :
    ∃ (s s' : TaskSession), s.Reachable ⟨⟨2, 4⟩, .ofMillis 5⟩ .default [.messages ⟨1, 1⟩ 5] ∧
      s.scheduler.pipe.closed = true ∧
      s.scheduler.pipe.ring.toQueue.messages = [⟨[9], ⟨1, 1⟩, 7⟩, ⟨[8], ⟨2, 2⟩, 7⟩] ∧
      (∃ ms, s.moves ms = some s' ∧ s.polls 0 ms = 3) ∧
      (s'.scheduler.account 0).events =
        [.received (.ok [9]), .received (.error (.ring .accessDenied)), .ended] ∧
      s'.scheduler.pipe.ring.toQueue.messages = [] ∧
      (∃ finish, Streaming ⟨.empty ⟨2, 4⟩, false⟩ 0 ⟨1, 1⟩ 5 s finish) ∧
      ∃ finish, Streaming ⟨.empty ⟨2, 4⟩, false⟩ 0 ⟨1, 1⟩ 5 s' finish := by
  let before : List Move := [.act (.trySend ⟨1, 1⟩ [9]), .act (.trySend ⟨2, 2⟩ [8]), .act .close,
    .act (.start (.messages ⟨1, 1⟩ 5))]
  let polls : List Move := [.exec (.resume 0), .exec (.elapse 3), .exec (.resume 0),
    .act (.tryRecv ⟨2, 2⟩), .exec (.resume 0)]
  have hreach : ∃ s s' : TaskSession,
      s.Reachable ⟨⟨2, 4⟩, .ofMillis 5⟩ .default [.messages ⟨1, 1⟩ 5] ∧
      s'.Reachable ⟨⟨2, 4⟩, .ofMillis 5⟩ .default [.messages ⟨1, 1⟩ 5] ∧
      s.scheduler.pipe.closed = true ∧
      s.scheduler.pipe.ring.toQueue.messages = [⟨[9], ⟨1, 1⟩, 7⟩, ⟨[8], ⟨2, 2⟩, 7⟩] ∧
      (∃ ms, s.moves ms = some s' ∧ s.polls 0 ms = 3) ∧
      (s'.scheduler.account 0).events =
        [.received (.ok [9]), .received (.error (.ring .accessDenied)), .ended] ∧
      s'.scheduler.pipe.ring.toQueue.messages = [] :=
    ⟨_, _, ⟨7, _, before, rfl, rfl, rfl⟩, ⟨7, _, before ++ polls, rfl, rfl, rfl⟩,
      rfl, rfl, ⟨polls, rfl, rfl⟩, rfl, rfl⟩
  obtain ⟨s, s', hs, hs', hclosed, hqueued, hpolls, hevents, hempty⟩ := hreach
  exact ⟨s, s', hs, hclosed, hqueued, hpolls, hevents, hempty, hs.messages_shape rfl,
    hs'.messages_shape rfl⟩

end TaskSession

end MessagePipe
