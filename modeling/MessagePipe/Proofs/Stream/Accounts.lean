import MessagePipe.Proofs.Pipe.Fates
import MessagePipe.Proofs.Stream.Moves

/-!
# MessagePipe.Proofs.Stream.Accounts

What a task did to the pipe, beside what it reported.  An `Account` is read off
the journal of a scheduler, from the calls and the events of one task.

1. As long as a task is not finished it has pushed nothing, and has reported
   every message that it took (`Job.Underway`), so nothing is lost if it is
   cancelled now.
2. When it finishes it reports what it did, and nothing else (`Job.Settled`).

`Standing` says which of the two holds of a task, and where it is; every act
keeps the standing of every task (`Stage.kept_stands`).
-/

namespace MessagePipe

/-! ## Accounts -/

/-- What a task did and what it reported. -/
structure Account where
  /-- The messages that it put into the pipe. -/
  pushed : List Message
  /-- How many messages it took out of the pipe. -/
  consumed : Nat
  /-- The messages that it received. -/
  delivered : List Bytes
  events : List Event

namespace Entry

/-- The call that an entry tells of, if task `id` made it. -/
def visitOf? (id : Nat) : Entry → Option Visit
  | visited _ agent clock call reply =>
    if agent = .task id then some ⟨none, call, clock, reply⟩ else none
  | _ => none

/-- What an entry says that task `id` reported. -/
def eventOf? (id : Nat) : Entry → Option Event
  | event n e => if n = id then some e else none
  | _ => none

end Entry

namespace Account

/-- The account of a task without history. -/
def empty : Account := ⟨[], 0, [], []⟩

/-- The account of task `id` over some entries, the first of them first. -/
def of (entries : List Entry) (id : Nat) : Account :=
  let visits := entries.filterMap (Entry.visitOf? id)
  ⟨History.sent visits, History.taken visits, History.delivered visits,
    entries.filterMap (Entry.eventOf? id)⟩

instance : Append Account :=
  ⟨fun a b => ⟨a.pushed ++ b.pushed, a.consumed + b.consumed, a.delivered ++ b.delivered,
    a.events ++ b.events⟩⟩

theorem append_def (a b : Account) :
    a ++ b = ⟨a.pushed ++ b.pushed, a.consumed + b.consumed, a.delivered ++ b.delivered,
      a.events ++ b.events⟩ := rfl

@[simp] theorem append_empty (a : Account) : a ++ empty = a := by
  simp only [append_def, empty, List.append_nil, Nat.add_zero]

theorem of_append (l l' : List Entry) (id : Nat) : of (l ++ l') id = of l id ++ of l' id := by
  simp only [of, append_def, List.filterMap_append, History.sent, History.taken_append,
    History.delivered]

/-- What one look of a task adds to its account. -/
def ofVisit (v : Visit) (events : List Event) : Account :=
  ⟨v.sent?.toList, v.taken, v.delivered?.toList, events⟩

theorem of_own (time id : Nat) (clock : UInt64) (call : Call) (reply : Reply)
    (events : List Event) :
    of (.visited time (.task id) clock call reply :: events.map (.event id)) id =
      ofVisit ⟨none, call, clock, reply⟩ events := by
  have hevents : (events.map (.event id)).filterMap (Entry.eventOf? id) = events := by
    simp only [List.filterMap_map, Function.comp_def, Entry.eventOf?, if_true, List.filterMap_some]
  have hvisits : (events.map (.event id)).filterMap (Entry.visitOf? id) = [] := by
    rw [List.filterMap_map]
    exact List.filterMap_eq_nil_iff.mpr fun e _ => rfl
  have hvisit : Entry.visitOf? id (.visited time (.task id) clock call reply) =
      some ⟨none, call, clock, reply⟩ := if_pos rfl
  simp only [of, ofVisit, List.filterMap_cons, hvisit, hvisits, Entry.eventOf?, hevents,
    History.sent_cons, History.taken_cons, History.delivered_cons]
  simp [History.sent, History.taken, History.delivered, total]

/-- Entries that are not about a task leave its account alone. -/
theorem of_eq_empty {entries : List Entry} {id : Nat}
    (h : ∀ e ∈ entries, e.visitOf? id = none ∧ e.eventOf? id = none) : of entries id = empty := by
  have hvisits : entries.filterMap (Entry.visitOf? id) = [] :=
    List.filterMap_eq_nil_iff.mpr fun e he => (h e he).1
  have hevents : entries.filterMap (Entry.eventOf? id) = [] :=
    List.filterMap_eq_nil_iff.mpr fun e he => (h e he).2
  simp only [of, hvisits, hevents]
  rfl

theorem of_other {id n : Nat} (h : n ≠ id) (time : Nat) (clock : UInt64) (call : Call)
    (reply : Reply) (events : List Event) :
    of (.visited time (.task n) clock call reply :: events.map (.event n)) id = empty := by
  refine of_eq_empty fun e he => ?_
  cases List.mem_cons.mp he with
  | inl he =>
      subst he
      exact ⟨if_neg fun heq => h (Agent.task.inj heq), rfl⟩
  | inr he =>
      obtain ⟨event, -, rfl⟩ := List.mem_map.mp he
      exact ⟨rfl, if_neg h⟩

end Account

/-- The account of task `id` up to now. -/
def Scheduler.account (s : Scheduler) (id : Nat) : Account := .of s.journal.reverse id

/-! ## What a job may have done -/

namespace Job

/-- What a task may have done that is not finished, and what is left of its job. -/
inductive Underway : Job → Account → Job → Prop
  | send {sender data} : Underway (.send sender data) .empty (.send sender data)
  | recv {reader} : Underway (.recv reader) .empty (.recv reader)
  /-- Every message that was taken was reported. -/
  | messages {reader rest} (taken : List Bytes) :
      Underway (.messages reader (taken.length + rest))
        ⟨[], taken.length, taken, taken.map fun m => .received (.ok m)⟩ (.messages reader rest)
  /-- So was an error, which was the last item. -/
  | failed {reader rest} (taken : List Bytes) (e : StreamError) :
      Underway (.messages reader (taken.length + (rest + 1)))
        ⟨[], taken.length, taken,
          (taken.map fun m => .received (.ok m)) ++ [.received (.error e)]⟩ (.failed rest)

/-- What a task may have done that has finished. -/
inductive Settled : Job → Account → Prop
  /-- The message was pushed once, with its sender as the owner. -/
  | sent (m : Message) :
      Settled (.send m.owner m.payload) ⟨[m], 0, [], [.sent (.ok m.payload.length)]⟩
  | sendFailed {sender data} (e : StreamError) :
      Settled (.send sender data) ⟨[], 0, [], [.sent (.error e)]⟩
  /-- One message was taken, the one that is returned. -/
  | received {reader} (message : Bytes) :
      Settled (.recv reader) ⟨[], 1, [message], [.received (.ok message)]⟩
  | recvFailed {reader} (e : StreamError) :
      Settled (.recv reader) ⟨[], 0, [], [.received (.error e)]⟩
  | ended {reader left} (taken : List Bytes) (hlt : taken.length < left) :
      Settled (.messages reader left)
        ⟨[], taken.length, taken, (taken.map fun m => .received (.ok m)) ++ [.ended]⟩
  | failed {reader left} (taken : List Bytes) (hlt : taken.length + 1 < left) (e : StreamError) :
      Settled (.messages reader left)
        ⟨[], taken.length, taken,
          (taken.map fun m => .received (.ok m)) ++ [.received (.error e), .ended]⟩
  /-- As many items were yielded as were asked for. -/
  | stopped {job rest a} (h : Underway job a rest) (hs : rest.Sated) : Settled job a

variable {job rest : Job} {a : Account}

/-- At the start nothing is done yet. -/
theorem underway_start (h : job.startable = true) : job.Underway .empty job := by
  cases job with
  | send sender data => exact .send
  | recv reader => exact .recv
  | messages reader left =>
      have hstart : (Job.messages reader (([] : List Bytes).length + left)).Underway .empty
          (.messages reader left) := .messages []
      rwa [List.length_nil, Nat.zero_add] at hstart
  | failed | reap => contradiction

/-- A send that succeeds returns the length of its message. -/
theorem length_of_sent {p q : Pipe} {m : Moment} {sender : Credentials} {data : Bytes} {wait : Wait}
    {n : Nat} (h : p.visit m (.send sender data wait) = (some (.sent (.ok n)), q)) :
    n = data.length := by
  rw [Pipe.visit_send] at h
  split at h
  · simp at h
  split at h
  · simp at h
  split at h
  · cases hrefusal : wait.refusal m.late <;> simp [hrefusal] at h
  · simp only [Prod.mk.injEq, Option.some.injEq, Reply.sent.injEq, Except.ok.injEq] at h
    exact h.1.symm

/-- A look that brings a task further leaves it with all that it did reported. -/
theorem Underway.attempt (h : job.Underway a rest) {p q : Pipe} {now : UInt64} {buffer : Bytes}
    {call : Call} {reply : Reply} {events : List Event} {next : Option Job}
    (hp : rest.Progress buffer call reply events next)
    (hv : p.visit ⟨now, false⟩ call = (some reply, q)) :
    (next = none → job.Settled (a ++ .ofVisit ⟨none, call, now, reply⟩ events)) ∧
      ∀ rest', next = some rest' →
        job.Underway (a ++ .ofVisit ⟨none, call, now, reply⟩ events) rest' := by
  cases hp with
  | @sent sender data result =>
      refine ⟨fun _ => ?_, fun _ h => absurd h.symm (Option.some_ne_none _)⟩
      cases h
      cases result with
      | ok n =>
          obtain rfl := length_of_sent hv
          exact .sent ⟨data, sender, now⟩
      | error e => exact .sendFailed _
  | @received reader result out' =>
      refine ⟨fun _ => ?_, fun _ h => absurd h.symm (Option.some_ne_none _)⟩
      cases h
      cases result with
      | ok n => exact .received _
      | error e => cases e <;> exact .recvFailed _
  | @item reader left n out' =>
      refine ⟨fun h => absurd h (Option.some_ne_none _), fun rest' hrest => ?_⟩
      obtain rfl := Option.some.inj hrest
      cases h with
      | messages taken =>
          have hnext : (Job.messages reader ((taken ++ [out'.take n]).length + left)).Underway _
              (.messages reader left) := .messages _
          rw [List.length_append, List.length_singleton, Nat.add_assoc, Nat.add_comm 1,
            List.map_append] at hnext
          exact hnext
  | @closed reader left out' =>
      refine ⟨fun _ => ?_, fun _ h => absurd h.symm (Option.some_ne_none _)⟩
      cases h with
      | messages taken =>
          have hend : (Job.messages reader (taken.length + (left + 1))).Settled _ :=
            .ended taken (by omega)
          simpa [Account.append_def, Account.ofVisit, Visit.sent?, Visit.taken, Visit.delivered?]
            using hend
  | @failed reader left e out' =>
      refine ⟨fun h => absurd h (Option.some_ne_none _), fun rest' hrest => ?_⟩
      obtain rfl := Option.some.inj hrest
      cases h with
      | messages taken =>
          have hnext : (Job.messages reader (taken.length + (left + 1))).Underway _
              (.failed left) := .failed taken (.ofPipe e)
          simpa [Account.append_def, Account.ofVisit, Visit.sent?, Visit.taken, Visit.delivered?]
            using hnext

/-- After an error nothing comes but the end. -/
theorem Underway.finish {left : Nat} (h : job.Underway a (.failed (left + 1))) :
    job.Settled (a ++ ⟨[], 0, [], [.ended]⟩) := by
  cases h with
  | @failed reader _ taken e =>
      have hend : (Job.messages reader (taken.length + (left + 1 + 1))).Settled _ :=
        .failed taken (by omega) e
      simpa [Account.append_def] using hend

/-- A look in vain does nothing. -/
theorem Blocked.account {call : Call} {reply : Reply} {side : Side}
    (h : job.Blocked call reply side) (now : UInt64) :
    Account.ofVisit ⟨none, call, now, reply⟩ [] = .empty := by
  cases h <;> rfl

end Job

/-! ## Where a task stands -/

/-- What may be said of task `id`: its job, if it was started, the tasks of that number that are
still there, and its account. -/
inductive Standing (id : Nat) : Option Job → List Task → Account → Prop
  | unborn : Standing id none [] .empty
  | underway {job rest a} (h : Job.Underway job a rest) : Standing id (some job) [⟨id, rest⟩] a
  | cancelled {job rest a} (h : Job.Underway job a rest) : Standing id (some job) [] a
  | settled {job a} (h : Job.Settled job a) : Standing id (some job) [] a

namespace Standing

variable {id : Nat} {job : Option Job} {those those' : List Task} {a : Account}

theorem perm (h : Standing id job those a) (hp : those'.Perm those) : Standing id job those' a := by
  cases h with
  | unborn =>
      obtain rfl := List.perm_nil.mp hp
      exact .unborn
  | underway h =>
      obtain rfl := List.perm_singleton.mp hp
      exact .underway h
  | cancelled h =>
      obtain rfl := List.perm_nil.mp hp
      exact .cancelled h
  | settled h =>
      obtain rfl := List.perm_nil.mp hp
      exact .settled h

/-- A task that is no longer there was cancelled, if it had not finished before. -/
theorem gone (h : Standing id job those a) : Standing id job [] a := by
  cases h with
  | unborn => exact .unborn
  | underway h | cancelled h => exact .cancelled h
  | settled h => exact .settled h

theorem of_none (h : Standing id none those a) : those = [] ∧ a = .empty := by
  cases h
  exact ⟨rfl, rfl⟩

theorem of_some {j : Job} (h : Standing id (some j) those a) :
    (∃ rest, j.Underway a rest ∧ (those = [⟨id, rest⟩] ∨ those = [])) ∨
      (j.Settled a ∧ those = []) := by
  cases h with
  | underway h => exact .inl ⟨_, h, .inl rfl⟩
  | cancelled h => exact .inl ⟨_, h, .inr rfl⟩
  | settled h => exact .inr ⟨h, rfl⟩

/-- A task that is still there is the only one of its number, and is not finished. -/
theorem of_cons {t : Task} {l : List Task} (h : Standing id job (t :: l) a) :
    ∃ j rest, job = some j ∧ t = ⟨id, rest⟩ ∧ l = [] ∧ j.Underway a rest := by
  cases h with
  | underway h => exact ⟨_, _, rfl, rfl, rfl, h⟩

end Standing

/-! ## Acts and accounts -/

namespace Scheduler

variable {s s' : Scheduler}

theorem account_of_journal {new : List Entry} (h : s'.journal = new.reverse ++ s.journal)
    (id : Nat) : s'.account id = s.account id ++ .of new id := by
  simp only [account, h, List.reverse_append, List.reverse_reverse, Account.of_append]

/-- What does not concern the task leaves its account alone. -/
theorem account_eq {new : List Entry} {id : Nat} (h : s'.journal = new.reverse ++ s.journal)
    (hnew : ∀ e ∈ new, e.visitOf? id = none ∧ e.eventOf? id = none) :
    s'.account id = s.account id := by
  rw [account_of_journal h, Account.of_eq_empty hnew, Account.append_empty]

end Scheduler

namespace Stage

open Scheduler

variable {g g' : Stage}

/-- The tasks of the script that have the number `id`. -/
def those (g : Stage) (id : Nat) : List Task := g.crowd.filter (TaskSession.isTask id)

/-- Where every task stands. -/
def Stands (g : Stage) : Prop :=
  ∀ id, Standing id g.jobs[id]? (g.those id) (g.scheduler.account id)

/-- Nobody came or went, and nothing was done by a task or reported. -/
theorem Stands.aside (hg : g.Stands) (hjobs : g'.jobs = g.jobs)
    (hcrowd : ∀ id, (g'.those id).Perm (g.those id))
    (haccount : ∀ id, g'.scheduler.account id = g.scheduler.account id) : g'.Stands := by
  intro id
  rw [hjobs, haccount id]
  exact (hg id).perm (hcrowd id)

variable {s s' : Scheduler} {jobs : List Job} {t : Task}

/-- The task that has the floor, if it is one of the script, is the only one of its number, and is
not finished. -/
theorem Stands.running (hg : Stands ⟨s, some t, jobs⟩) (ht : t.isReaper = false) :
    ∃ job, jobs[t.id]? = some job ∧ job.Underway (s.account t.id) t.job ∧
      s.tasks.filter (TaskSession.isTask t.id) = [] := by
  have hold := hg t.id
  have hcons : (⟨s, some t, jobs⟩ : Stage).those t.id =
      t :: s.tasks.filter (TaskSession.isTask t.id) :=
    List.filter_cons_of_pos (by simp [TaskSession.isTask, ht])
  rw [hcons] at hold
  obtain ⟨job, rest, hjob, hrest, hnil, hunderway⟩ := hold.of_cons
  have hjob' : t.job = rest := congrArg Task.job hrest
  exact ⟨job, hjob, by rw [hjob']; exact hunderway, hnil⟩

/-- The task that has the floor, if it is one of the script, goes on to what is left of it. -/
theorem Stands.turn (hg : Stands ⟨s, some t, jobs⟩) {next : Option Task}
    (ht : t.isReaper = false) (hnext : ∀ u ∈ next, u.id = t.id ∧ u.isReaper = false)
    (htasks : s'.tasks.Perm s.tasks)
    (hother : ∀ id, t.id ≠ id → s'.account id = s.account id)
    (hown : ∀ job, Job.Underway job (s.account t.id) t.job →
      (next = none → job.Settled (s'.account t.id)) ∧
        ∀ u ∈ next, job.Underway (s'.account t.id) u.job) :
    Stands ⟨s', next, jobs⟩ := by
  intro id
  have hold := hg id
  by_cases hid : t.id = id
  · subst hid
    obtain ⟨job, hjob, hunderway, hnil⟩ := hg.running ht
    have hnil' : s'.tasks.filter (TaskSession.isTask t.id) = [] :=
      List.perm_nil.mp (hnil ▸ htasks.filter _)
    obtain ⟨hdone, hleft⟩ := hown job hunderway
    simp only [those, crowd, List.filter_append, hnil', List.append_nil]
    rw [hjob]
    cases next with
    | none => exact .settled (hdone rfl)
    | some u =>
        obtain ⟨huid, hureaper⟩ := hnext u rfl
        have hfilter : [u].filter (TaskSession.isTask t.id) = [⟨t.id, u.job⟩] := by
          rw [List.filter_cons_of_pos (by simp [TaskSession.isTask, hureaper, huid]),
            List.filter_nil, ← huid]
        rw [Option.toList_some, hfilter]
        exact .underway (hleft u rfl)
  · have hcons : (⟨s, some t, jobs⟩ : Stage).those id = s.tasks.filter (TaskSession.isTask id) :=
      List.filter_cons_of_neg (by simp [TaskSession.isTask, hid])
    have hcons' : (⟨s', next, jobs⟩ : Stage).those id =
        s'.tasks.filter (TaskSession.isTask id) := by
      cases next with
      | none => rfl
      | some u =>
          refine List.filter_cons_of_neg ?_
          simp [TaskSession.isTask, (hnext u rfl).1, hid]
    rw [hcons] at hold
    rw [hcons']
    show Standing id jobs[id]? _ (s'.account id)
    rw [hother id hid]
    exact hold.perm (htasks.filter _)

/-- What a task adds to the journal with a look that brings it further. -/
theorem journal_attempt (s : Scheduler) (id : Nat) (call : Call) (reply : Reply) (p : Pipe)
    (events : List Event) :
    ((s.answered (.task id) call reply p).report id events).journal =
      (.visited s.now (.task id) s.clock call reply :: events.map (.event id)).reverse ++
        s.journal := by
  rw [report_eq, journal_answered, List.reverse_cons, List.append_assoc]
  rfl

/-- With a look in vain it adds that look alone. -/
theorem journal_look (s : Scheduler) (t : Task) (call : Call) (reply : Reply) (p : Pipe) :
    ((s.answered (.task t.id) call reply p).waitPoll t).journal =
      (.visited s.now (.task t.id) s.clock call reply :: [].map (.event t.id)).reverse ++
        s.journal := by
  rw [journal_waitPoll, journal_answered]
  rfl

theorem account_stopped (s : Scheduler) (n id : Nat) :
    (s.record (.stopped n)).account id = s.account id := by
  have hjournal : (s.record (.stopped n)).journal = [Entry.stopped n].reverse ++ s.journal := rfl
  refine account_eq hjournal fun e he => ?_
  rw [List.mem_singleton.mp he]
  exact ⟨rfl, rfl⟩

theorem account_ended {n id : Nat} (h : n ≠ id) (s : Scheduler) :
    (s.report n [.ended]).account id = s.account id := by
  have hjournal : (s.report n [.ended]).journal = [Entry.event n .ended].reverse ++ s.journal :=
    rfl
  refine account_eq hjournal fun e he => ?_
  rw [List.mem_singleton.mp he]
  exact ⟨rfl, if_neg h⟩

theorem Stands.attempt (hg : Stands ⟨s, some t, jobs⟩) {call : Call} {reply : Reply} {p : Pipe}
    {events : List Event} {next : Option Job}
    (hp : t.job.Progress s.pipe.freshBuffer call reply events next)
    (hv : s.pipe.visit ⟨s.clock, false⟩ call = (some reply, p)) :
    Stands ⟨(s.answered (.task t.id) call reply p).report t.id events, next.map (⟨t.id, ·⟩),
      jobs⟩ := by
  have hjournal := journal_attempt s t.id call reply p events
  refine hg.turn (hp.isReaper t.id) ?_ ?_ (fun id hid => ?_) fun job hunderway => ?_
  · intro u hu
    obtain ⟨rest, hrest, rfl⟩ := Option.map_eq_some_iff.mp hu
    subst hrest
    refine ⟨rfl, ?_⟩
    cases rest with
    | reap every due => exact absurd rfl hp.ne_reap
    | _ => rfl
  · rw [tasks_report]
    exact tasks_answered _ _ _ _ _
  · rw [account_of_journal hjournal, Account.of_other hid, Account.append_empty]
  · rw [account_of_journal hjournal, Account.of_own]
    obtain ⟨hdone, hleft⟩ := hunderway.attempt hp hv
    refine ⟨fun h => hdone (Option.map_eq_none_iff.mp h), fun u hu => ?_⟩
    obtain ⟨rest, hrest, rfl⟩ := Option.map_eq_some_iff.mp hu
    exact hleft rest hrest

theorem Stands.enough (hg : Stands ⟨s, some t, jobs⟩) (hs : t.job.Sated) :
    Stands ⟨s.record (.stopped t.id), none, jobs⟩ := by
  refine hg.turn (hs.isReaper t.id) (fun _ h => nomatch h) (.of_eq rfl)
    (fun id _ => account_stopped s t.id id) fun job hunderway => ⟨fun _ => ?_, fun _ h => nomatch h⟩
  rw [account_stopped]
  exact .stopped hunderway hs

theorem Stands.finish {id left : Nat} (hg : Stands ⟨s, some ⟨id, .failed (left + 1)⟩, jobs⟩) :
    Stands ⟨s.report id [.ended], none, jobs⟩ := by
  have hjournal : (s.report id [.ended]).journal = [Entry.event id .ended].reverse ++ s.journal :=
    rfl
  refine hg.turn rfl (fun _ h => nomatch h) (.of_eq rfl) (fun n hn => account_ended hn s)
    fun job hunderway => ⟨fun _ => ?_, fun _ h => nomatch h⟩
  have hevents : [Entry.event id .ended].filterMap (Entry.eventOf? id) = [.ended] := by
    simp [Entry.eventOf?]
  have hended : Account.of [.event id .ended] id = ⟨[], 0, [], [.ended]⟩ := by
    simp only [Account.of, hevents]
    rfl
  rw [account_of_journal hjournal, hended]
  exact hunderway.finish

/-- A call that no task makes leaves every account alone. -/
theorem account_of_visited {agent : Agent} (h : ∀ id, agent ≠ .task id) {time : Nat}
    {clock : UInt64} {call : Call} {reply : Reply}
    (hjournal : s'.journal = .visited time agent clock call reply :: s.journal) (id : Nat) :
    s'.account id = s.account id := by
  have hjournal : s'.journal = [Entry.visited time agent clock call reply].reverse ++ s.journal :=
    hjournal
  refine account_eq hjournal fun e he => ?_
  rw [List.mem_singleton.mp he]
  exact ⟨if_neg (h id), rfl⟩

/-- Nor does a line of the log say anything about a task. -/
theorem account_noted (s : Scheduler) (notice : Notice) (id : Nat) :
    (s.record (.noted notice)).account id = s.account id := by
  have hjournal : (s.record (.noted notice)).journal =
      [Entry.noted notice].reverse ++ s.journal := rfl
  refine account_eq hjournal fun e he => ?_
  rw [List.mem_singleton.mp he]
  exact ⟨rfl, rfl⟩

theorem Stands.look (hg : Stands ⟨s, some t, jobs⟩) {call : Call} {reply : Reply} {side : Side}
    (hb : t.job.Blocked call reply side) :
    Stands ⟨(s.answered (.task t.id) call reply s.pipe).waitPoll t, none, jobs⟩ := by
  have hcrowd := (tasks_waitPoll (s.answered (.task t.id) call reply s.pipe) t).trans
    ((tasks_answered s (.task t.id) call reply s.pipe).cons t)
  refine hg.aside rfl (fun id => hcrowd.filter _) fun id => ?_
  rw [account_of_journal (journal_look s t call reply s.pipe)]
  by_cases hid : t.id = id
  · subst hid
    rw [Account.of_own, hb.account, Account.append_empty]
  · rw [Account.of_other hid, Account.append_empty]

/-- A reaper that has the floor is no task of the script, and may be replaced or left out. -/
theorem those_reaper (ht : t.isReaper = true)
    (h : s'.tasks.Perm s.tasks ∨ ∃ u : Task, u.isReaper = true ∧ s'.tasks.Perm (u :: s.tasks))
    (id : Nat) :
    ((⟨s', none, jobs⟩ : Stage).those id).Perm ((⟨s, some t, jobs⟩ : Stage).those id) := by
  have hdrop : ∀ u : Task, u.isReaper = true → ∀ l : List Task,
      (u :: l).filter (TaskSession.isTask id) = l.filter (TaskSession.isTask id) := fun u hu l =>
    List.filter_cons_of_neg (by simp [TaskSession.isTask, hu])
  have hold : (⟨s, some t, jobs⟩ : Stage).those id = s.tasks.filter (TaskSession.isTask id) :=
    hdrop t ht s.tasks
  rw [hold]
  cases h with
  | inl h => exact h.filter _
  | inr h =>
      obtain ⟨u, hu, h⟩ := h
      rw [← hdrop u hu]
      exact h.filter _

theorem Stands.start (hg : Stands ⟨s, none, jobs⟩) {job : Job} (hj : job.startable = true) :
    Stands ⟨s.spawn ⟨jobs.length, job⟩, none, jobs ++ [job]⟩ := by
  intro id
  have hold : Standing id jobs[id]? (s.tasks.filter (TaskSession.isTask id)) (s.account id) := hg id
  have htasks := (s.tasks_spawn ⟨jobs.length, job⟩).filter (TaskSession.isTask id)
  refine Standing.perm ?_ htasks
  show Standing id (jobs ++ [job])[id]? _ (s.account id)
  by_cases hid : jobs.length = id
  · -- the number is new, and nobody had it before
    subst hid
    rw [List.getElem?_eq_none (Nat.le_refl _)] at hold
    obtain ⟨hnil, hempty⟩ := hold.of_none
    have hreaper : Task.isReaper ⟨jobs.length, job⟩ = false := by
      cases job <;> first | rfl | contradiction
    have htask : TaskSession.isTask jobs.length ⟨jobs.length, job⟩ = true := by
      simp [TaskSession.isTask, hreaper]
    rw [List.filter_cons_of_pos htask, hnil, hempty, List.getElem?_concat_length]
    exact .underway (Job.underway_start hj)
  · have hother : (jobs ++ [job])[id]? = jobs[id]? := by
      rw [List.getElem?_append]
      split
      · rfl
      · next hge =>
          rw [List.getElem?_eq_none (by omega : jobs.length ≤ id)]
          exact List.getElem?_eq_none (by rw [List.length_singleton]; omega)
    rw [hother, List.filter_cons_of_neg (by simp [TaskSession.isTask, hid])]
    exact hold

theorem Stands.arranged (hg : Stands ⟨s, none, jobs⟩) (h : s.Arranged s') :
    Stands ⟨s', none, jobs⟩ := by
  intro id
  have hold : Standing id jobs[id]? (s.those id) (s.account id) := hg id
  have haccount : s'.account id = s.account id := by
    unfold account
    rw [h.journal]
  show Standing id jobs[id]? (s'.those id) (s'.account id)
  rw [haccount]
  cases h.those id with
  | inl hperm => exact hold.perm hperm
  | inr hnil =>
      rw [hnil]
      exact hold.gone

theorem Stands.act (hg : g.Stands) (h : Act g g') : g'.Stands := by
  cases h with
  | call hv =>
      exact hg.aside rfl (fun id => (tasks_answered _ _ _ _ _).filter _)
        (account_of_visited (by simp) (journal_answered _ _ _ _ _))
  | bypass hv =>
      have hinner : ∀ id, Agent.inner ≠ .task id := by simp
      exact hg.aside rfl (fun id => .rfl) (account_of_visited hinner rfl)
  | start hj => exact hg.start hj
  | arrange h => exact hg.arranged h
  | resume ht => exact hg.aside rfl (fun id => (tasks_eraseIdx ht).filter _) fun id => rfl
  | attempt hp hv => exact hg.attempt hp hv
  | look hb hv hr => exact hg.look hb
  | pause => exact hg.aside rfl (fun _ => .rfl) fun _ => rfl
  | enough hs => exact hg.enough hs
  | finish => exact hg.finish
  | @sweep s jobs id every due reply p notice hv =>
      refine hg.aside rfl (fun n => ((tasks_answered _ _ _ _ _).cons _).filter _) fun n => ?_
      refine (account_noted _ notice n).trans ?_
      exact account_of_visited (by simp) (journal_answered _ _ _ _ _) n
  | exit => exact hg.aside rfl (those_reaper rfl (.inl .rfl)) (account_noted _ _)
  | sleep hn =>
      exact hg.aside rfl (those_reaper rfl (.inr ⟨_, rfl, tasks_wait _ _ _⟩)) fun n => rfl
  | giveWay =>
      exact hg.aside rfl (those_reaper rfl (.inr ⟨_, rfl, tasks_giveWay _ _⟩)) fun n => rfl

/-- What anybody else does leaves the account of a task alone. -/
theorem account_act (h : Act g g') {id : Nat}
    (hfloor : ∀ t ∈ g.running, TaskSession.isTask id t = false) :
    g'.scheduler.account id = g.scheduler.account id := by
  have other : ∀ {t : Task}, t ∈ g.running → t.isReaper = false → t.id ≠ id := by
    rintro t hrunning hreaper rfl
    have hnot := hfloor t hrunning
    simp [TaskSession.isTask, hreaper] at hnot
  cases h with
  | call => exact account_of_visited (by simp) (journal_answered _ _ _ _ _) id
  | bypass => exact account_of_visited (by simp) rfl id
  | start | resume | pause | sleep | giveWay => rfl
  | arrange h => exact congrArg (fun journal => Account.of journal.reverse id) h.journal
  | @attempt s jobs t call reply p events next hp hv =>
      rw [account_of_journal (journal_attempt s t.id call reply p events),
        Account.of_other (other rfl (hp.isReaper t.id)), Account.append_empty]
  | @look s jobs t call reply side hb hv hr =>
      rw [account_of_journal (journal_look s t call reply s.pipe),
        Account.of_other (other rfl (hb.isReaper t.id)), Account.append_empty]
  | enough => exact account_stopped _ _ id
  | finish => exact account_ended (other rfl rfl) _
  | sweep hv =>
      exact (account_noted _ _ id).trans
        (account_of_visited (by simp) (journal_answered _ _ _ _ _) id)
  | exit => exact account_noted _ _ id

theorem kept_stands : Kept Stands := ⟨Stands.act, fun _ hg => hg⟩

end Stage

end MessagePipe
