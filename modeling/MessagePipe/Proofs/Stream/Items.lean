import MessagePipe.Proofs.Pipe.Closing
import MessagePipe.Proofs.Stream.Presence
import MessagePipe.Proofs.Stream.Refusals

/-!
# MessagePipe.Proofs.Stream.Items

What a stream of messages yields.  The calls of a session are told to a plain
pipe in the order in which they were made, and that says at each moment what is
queued, who takes messages off the front of the queue, and which
(`PlainPipe.removed`).  A stream yields the messages that it takes, and then
nothing more, its end, or one denial and its end (`Streamed`).  What happens
between two of its items does not matter.

* `Explains.conserved` — a closed pipe only loses messages, from the front, and
  each of them to somebody;
* `Stage.kept_streams` — every act keeps the streams in shape.
-/

namespace MessagePipe

/-! ## Who takes which messages -/

namespace Entry

/-- The messages that a call took off the front of a pipe, with the one who made it. -/
def removes (p : PlainPipe) : Entry → List (Agent × Message)
  | visited _ agent clock call reply =>
    (p.queue.messages.take (Visit.taken ⟨none, call, clock, reply⟩)).map (agent, ·)
  | _ => []

end Entry

namespace PlainPipe

/-- The pipe after the calls that the entries tell of. -/
def after (p : PlainPipe) (entries : List Entry) : PlainPipe :=
  (p.replay (entries.filterMap Entry.visit?)).2

/-- The messages that were taken, swept or cleared, in order, and by whom. -/
def removed (p : PlainPipe) : List Entry → List (Agent × Message)
  | [] => []
  | e :: entries => e.removes p ++ (p.after [e]).removed entries

/-- The messages that task `id` took. Each was the oldest one when it was taken. -/
def served (p : PlainPipe) (id : Nat) (entries : List Entry) : List Message :=
  (p.removed entries).filterMap fun r => if r.1 = .task id then some r.2 else none

variable {p q : PlainPipe} {e : Entry} {entries later : List Entry} {id : Nat}

theorem replay_append (p : PlainPipe) (h h' : List Visit) :
    (p.replay (h ++ h')).2 = ((p.replay h).2.replay h').2 := by
  induction h generalizing p with
  | nil => rfl
  | cons v h ih => exact ih _

@[simp] theorem after_nil (p : PlainPipe) : p.after [] = p := rfl

theorem after_append (p : PlainPipe) (entries later : List Entry) :
    p.after (entries ++ later) = (p.after entries).after later := by
  simp only [after, List.filterMap_append, replay_append]

theorem after_cons (p : PlainPipe) (e : Entry) (entries : List Entry) :
    p.after (e :: entries) = (p.after [e]).after entries :=
  p.after_append [e] entries

theorem removed_append (p : PlainPipe) (entries later : List Entry) :
    p.removed (entries ++ later) = p.removed entries ++ (p.after entries).removed later := by
  induction entries generalizing p with
  | nil => rfl
  | cons e entries ih =>
      rw [List.cons_append, removed, ih, removed, List.append_assoc, ← after_cons]

theorem served_append (p : PlainPipe) (id : Nat) (entries later : List Entry) :
    p.served id (entries ++ later) = p.served id entries ++ (p.after entries).served id later := by
  simp only [served, removed_append, List.filterMap_append]

theorem served_cons (p : PlainPipe) (id : Nat) (e : Entry) (entries : List Entry) :
    p.served id (e :: entries) = p.served id [e] ++ (p.after [e]).served id entries :=
  p.served_append id [e] entries

/-- One entry: what a call of the task took, and nothing otherwise. -/
theorem served_singleton (p : PlainPipe) (id : Nat) (e : Entry) :
    p.served id [e] = p.queue.messages.take ((e.visitOf? id).elim 0 Visit.taken) := by
  cases e with
  | visited time agent clock call reply =>
      simp only [served, removed, Entry.removes, List.append_nil, List.filterMap_map,
        Function.comp_def]
      by_cases h : agent = .task id
      · simp only [h, if_true, List.filterMap_some, Entry.visitOf?, Option.elim_some]
      · simp [h, Entry.visitOf?]
  | event | stopped | noted => rfl

theorem served_eq_nil (h : ∀ e ∈ entries, e.visitOf? id = none) : p.served id entries = [] := by
  induction entries generalizing p with
  | nil => rfl
  | cons e entries ih =>
      rw [served_cons, served_singleton, h e List.mem_cons_self,
        ih fun e he => h e (List.mem_cons_of_mem _ he)]
      rfl

theorem length_served_le (p : PlainPipe) (id : Nat) (entries : List Entry) :
    (p.served id entries).length ≤ (Account.of entries id).consumed := by
  induction entries generalizing p with
  | nil => exact Nat.le_refl 0
  | cons e entries ih =>
      have hrest := ih (p.after [e])
      rw [served_cons, served_singleton, List.length_append, List.length_take]
      simp only [Account.of, List.filterMap_cons] at hrest ⊢
      cases e.visitOf? id with
      | none => simpa using hrest
      | some v =>
          simp only [History.taken_cons, Option.elim_some]
          omega

theorem Explains.after_eq (h : p.Explains (entries.filterMap Entry.visit?) q) :
    p.after entries = q :=
  congrArg Prod.snd h

theorem Answers.after_eq {time : Nat} {agent : Agent} {clock : UInt64} {call : Call} {reply : Reply}
    (ha : p.Answers ⟨none, call, clock, reply⟩ q) :
    p.after [.visited time agent clock call reply] = q :=
  Explains.after_eq (explains_cons.mpr ⟨q, ha, explains_nil.mpr rfl⟩)

/-- A closed pipe only loses messages, from the front, and each of them to somebody. -/
theorem Explains.conserved (h : p.Explains (entries.filterMap Entry.visit?) q)
    (hc : p.closed = true) :
    p.queue.messages = (p.removed entries).map Prod.snd ++ q.queue.messages := by
  induction entries generalizing p with
  | nil =>
      obtain rfl := explains_nil.mp h
      rfl
  | cons e entries ih =>
      cases hvisit : e.visit? with
      | none =>
          have hremoves : e.removes p = [] := by cases e <;> first | rfl | contradiction
          have hafter : p.after [e] = p := by simp [after, hvisit, replay]
          rw [List.filterMap_cons, hvisit] at h
          rw [removed, hremoves, hafter]
          exact ih h hc
      | some v =>
          rw [List.filterMap_cons, hvisit] at h
          obtain ⟨mid, ha, hrest⟩ := explains_cons.mp h
          have hmid : p.after [e] = mid := by
            refine Explains.after_eq ?_
            rw [List.filterMap_cons, hvisit]
            exact explains_cons.mpr ⟨mid, ha, explains_nil.mpr rfl⟩
          have hremoves : (e.removes p).map Prod.snd = p.queue.messages.take v.taken := by
            cases e with
            | visited time agent clock call reply =>
                obtain rfl := Option.some.inj hvisit
                simp [Entry.removes]
            | event | stopped | noted => contradiction
          have hmessages : mid.queue.messages = p.queue.messages.drop v.taken := by
            have hsent : v.sent? = none := by
              cases ha.outcome with
              | sent hd hopen => rw [hc] at hopen; contradiction
              | _ => rfl
            rw [ha.messages.2.2, hsent]
            exact List.append_nil _
          have hclosed : mid.closed = true := ha.closed_iff.mpr (.inl hc)
          have htail := ih hrest hclosed
          rw [removed, List.map_append, hremoves, hmid, List.append_assoc, ← htail, hmessages,
            List.take_append_drop]

/-- So does one that was closed on the way, from then on. -/
theorem Explains.conserved_within {before later rest : List Entry}
    (h : p.Explains ((before ++ later ++ rest).filterMap Entry.visit?) q)
    (hc : (p.after before).closed = true) :
    (p.after before).queue.messages = ((p.after before).removed later).map Prod.snd ++
      (p.after (before ++ later)).queue.messages := by
  rw [List.filterMap_append, List.filterMap_append] at h
  obtain ⟨_, h, -⟩ := explains_append.mp h
  obtain ⟨_, hbefore, hlater⟩ := explains_append.mp h
  obtain rfl := hbefore.after_eq
  rw [after_append, hlater.after_eq]
  exact hlater.conserved hc

end PlainPipe

/-! ## Streams -/

/-- Where a sequence of messages stands. -/
inductive Finish where
  /-- It has yielded messages and nothing else. -/
  | going
  /-- It found the pipe closed and empty, and is over. -/
  | closed
  /-- It found a message that it may not read, and said so. -/
  | denied
  /-- It was asked once more after that, and is over. -/
  | finished
deriving DecidableEq

/-- What a sequence yields after its messages. -/
def Finish.events : Finish → List Event
  | .going => []
  | .closed => [.ended]
  | .denied => [.received (.error (.ring .accessDenied))]
  | .finished => [.received (.error (.ring .accessDenied)), .ended]

/-- What is left to do, if `left` items more are wanted. -/
def Finish.rest? (reader : Credentials) (left : Nat) : Finish → Option Job
  | .going => some (.messages reader left)
  | .denied => some (.failed left)
  | .closed | .finished => none

/-- What a stream yields that is given a message. -/
def Message.event (m : Message) : Event := .received (.ok m.payload)

/-- The entry tells nothing of task `id`. -/
structure Entry.Foreign (id : Nat) (e : Entry) : Prop where
  visit : e.visitOf? id = none
  event : e.eventOf? id = none
  stopped : e ≠ .stopped id

/-- What task `id`, a stream of which `limit` items are wanted, has done and yielded in the course
of some entries. -/
structure Streamed (start : PlainPipe) (id : Nat) (reader : Credentials) (limit : Nat)
    (entries : List Entry) (finish : Finish) : Prop where
  /-- It yielded the messages that it took, and then what goes with its finish. -/
  items : (Account.of entries id).events =
    (start.served id entries).map Message.event ++ finish.events
  /-- All of them it may read. -/
  readable : ∀ m ∈ start.served id entries, reader.mayRead m.owner = true
  atMost : (Account.of entries id).events.length ≤ limit
  /-- It ends by itself only if it finds the pipe closed and empty. -/
  closed : finish = .closed → ∃ before later, entries = before ++ .event id .ended :: later ∧
    (start.after before).closed = true ∧ (start.after before).queue.messages = []
  /-- What it may not read is still at the front when it says so. -/
  denied : finish = .denied ∨ finish = .finished → ∃ before later m,
    entries = before ++ .event id (.received (.error (.ring .accessDenied))) :: later ∧
    (start.after before).queue.messages.head? = some m ∧ reader.mayRead m.owner = false
  /-- It is asked for no more only after all the items that were wanted. -/
  stopped : .stopped id ∈ entries →
    (Account.of entries id).events.length = limit ∧ (finish = .going ∨ finish = .denied)

/-- A look in vain takes nothing. -/
theorem Job.Blocked.taken {job : Job} {call : Call} {reply : Reply} {side : Side}
    (h : job.Blocked call reply side) (now : UInt64) :
    Visit.taken ⟨none, call, now, reply⟩ = 0 := by
  cases h <;> rfl

namespace Streamed

variable {start q : PlainPipe} {id limit : Nat} {reader : Credentials} {entries new : List Entry}
  {finish finish' : Finish}

theorem nil (start : PlainPipe) (id : Nat) (reader : Credentials) (limit : Nat) :
    Streamed start id reader limit [] .going where
  items := rfl
  readable _ hm := (List.not_mem_nil hm).elim
  atMost := Nat.zero_le _
  closed h := nomatch h
  denied h := by rcases h with h | h <;> contradiction
  stopped h := (List.not_mem_nil h).elim

theorem length_events_append (entries new : List Entry) (id : Nat) :
    (Account.of (entries ++ new) id).events.length =
      (Account.of entries id).events.length + (Account.of new id).events.length := by
  rw [Account.of_append, Account.append_def]
  exact List.length_append

/-- Entries by which it took some messages, and yielded them before what goes with its finish. -/
theorem append (h : Streamed start id reader limit entries finish) {more : List Message}
    (hserved : (start.after entries).served id new = more)
    (hevents : finish.events ++ (Account.of new id).events =
      more.map Message.event ++ finish'.events)
    (hread : ∀ m ∈ more, reader.mayRead m.owner = true)
    (hlimit : (Account.of entries id).events.length + (Account.of new id).events.length ≤ limit)
    (hclosed : finish' = .closed → finish = .closed ∨
      ∃ before later, new = before ++ .event id .ended :: later ∧
        ((start.after entries).after before).closed = true ∧
        ((start.after entries).after before).queue.messages = [])
    (hdenied : finish' = .denied ∨ finish' = .finished → (finish = .denied ∨ finish = .finished) ∨
      ∃ before later m,
        new = before ++ .event id (.received (.error (.ring .accessDenied))) :: later ∧
        ((start.after entries).after before).queue.messages.head? = some m ∧
        reader.mayRead m.owner = false)
    (hstopped : .stopped id ∈ entries ++ new →
      (Account.of entries id).events.length + (Account.of new id).events.length = limit ∧
        (finish' = .going ∨ finish' = .denied)) :
    Streamed start id reader limit (entries ++ new) finish' := by
  have hall : start.served id (entries ++ new) = start.served id entries ++ more := by
    rw [PlainPipe.served_append, hserved]
  refine ⟨?_, fun m hm => ?_, ?_, fun hf => ?_, fun hf => ?_, fun hs => ?_⟩
  · rw [hall, Account.of_append, Account.append_def, h.items, List.map_append, List.append_assoc,
      List.append_assoc, ← hevents]
  · rw [hall] at hm
    exact (List.mem_append.mp hm).elim (h.readable m) (hread m)
  · rw [length_events_append]
    exact hlimit
  · cases hclosed hf with
    | inl hold =>
        obtain ⟨before, later, rfl, hmoment⟩ := h.closed hold
        exact ⟨before, later ++ new, by simp, hmoment⟩
    | inr hnew =>
        obtain ⟨before, later, rfl, hmoment⟩ := hnew
        rw [← PlainPipe.after_append] at hmoment
        exact ⟨entries ++ before, later, by simp, hmoment⟩
  · cases hdenied hf with
    | inl hold =>
        obtain ⟨before, later, m, rfl, hmoment⟩ := h.denied hold
        exact ⟨before, later ++ new, m, by simp, hmoment⟩
    | inr hnew =>
        obtain ⟨before, later, m, rfl, hmoment⟩ := hnew
        rw [← PlainPipe.after_append] at hmoment
        exact ⟨entries ++ before, later, m, by simp, hmoment⟩
  · rw [length_events_append]
    exact hstopped hs

/-- Entries by which it took nothing and yielded nothing. -/
theorem aside (h : Streamed start id reader limit entries finish)
    (hserved : (start.after entries).served id new = [])
    (hevents : (Account.of new id).events = []) (hstopped : .stopped id ∉ new) :
    Streamed start id reader limit (entries ++ new) finish := by
  refine h.append hserved ?_ (fun _ hm => (List.not_mem_nil hm).elim) ?_ .inl .inl fun hs => ?_
  · rw [hevents, List.append_nil]
    rfl
  · rw [hevents]
    exact h.atMost
  · rw [hevents]
    exact h.stopped ((List.mem_append.mp hs).resolve_right hstopped)

/-- Entries that are not about the task. -/
theorem other (h : Streamed start id reader limit entries finish)
    (hnew : ∀ e ∈ new, e.Foreign id) : Streamed start id reader limit (entries ++ new) finish := by
  refine h.aside (PlainPipe.served_eq_nil fun e he => (hnew e he).visit) ?_ fun hs =>
    (hnew _ hs).stopped rfl
  rw [Account.of_eq_empty fun e he => ⟨(hnew e he).visit, (hnew e he).event⟩]
  rfl

/-- No error but a denial is an item, and nothing follows it but the end. -/
theorem refusals (h : Streamed start id reader limit entries finish) {before after : List Event}
    {e : StreamError}
    (he : (Account.of entries id).events = before ++ .received (.error e) :: after) :
    e = .ring .accessDenied ∧
      (finish = .denied ∧ after = [] ∨ finish = .finished ∧ after = [.ended]) := by
  have htail : ∀ (l : List Message) (before : List Event),
      l.map Message.event ++ finish.events = before ++ .received (.error e) :: after →
        ∃ before', finish.events = before' ++ .received (.error e) :: after := by
    intro l
    induction l with
    | nil => exact fun before he => ⟨before, he⟩
    | cons m l ih =>
        intro before he
        cases before with
        | nil => simp [Message.event] at he
        | cons x before => exact ih before (List.cons.inj he).2
  obtain ⟨before', hfinish⟩ := htail _ before (h.items.symm.trans he)
  cases finish with
  | going => simp [Finish.events] at hfinish
  | closed => cases before' <;> simp [Finish.events] at hfinish
  | denied => rcases before' with _ | ⟨x, before'⟩ <;> simp_all [Finish.events]
  | finished => rcases before' with _ | ⟨x, _ | ⟨y, before'⟩⟩ <;> simp_all [Finish.events]

/-- As long as it has yielded nothing but messages it may go on. -/
theorem eq_going (h : Streamed start id reader limit entries finish) {taken : List Bytes}
    (hevents : (Account.of entries id).events = taken.map fun m => .received (.ok m)) :
    finish = .going := by
  have hlast : ∀ e ∈ finish.events, ∃ m, e = .received (.ok m) := by
    intro e he
    have hmem : e ∈ taken.map fun m => Event.received (.ok m) := by
      rw [← hevents, h.items]
      exact List.mem_append_right _ he
    obtain ⟨m, -, rfl⟩ := List.mem_map.mp hmem
    exact ⟨m, rfl⟩
  cases finish with
  | going => rfl
  | closed | denied | finished => simp [Finish.events] at hlast

/-- A stream that is not finished wants as many items as it has not yielded. -/
theorem of_underway (h : Streamed start id reader limit entries finish) {rest : Job}
    (hu : (Job.messages reader limit).Underway (.of entries id) rest) :
    ∃ left, finish.rest? reader left = some rest ∧
      (Account.of entries id).events.length + left = limit := by
  generalize haccount : Account.of entries id = a at hu
  have hevents := congrArg Account.events haccount
  cases hu with
  | @messages _ left taken =>
      obtain rfl := h.eq_going hevents
      exact ⟨left, rfl, by rw [List.length_map]⟩
  | @failed _ left taken e =>
      rcases (h.refusals hevents).2 with ⟨rfl, -⟩ | ⟨-, hend⟩
      · exact ⟨left, rfl, by simp; omega⟩
      · contradiction

/-- What it yields after it has yielded nothing but messages. -/
theorem since (h : Streamed start id reader limit entries .going)
    (h' : Streamed start id reader limit (entries ++ new) finish') :
    (Account.of (entries ++ new) id).events = (Account.of entries id).events ++
      ((start.after entries).served id new).map Message.event ++ finish'.events := by
  rw [h'.items, h.items, PlainPipe.served_append, List.map_append, Finish.events, List.append_nil]

/-- Nothing is left after a stream that has found the pipe closed and empty. -/
theorem emptied (h : Streamed start id reader limit entries .closed)
    (he : start.Explains (entries.filterMap Entry.visit?) q) : q.queue.messages = [] := by
  obtain ⟨before, later, rfl, hclosed, hempty⟩ := h.closed rfl
  have hafter := he.after_eq
  rw [← List.append_nil (before ++ .event id .ended :: later)] at he
  have hnothing := he.conserved_within hclosed
  rw [hempty, hafter] at hnothing
  exact (List.nil_eq_append_iff.mp hnothing).2

/-- What a task reports with a call of its own. -/
theorem served_own (p : PlainPipe) (time id : Nat) (clock : UInt64) (call : Call) (reply : Reply)
    (events : List Event) :
    p.served id (.visited time (.task id) clock call reply :: events.map (.event id)) =
      p.queue.messages.take (Visit.taken ⟨none, call, clock, reply⟩) := by
  have hrest : ∀ q : PlainPipe, q.served id (events.map (.event id)) = [] := fun q =>
    PlainPipe.served_eq_nil fun e he => by
      obtain ⟨event, -, rfl⟩ := List.mem_map.mp he
      rfl
  rw [PlainPipe.served_cons, PlainPipe.served_singleton, hrest, List.append_nil]
  simp [Entry.visitOf?]

theorem events_own (time id : Nat) (clock : UInt64) (call : Call) (reply : Reply)
    (events : List Event) :
    (Account.of (.visited time (.task id) clock call reply :: events.map (.event id)) id).events =
      events :=
  congrArg Account.events (Account.of_own time id clock call reply events)

/-- A look that brings a stream further yields the oldest message, or a denial, or ends it. -/
theorem attempt (h : Streamed start id reader limit entries .going) {buffer : Bytes} {left : Nat}
    {call : Call} {reply : Reply} {events : List Event} {next : Option Job} {time : Nat}
    {clock : UInt64}
    (hp : (Job.messages reader left).Progress buffer call reply events next)
    (hleft : (Account.of entries id).events.length + left = limit)
    (ha : (start.after entries).Answers ⟨none, call, clock, reply⟩ q)
    (hfit : ∀ m ∈ (start.after entries).queue.messages, m.payload.length ≤ buffer.length) :
    ∃ finish, Streamed start id reader limit
      (entries ++ .visited time (.task id) clock call reply :: events.map (.event id)) finish := by
  have hserved := served_own (start.after entries) time id clock call reply events
  have hevents := events_own time id clock call reply events
  have hafter : (start.after entries).after [.visited time (.task id) clock call reply] = q :=
    ha.after_eq
  -- it was asked, so it is not the case that no more was wanted
  have hstopped : left ≠ 0 → .stopped id ∉
      entries ++ .visited time (.task id) clock call reply :: events.map (.event id) := by
    intro hpos hs
    rcases List.mem_append.mp hs with hs | hs
    · have := (h.stopped hs).1
      omega
    · simp at hs
  cases hp with
  | @item _ left n out' =>
      cases ha.outcome with
      | @received _ _ _ _ _ m rest hm hread hl =>
          rw [hm] at hserved
          rw [List.take_left] at hevents hserved hstopped ⊢
          refine ⟨.going, h.append hserved ?_ ?_ ?_ nofun ?_ fun hs =>
            absurd hs (hstopped (Nat.succ_ne_zero _))⟩
          · rw [hevents]
            rfl
          · exact List.forall_mem_singleton.mpr hread
          · rw [hevents, List.length_singleton]
            omega
          · rintro (hf | hf) <;> contradiction
  | @closed _ left out' =>
      cases ha.outcome with
      | recvClosed hc hn =>
          refine ⟨.closed, h.append hserved ?_ ?_ ?_ (fun _ => .inr ?_) ?_ fun hs =>
            absurd hs (hstopped (Nat.succ_ne_zero _))⟩
          · rw [hevents]
            rfl
          · exact fun _ hm => (List.not_mem_nil hm).elim
          · rw [hevents, List.length_singleton]
            omega
          · exact ⟨[_], [], rfl, by rw [hafter]; exact ⟨hc, hn⟩⟩
          · rintro (hf | hf) <;> contradiction
      | recvRefused _ _ he => simp [PlainPipe.refusal] at he
  | @failed _ left e out' hw hc =>
      cases ha.outcome with
      | recvClosed => contradiction
      | recvRefused _ _ he => exact absurd (Option.some.inj he).symm hw
      | @recvDenied _ _ _ _ _ m rest hm hread =>
          refine ⟨.denied, h.append hserved ?_ ?_ ?_ nofun (fun _ => .inr ?_) fun hs =>
            absurd hs (hstopped (Nat.succ_ne_zero _))⟩
          · rw [hevents]
            rfl
          · exact fun _ hm => (List.not_mem_nil hm).elim
          · rw [hevents, List.length_singleton]
            omega
          · exact ⟨[_], [], m, rfl, by rw [hafter, hm]; rfl, hread⟩
      | @recvShort _ _ _ _ _ m rest hm hl =>
          have hle := hfit m (hm ▸ List.mem_cons_self)
          omega

/-- After a denial nothing comes but the end. -/
theorem afterDenial (h : Streamed start id reader limit entries .denied) {left : Nat}
    (hleft : (Account.of entries id).events.length + (left + 1) = limit) :
    Streamed start id reader limit (entries ++ [.event id .ended]) .finished := by
  have hevents : (Account.of [.event id .ended] id).events = [.ended] := by
    simp [Account.of, Entry.eventOf?]
  refine h.append rfl ?_ (fun _ hm => (List.not_mem_nil hm).elim) ?_
    (fun heq => by contradiction) (fun _ => .inl (.inl rfl)) fun hs => ?_
  · rw [hevents]
    rfl
  · rw [hevents, List.length_singleton]
    omega
  · have hold : Entry.stopped id ∈ entries := by simpa using hs
    have := (h.stopped hold).1
    omega

/-- When all items that were wanted were yielded no more is asked for. -/
theorem enough (h : Streamed start id reader limit entries finish)
    (hfinish : finish = .going ∨ finish = .denied)
    (hall : (Account.of entries id).events.length = limit) :
    Streamed start id reader limit (entries ++ [.stopped id]) finish := by
  refine h.append rfl ?_ (fun _ hm => (List.not_mem_nil hm).elim) (Nat.le_of_eq hall) .inl .inl
    fun _ => ⟨hall, hfinish⟩
  exact List.append_nil _

end Streamed

/-! ## What a stage keeps -/

namespace Stage

open Scheduler

/-- Every stream of messages is in shape. -/
structure Streams (start : PlainPipe) (g : Stage) : Prop where
  shape : ∀ id reader limit, g.jobs[id]? = some (.messages reader limit) →
    ∃ finish, Streamed start id reader limit g.scheduler.journal.reverse finish
  /-- Only what was started can have had enough. -/
  stopped : ∀ id, .stopped id ∈ g.scheduler.journal → id < g.jobs.length

variable {g g' : Stage} {start : PlainPipe} {s s' : Scheduler} {jobs : List Job} {t : Task}
  {floor floor' : Option Task} {new : List Entry}

/-- What concerns no task leaves streams alone. -/
theorem Streams.other (hg : Streams start ⟨s, floor, jobs⟩)
    (hjournal : s'.journal = new.reverse ++ s.journal)
    (hnew : ∀ id, ∀ e ∈ new, e.Foreign id) : Streams start ⟨s', floor', jobs⟩ where
  shape := fun id reader limit hjob => by
    obtain ⟨finish, hstream⟩ := hg.shape id reader limit hjob
    refine ⟨finish, ?_⟩
    simp only [hjournal, List.reverse_append, List.reverse_reverse]
    exact hstream.other (hnew id)
  stopped := fun id hs => by
    simp only [hjournal] at hs
    rcases List.mem_append.mp hs with hs | hs
    · exact absurd rfl (hnew id _ (List.mem_reverse.mp hs)).stopped
    · exact hg.stopped id hs

theorem Streams.same (hg : Streams start ⟨s, floor, jobs⟩) (hjournal : s'.journal = s.journal) :
    Streams start ⟨s', floor', jobs⟩ :=
  hg.other (show s'.journal = [].reverse ++ s.journal from hjournal)
    fun _ _ he => (List.not_mem_nil he).elim

/-- A call that no task makes. -/
theorem Streams.visited (hg : Streams start ⟨s, floor, jobs⟩) {agent : Agent}
    (hagent : ∀ id, agent ≠ .task id) {time : Nat} {clock : UInt64} {call : Call} {reply : Reply}
    (hjournal : s'.journal = .visited time agent clock call reply :: s.journal) :
    Streams start ⟨s', floor', jobs⟩ := by
  have hjournal : s'.journal = [Entry.visited time agent clock call reply].reverse ++ s.journal :=
    hjournal
  refine hg.other hjournal fun id e he => ?_
  rw [List.mem_singleton.mp he]
  exact ⟨if_neg (hagent id), rfl, nofun⟩

theorem Streams.noted (hg : Streams start ⟨s, floor, jobs⟩) (notice : Notice) :
    Streams start ⟨s.record (.noted notice), floor', jobs⟩ := by
  have hjournal : (s.record (.noted notice)).journal = [Entry.noted notice].reverse ++ s.journal :=
    rfl
  refine hg.other hjournal fun id e he => ?_
  rw [List.mem_singleton.mp he]
  exact ⟨rfl, rfl, nofun⟩

/-- A stream that has the floor wants as many items as it has not yielded. -/
theorem Streams.running (hg : Streams start ⟨s, some t, jobs⟩) (hs : Stands ⟨s, some t, jobs⟩)
    (ht : t.isReaper = false) {reader : Credentials} {limit : Nat}
    (hjob : jobs[t.id]? = some (.messages reader limit)) :
    ∃ finish left, finish.rest? reader left = some t.job ∧
      Streamed start t.id reader limit s.journal.reverse finish ∧
      (Account.of s.journal.reverse t.id).events.length + left = limit := by
  obtain ⟨finish, hstream⟩ := hg.shape t.id reader limit hjob
  obtain ⟨job, hjob', hunderway, -⟩ := hs.running ht
  obtain rfl := Option.some.inj (hjob'.symm.trans hjob)
  obtain ⟨left, hrest, hleft⟩ := hstream.of_underway hunderway
  exact ⟨finish, left, hrest, hstream, hleft⟩

/-- The task that has the floor goes on, and the others are left alone. -/
theorem Streams.turn (hg : Streams start ⟨s, some t, jobs⟩)
    (hjournal : s'.journal = new.reverse ++ s.journal)
    (hs : Stands ⟨s, some t, jobs⟩) (ht : t.isReaper = false)
    (hother : ∀ id, t.id ≠ id → ∀ e ∈ new, e.Foreign id)
    (hown : ∀ reader limit, jobs[t.id]? = some (.messages reader limit) →
      ∃ finish, Streamed start t.id reader limit (s.journal.reverse ++ new) finish) :
    Streams start ⟨s', floor', jobs⟩ where
  shape := fun id reader limit hjob => by
    simp only [hjournal, List.reverse_append, List.reverse_reverse]
    by_cases hid : t.id = id
    · subst hid
      exact hown reader limit hjob
    · obtain ⟨finish, hstream⟩ := hg.shape id reader limit hjob
      exact ⟨finish, hstream.other (hother id hid)⟩
  stopped := fun id hstopped => by
    simp only [hjournal] at hstopped
    rcases List.mem_append.mp hstopped with hnew | hold
    · by_cases hid : t.id = id
      · obtain ⟨job, hjob, -⟩ := hs.running ht
        exact hid ▸ (List.getElem?_eq_some_iff.mp hjob).1
      · exact absurd rfl (hother id hid _ (List.mem_reverse.mp hnew)).stopped
    · exact hg.stopped id hold

theorem other_own {time id n : Nat} (h : n ≠ id) {clock : UInt64} {call : Call} {reply : Reply}
    {events : List Event} :
    ∀ e ∈ Entry.visited time (.task n) clock call reply :: events.map (.event n),
      e.Foreign id := by
  intro e he
  rcases List.mem_cons.mp he with rfl | he
  · exact ⟨if_neg fun heq => h (Agent.task.inj heq), rfl, nofun⟩
  · obtain ⟨event, -, rfl⟩ := List.mem_map.mp he
    exact ⟨rfl, if_neg h, nofun⟩

theorem Streams.attempt (hg : Streams start ⟨s, some t, jobs⟩) (hs : Stands ⟨s, some t, jobs⟩)
    (htold : s.Told start) {call : Call} {reply : Reply} {p : Pipe} {events : List Event}
    {next : Option Job} (hp : t.job.Progress s.pipe.freshBuffer call reply events next)
    (hv : s.pipe.visit ⟨s.clock, false⟩ call = (some reply, p)) :
    Streams start ⟨(s.answered (.task t.id) call reply p).report t.id events, floor', jobs⟩ := by
  have hjournal := journal_attempt s t.id call reply p events
  have ht : t.isReaper = false := hp.isReaper t.id
  refine hg.turn hjournal hs ht (fun id hid => other_own hid) fun reader limit hjob => ?_
  obtain ⟨finish, left, hrest, hstream, hleft⟩ := hg.running hs ht hjob
  cases finish with
  | going =>
      rw [← Option.some.inj hrest] at hp
      have hafter : start.after s.journal.reverse = s.pipe.plain := htold.explained.after_eq
      have ha : s.pipe.plain.Answers ⟨none, call, s.clock, reply⟩
          (s.pipe.visit ⟨s.clock, false⟩ call).2.plain :=
        Pipe.plain_visit htold.ring (congrArg Prod.fst hv)
      refine hstream.attempt hp hleft (hafter ▸ ha) fun m hm => ?_
      rw [hafter] at hm
      have hle : m.payload.length ≤ s.pipe.ring.dataSize := htold.ring.fits s.pipe.closed m hm
      exact hle.trans (Nat.le_of_eq (Bytes.length_zeros _).symm)
  | denied =>
      rw [← Option.some.inj hrest] at hp
      cases hp
  | closed | finished => contradiction

theorem Streams.look (hg : Streams start ⟨s, some t, jobs⟩) (hs : Stands ⟨s, some t, jobs⟩)
    {call : Call} {reply : Reply} {side : Side} (hb : t.job.Blocked call reply side) :
    Streams start ⟨(s.answered (.task t.id) call reply s.pipe).waitPoll t, floor', jobs⟩ := by
  have hjournal := journal_look s t call reply s.pipe
  have ht : t.isReaper = false := hb.isReaper t.id
  refine hg.turn hjournal hs ht (fun id hid => other_own hid) fun reader limit hjob => ?_
  obtain ⟨finish, hstream⟩ := hg.shape t.id reader limit hjob
  have htaken : Visit.taken ⟨none, call, s.clock, reply⟩ = 0 := hb.taken s.clock
  refine ⟨finish, hstream.aside ?_ (Streamed.events_own ..) (by simp)⟩
  rw [Streamed.served_own, htaken, List.take_zero]

theorem Streams.enough (hg : Streams start ⟨s, some t, jobs⟩) (hs : Stands ⟨s, some t, jobs⟩)
    (hsated : t.job.Sated) : Streams start ⟨s.record (.stopped t.id), floor', jobs⟩ := by
  have hjournal : (s.record (.stopped t.id)).journal = [Entry.stopped t.id].reverse ++ s.journal :=
    rfl
  have ht : t.isReaper = false := hsated.isReaper t.id
  refine hg.turn hjournal hs ht (fun n hn e he => ?_) fun reader limit hjob => ?_
  · rw [List.mem_singleton.mp he]
    exact ⟨rfl, rfl, fun heq => hn (Entry.stopped.inj heq)⟩
  · obtain ⟨finish, left, hrest, hstream, hleft⟩ := hg.running hs ht hjob
    generalize t.job = job at hsated hrest
    cases finish with
    | going =>
        cases hrest
        cases hsated
        exact ⟨.going, hstream.enough (.inl rfl) hleft⟩
    | denied =>
        cases hrest
        cases hsated
        exact ⟨.denied, hstream.enough (.inr rfl) hleft⟩
    | closed | finished => contradiction

theorem Streams.finish {id left : Nat} (hg : Streams start ⟨s, some ⟨id, .failed (left + 1)⟩, jobs⟩)
    (hs : Stands ⟨s, some ⟨id, .failed (left + 1)⟩, jobs⟩) :
    Streams start ⟨s.report id [.ended], floor', jobs⟩ := by
  have hjournal : (s.report id [.ended]).journal = [Entry.event id .ended].reverse ++ s.journal :=
    rfl
  refine hg.turn hjournal hs rfl (fun n hn e he => ?_) fun reader limit hjob => ?_
  · rw [List.mem_singleton.mp he]
    exact ⟨rfl, if_neg hn, nofun⟩
  · obtain ⟨finish, left', hrest, hstream, hleft⟩ := hg.running hs rfl hjob
    cases finish with
    | denied =>
        cases hrest
        exact ⟨.finished, hstream.afterDenial hleft⟩
    | going => cases hrest
    | closed | finished => contradiction

/-- A task that was just started has taken nothing and yielded nothing. -/
theorem Streams.born (hg : Streams start ⟨s, none, jobs⟩) (hs : Stands ⟨s, none, jobs⟩)
    (job : Job) (hjournal : s'.journal = s.journal) :
    Streams start ⟨s', none, jobs ++ [job]⟩ where
  shape := fun id reader limit hjob => by
    simp only [hjournal]
    rcases lt_trichotomy id jobs.length with hlt | rfl | hgt
    · exact hg.shape id reader limit ((List.getElem?_append_left hlt).symm.trans hjob)
    · have hold := hs jobs.length
      rw [List.getElem?_eq_none (Nat.le_refl _)] at hold
      have hempty : Account.of s.journal.reverse jobs.length = .empty := hold.of_none.2
      have hserved := start.length_served_le jobs.length s.journal.reverse
      rw [hempty] at hserved
      have hstopped : .stopped jobs.length ∉ s.journal.reverse := fun hstopped =>
        Nat.lt_irrefl _ (hg.stopped _ (List.mem_reverse.mp hstopped))
      have hnew := (Streamed.nil start jobs.length reader limit).aside
        (List.eq_nil_of_length_eq_zero (Nat.le_zero.mp hserved)) (congrArg Account.events hempty)
        hstopped
      exact ⟨.going, hnew⟩
    · rw [List.getElem?_eq_none (by rw [List.length_append]; exact hgt)] at hjob
      contradiction
  stopped := fun id hstopped => by
    rw [hjournal] at hstopped
    have hlt : id < jobs.length := hg.stopped id hstopped
    exact hlt.trans_le (List.prefix_append jobs [job]).length_le

/-- Every act keeps the streams in shape. -/
theorem kept_streams {start : PlainPipe} :
    Kept fun g => g.Stands ∧ g.scheduler.Told start ∧ g.Streams start where
  act := fun {g g'} ⟨hs, htold, hg⟩ h => by
    refine ⟨kept_stands.act hs h, kept_told.act htold h, ?_⟩
    cases h with
    | call hv => exact hg.visited (by simp) (journal_answered _ _ _ _ _)
    | bypass hv => exact hg.visited (by simp) rfl
    | start hj => exact hg.born hs _ rfl
    | arrange h => exact hg.same h.journal
    | resume | pause | sleep | giveWay => exact hg.same rfl
    | attempt hp hv => exact hg.attempt hs htold hp hv
    | look hb hv hr => exact hg.look hs hb
    | enough hsated => exact hg.enough hs hsated
    | finish => exact hg.finish hs
    | @sweep s jobs id every due reply p notice hv =>
        have hswept : Streams start ⟨s.answered (.reaper id) .sweep reply p, none, jobs⟩ :=
          hg.visited (by simp) (journal_answered _ _ _ _ _)
        exact hswept.noted notice
    | exit => exact hg.noted _
  elapse := fun ms ⟨hs, htold, hg⟩ =>
    ⟨kept_stands.elapse ms hs, kept_told.elapse ms htold, hg.same rfl⟩

end Stage

end MessagePipe
