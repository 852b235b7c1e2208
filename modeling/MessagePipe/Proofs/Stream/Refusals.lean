import MessagePipe.Proofs.Pipe.Refusals
import MessagePipe.Proofs.Pipe.WaitModes
import MessagePipe.Proofs.Stream.Delivery

/-!
# MessagePipe.Proofs.Stream.Refusals

Why a send or a receive through a stream may fail.  A stream passes on what its
pipe says, except that a pipe on which the caller would have to wait is full,
or empty (`StreamError.image`).  `StreamError.ofPipe` alone would call it full
in both cases; it does not come to that, because a receive looks for
`wouldBlock` before it converts.  Nor does the conversion ever meet the errors
of the ring that mean full and empty, which a pipe does not let out.

* `Scheduler.mirrors` — a call through the stream against the same call on the
  pipe itself;
* `Stage.kept_allowed` — what tasks report that waited as long as they had to;
* `error_surface` — pipes and streams together.
-/

namespace MessagePipe

/-! ## The reasons -/

namespace StreamError

/-- What a refusal of the pipe is for a caller to whom a pipe on which it would have to wait is
`blocked`. -/
def image (blocked : StreamError) : PipeError → StreamError
  | .ring error => ring error
  | .wouldBlock | .timeout => blocked
  | .closed => closed
  | .permissionDenied => permissionDenied

/-- Why a send through the stream may fail. Only one that tries once is told that the pipe is
full. -/
inductive OfSend (once : Bool) (dataSize : Nat) : StreamError → Prop
  | full (h : once = true) : OfSend once dataSize .full
  | tooLarge {len : Nat} (h : dataSize < len) :
      OfSend once dataSize (.ring (.messageTooLarge len dataSize))
  | closed : OfSend once dataSize .closed

/-- Why a receive through the stream may fail. Only one that tries once is told that the pipe is
empty. -/
inductive OfRecv (once : Bool) : StreamError → Prop
  | empty (h : once = true) : OfRecv once .empty
  | denied : OfRecv once (.ring .accessDenied)
  | closed : OfRecv once .closed

end StreamError

namespace PipeError

variable {dataSize : Nat} {data out : Bytes} {once : Bool} {e : PipeError}

/-- None of the errors of a send loses its meaning in a stream. -/
theorem OfSend.ofPipe_eq {wait : Wait} (h : e.OfSend dataSize data wait) :
    StreamError.ofPipe e = .image .full e := by
  cases h <;> rfl

theorem OfSend.image (h : e.OfSend dataSize data .never) (ho : e = .wouldBlock → once = true) :
    (StreamError.image .full e).OfSend once dataSize := by
  cases h with
  | tooLarge hd => exact .tooLarge hd
  | closed => exact .closed
  | wouldBlock => exact .full (ho rfl)
  | timeout hw => contradiction

/-- Nor does any of those of a receive, once it has looked whether it would have to wait. -/
theorem OfRecv.streamResult_eq (h : e.OfRecv dataSize out .never) :
    streamResult (.error e) = .error (.image .empty e) := by
  cases h with
  | timeout hw => contradiction
  | _ => rfl

/-- A stream receives into a buffer as large as a slot, which is never too short. -/
theorem OfRecv.image (h : e.OfRecv dataSize out .never) (hl : dataSize ≤ out.length)
    (ho : e = .wouldBlock → once = true) : (StreamError.image .empty e).OfRecv once := by
  cases h with
  | denied => exact .denied
  | short hs => omega
  | closed => exact .closed
  | wouldBlock => exact .empty (ho rfl)
  | timeout hw => contradiction

end PipeError

/-! ## One call -/

namespace Scheduler

variable {s : Scheduler}

/-- What a stream says is what its pipe says. -/
structure Mirrors (dataSize : Nat) (s : Scheduler) : Prop where
  send : ∀ agent sender data,
    (s.trySend agent sender data).1 =
        (s.pipe.trySend sender data s.clock).1.mapError (.image .full) ∧
      (s.trySend agent sender data).2.pipe = (s.pipe.trySend sender data s.clock).2
  recv : ∀ agent reader (out : Bytes), out.length = dataSize →
    (s.tryRecv agent reader).1 =
        (Pipe.messageOf (s.pipe.tryRecv reader out).1 (s.pipe.tryRecv reader out).2.1).mapError
          (.image .empty) ∧
      (s.tryRecv agent reader).2.pipe = (s.pipe.tryRecv reader out).2.2
  send_error : ∀ agent sender data e, (s.trySend agent sender data).1 = .error e →
    e.OfSend true dataSize
  recv_error : ∀ agent reader e, (s.tryRecv agent reader).1 = .error e → e.OfRecv true

theorem trySend_mirrors (h : s.pipe.ring.WellFormed) (agent : Agent) (sender : Credentials)
    (data : Bytes) :
    (s.trySend agent sender data).1 =
      (s.pipe.trySend sender data s.clock).1.mapError (.image .full) := by
  rw [trySend_eq]
  cases hres : (s.pipe.trySend sender data s.clock).1 with
  | ok n => rfl
  | error e => exact congrArg Except.error (Pipe.ofSend_trySend h hres).ofPipe_eq

theorem tryRecv_mirrors (h : s.pipe.ring.WellFormed) (agent : Agent) (reader : Credentials)
    {out : Bytes} (hl : out.length = s.pipe.ring.dataSize) :
    (s.tryRecv agent reader).1 =
        (Pipe.messageOf (s.pipe.tryRecv reader out).1 (s.pipe.tryRecv reader out).2.1).mapError
          (.image .empty) ∧
      (s.tryRecv agent reader).2.pipe = (s.pipe.tryRecv reader out).2.2 := by
  have hlength : s.pipe.freshBuffer.length = out.length := (Bytes.length_zeros _).trans hl.symm
  obtain ⟨hmessage, hpipe⟩ := Pipe.visit_recv_length h hlength ⟨s.clock, false⟩ reader .never
  simp only [Pipe.visit_recv_never, Option.map_some, Reply.message?, Option.some.injEq]
    at hmessage hpipe
  simp only [tryRecv_eq, pipe_answered, hmessage]
  refine ⟨?_, hpipe⟩
  cases hres : (s.pipe.tryRecv reader out).1 with
  | ok n => rfl
  | error e => exact (Pipe.ofRecv_tryRecv h hres).streamResult_eq

theorem mirrors (h : s.pipe.ring.WellFormed) : s.Mirrors s.pipe.ring.dataSize where
  send agent sender data :=
    ⟨trySend_mirrors h agent sender data, by rw [trySend_eq, pipe_answered]⟩
  recv agent reader out hl := tryRecv_mirrors h agent reader hl
  send_error agent sender data e he := by
    rw [trySend_mirrors h] at he
    cases hres : (s.pipe.trySend sender data s.clock).1 with
    | ok n => rw [hres] at he; contradiction
    | error e' =>
        rw [hres] at he
        obtain rfl := Except.error.inj he
        exact (Pipe.ofSend_trySend h hres).image fun _ => rfl
  recv_error agent reader e he := by
    have hl : s.pipe.freshBuffer.length = s.pipe.ring.dataSize := Bytes.length_zeros _
    rw [(tryRecv_mirrors h agent reader hl).1] at he
    cases hres : (s.pipe.tryRecv reader s.pipe.freshBuffer).1 with
    | ok n => rw [hres] at he; contradiction
    | error e' =>
        rw [hres] at he
        obtain rfl := Except.error.inj he
        exact (Pipe.ofRecv_tryRecv h hres).image (Nat.le_of_eq hl.symm) fun _ => rfl

end Scheduler

/-! ## Tasks -/

namespace Entry

/-- What an entry may tell of: a call that failed, if it did, for a reason of its kind, and a task
that reports no error but those of a call that waits. -/
def Allowed (dataSize : Nat) : Entry → Prop
  | visited _ _ _ call reply => call.Allows dataSize reply
  | event _ (.sent result) => ∀ e, result = .error e → e.OfSend false dataSize
  | event _ (.received result) => ∀ e, result = .error e → e.OfRecv false
  | _ => True

end Entry

/-- A task does not report that it would have had to wait, and otherwise what its call returned. -/
theorem Job.Progress.allowed {dataSize : Nat} {buffer : Bytes} {job : Job} {call : Call}
    {reply : Reply} {events : List Event} {next : Option Job}
    (h : job.Progress buffer call reply events next) (hl : dataSize ≤ buffer.length)
    (ha : call.Allows dataSize reply) (id : Nat) :
    ∀ e ∈ events, (Entry.event id e).Allowed dataSize := by
  have received : ∀ {e : PipeError}, e.OfRecv dataSize buffer .never → e ≠ .wouldBlock →
      (Entry.event id (.received (.error (.ofPipe e)))).Allowed dataSize := by
    rintro e he hw _ ⟨⟩
    have himage := he.streamResult_eq
    rw [streamResult_error hw] at himage
    rw [Except.error.inj himage]
    exact he.image hl fun h => absurd h hw
  cases h with
  | @sent sender data result hw =>
      refine List.forall_mem_singleton.mpr ?_
      cases result with
      | ok n => rintro e ⟨⟩
      | error e =>
          have he := ha e rfl
          rintro _ ⟨⟩
          rw [he.ofPipe_eq]
          exact he.image fun h => absurd (congrArg _ h) hw
  | @received reader result out' hw =>
      refine List.forall_mem_singleton.mpr ?_
      cases result with
      | ok n => rintro e ⟨⟩
      | error e =>
          have hw : e ≠ .wouldBlock := fun h => hw (congrArg _ h)
          rw [Pipe.messageOf, Except.map, streamResult_error hw]
          exact received (ha e rfl) hw
  | item =>
      refine List.forall_mem_singleton.mpr ?_
      rintro e ⟨⟩
  | closed => exact List.forall_mem_singleton.mpr trivial
  | failed hw hc => exact List.forall_mem_singleton.mpr (received (ha _ rfl) hw)

namespace Scheduler

/-- Nothing went wrong for any other reason. -/
def Allowed (dataSize : Nat) (s : Scheduler) : Prop := ∀ e ∈ s.journal, e.Allowed dataSize

variable {s s' : Scheduler} {start : PlainPipe} {dataSize : Nat}

theorem Told.dataSize_eq (h : s.Told start) :
    s.pipe.ring.dataSize = start.queue.geometry.dataSize :=
  congrArg Geometry.dataSize h.explained.geometry

theorem Told.allows (h : s.Told start) {m : Moment} {call : Call} {reply : Reply} {p : Pipe}
    (hv : s.pipe.visit m call = (some reply, p)) :
    call.Allows start.queue.geometry.dataSize reply := by
  rw [← h.dataSize_eq]
  exact Pipe.allows_visit h.ring hv

theorem Allowed.add (h : s.Allowed dataSize) {new : List Entry}
    (hjournal : s'.journal = new ++ s.journal) (hnew : ∀ e ∈ new, e.Allowed dataSize) :
    s'.Allowed dataSize := by
  intro e he
  rw [hjournal] at he
  exact (List.mem_append.mp he).elim (hnew e) (h e)

theorem Allowed.same (h : s.Allowed dataSize) (hjournal : s'.journal = s.journal) :
    s'.Allowed dataSize :=
  h.add (show s'.journal = [] ++ s.journal from hjournal) fun _ he => (List.not_mem_nil he).elim

/-- Another call. -/
theorem Allowed.visited (h : s.Allowed dataSize) {time : Nat} {agent : Agent} {clock : UInt64}
    {call : Call} {reply : Reply}
    (hjournal : s'.journal = .visited time agent clock call reply :: s.journal)
    (ha : call.Allows dataSize reply) : s'.Allowed dataSize :=
  h.add (show s'.journal = [.visited time agent clock call reply] ++ s.journal from hjournal)
    (List.forall_mem_singleton.mpr ha)

theorem Allowed.report (h : s.Allowed dataSize) {id : Nat} {events : List Event}
    (he : ∀ e ∈ events, (Entry.event id e).Allowed dataSize) :
    (s.report id events).Allowed dataSize := by
  refine h.add (congrArg journal (report_eq s id events)) fun entry hentry => ?_
  obtain ⟨e, hmem, rfl⟩ := List.mem_map.mp (List.mem_reverse.mp hentry)
  exact he e hmem

theorem Allowed.record (h : s.Allowed dataSize) {e : Entry} (he : e.Allowed dataSize) :
    (s.record e).Allowed dataSize :=
  h.add (show (s.record e).journal = [e] ++ s.journal from rfl) (List.forall_mem_singleton.mpr he)

end Scheduler

/-- Every act adds what may happen, or nothing. -/
theorem Stage.kept_allowed {start : PlainPipe} :
    Kept fun g => g.scheduler.Told start ∧
      g.scheduler.Allowed start.queue.geometry.dataSize where
  act := fun {g g'} ⟨htold, hg⟩ h => by
    refine ⟨kept_told.act htold h, ?_⟩
    cases h with
    | call hv => exact hg.visited (Scheduler.journal_answered _ _ _ _ _) (htold.allows hv)
    | bypass hv => exact hg.visited rfl (htold.allows hv)
    | start | resume | pause | giveWay | sleep => exact hg
    | arrange h => exact hg.same h.journal
    | @attempt s jobs t call reply p events next hp hv =>
        have hbuffer : start.queue.geometry.dataSize = s.pipe.freshBuffer.length :=
          htold.dataSize_eq.symm.trans (Bytes.length_zeros _).symm
        have hallows := htold.allows hv
        exact (hg.visited (Scheduler.journal_answered _ _ _ _ _) hallows).report
          (hp.allowed (Nat.le_of_eq hbuffer) hallows t.id)
    | look hb hv hr =>
        exact (hg.visited (Scheduler.journal_answered _ _ _ _ _) (htold.allows hv)).same
          (Scheduler.journal_waitPoll _ _)
    | enough hs => exact hg.record trivial
    | finish => exact hg.report (List.forall_mem_singleton.mpr trivial)
    | sweep hv =>
        exact (hg.visited (Scheduler.journal_answered _ _ _ _ _) (htold.allows hv)).record
          trivial
    | exit => exact hg.record trivial
  elapse := fun ms ⟨htold, hg⟩ => ⟨kept_told.elapse ms htold, hg⟩

theorem TaskSession.Reachable.allowed {c : PipeConfig} {config : StreamConfig} {jobs : List Job}
    {s : TaskSession} (h : s.Reachable c config jobs) :
    s.scheduler.Allowed c.geometry.dataSize :=
  (h.invariant
    (fun _ clock hp => ⟨told_create hp clock, fun _ he => (List.not_mem_nil he).elim⟩)
    Stage.kept_allowed).2

/-! ## Pipes and streams -/

/-- **Error surface**: the calls of threads on a pipe fail for the reasons of their kind and no
others; a stream over such a pipe, or over one that tasks work on, says what the pipe says; and a
task that waited does not report that it would have had to. -/
theorem error_surface {c : PipeConfig} {config : StreamConfig} {jobs : List Job} {w : World}
    {s : TaskSession} (hw : w.Reachable c) (hs : s.Reachable c config jobs) :
    w.Surface c.geometry.dataSize ∧
      (∀ stream : Scheduler, stream.pipe = w.pipe ∨ stream.pipe = s.scheduler.pipe →
        stream.Mirrors c.geometry.dataSize) ∧
      s.scheduler.Allowed c.geometry.dataSize := by
  refine ⟨hw.surface, fun stream hpipe => ?_, hs.allowed⟩
  obtain ⟨hring, hsize⟩ : stream.pipe.ring.WellFormed ∧
      stream.pipe.ring.dataSize = c.geometry.dataSize := by
    rcases hpipe with hpipe | hpipe
    · rw [hpipe]
      exact ⟨hw.sound.ring, congrArg Geometry.dataSize hw.explained.replies.geometry⟩
    · rw [hpipe]
      exact ⟨hs.told.ring, hs.told.dataSize_eq⟩
  rw [← hsize]
  exact Scheduler.mirrors hring

/-- A thread finds the only slot taken, and a stream would call that full; a task may not read the
message there. -/
theorem error_surface_denied :
    let c : PipeConfig := ⟨⟨1, 2⟩, .ofMillis 5⟩
    ∃ (w : World) (s : TaskSession), w.Reachable c ∧
      s.Reachable c .default [.send ⟨1, 1⟩ [9], .recv ⟨2, 2⟩] ∧
      w.history.map Visit.reply = [.sent (.ok 1), .sent (.error .wouldBlock)] ∧
      ((Scheduler.ofPipe w.pipe .default 8).trySend .direct ⟨1, 1⟩ [8]).1 = .error .full ∧
      (s.scheduler.account 1).events = [.received (.error (.ring .accessDenied))] ∧
      w.Surface 2 ∧
      (∀ stream : Scheduler, stream.pipe = w.pipe ∨ stream.pipe = s.scheduler.pipe →
        stream.Mirrors 2) ∧
      s.scheduler.Allowed 2 := by
  have hthreads : ∃ w : World, w.Reachable ⟨⟨1, 2⟩, .ofMillis 5⟩ ∧
      w.history.map Visit.reply = [.sent (.ok 1), .sent (.error .wouldBlock)] ∧
      ((Scheduler.ofPipe w.pipe .default 8).trySend .direct ⟨1, 1⟩ [8]).1 = .error .full :=
    ⟨_, ⟨_, [.start none (.send ⟨1, 1⟩ [9] .never), .lock 0 ⟨7, false⟩,
      .start none (.send ⟨1, 1⟩ [8] .never), .lock 1 ⟨7, false⟩], rfl, rfl⟩, rfl, rfl⟩
  have htasks : ∃ s : TaskSession, s.Reachable ⟨⟨1, 2⟩, .ofMillis 5⟩ .default
        [.send ⟨1, 1⟩ [9], .recv ⟨2, 2⟩] ∧
      (s.scheduler.account 1).events = [.received (.error (.ring .accessDenied))] :=
    ⟨_, ⟨7, _, [.act (.start (.send ⟨1, 1⟩ [9])), .act (.start (.recv ⟨2, 2⟩)),
      .exec (.resume 0), .exec (.resume 0)], rfl, rfl, rfl⟩, rfl⟩
  obtain ⟨w, hw, hreplies, hfull⟩ := hthreads
  obtain ⟨s, hs, hdenied⟩ := htasks
  obtain ⟨hsurface, hmirrors, hallowed⟩ := error_surface hw hs
  exact ⟨w, s, hw, hs, hreplies, hfull, hdenied, hsurface, hmirrors, hallowed⟩

end MessagePipe
