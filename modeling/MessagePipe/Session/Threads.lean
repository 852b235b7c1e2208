import MessagePipe.Notice
import MessagePipe.Pipe.Settle
import MessagePipe.Reaper

/-!
# MessagePipe.Session.Threads

A pipe under a script.  One conductor carries out the steps of the script in
turn; a step may be a call that the conductor makes itself, or may start a
party of threads that all make one call.  After every step the session waits
until each thread has returned or is parked for good, and then reports who
returned.

A reaper can be kept at the pipe.  If its interval is short (`isShort`) the
session waits for two of its sweeps after every step; otherwise its first
sleep outlasts the session.
-/

namespace MessagePipe

/-- What drives the clock of a pipe. -/
inductive Timekeeper where
  /-- The clock stands still unless the script moves it. -/
  | script
  /-- The clock goes on while the session waits. -/
  | time
deriving DecidableEq

/-- How a call of a party ended. -/
inductive Ending where
  | reply (reply : Reply)
  /-- A receive whose buffer was handed over whole. -/
  | message (result : Except PipeError Bytes)
  /-- The deadline lies beyond all time that can be told. -/
  | noDeadline

/-- A reaper and how the session treats it. -/
structure Keeper where
  reaper : Reaper
  /-- The session waits for its sweeps. -/
  lively : Bool

/-- A pipe under a script, between two steps. -/
structure ThreadSession where
  world : World
  clock : UInt64
  timekeeper : Timekeeper
  /-- The conductor still keeps the pipe. -/
  held : Bool
  /-- Parties started so far. -/
  parties : Nat
  /-- Parties whose threads receive whole messages. -/
  fetching : List Nat
  keeper : Option Keeper
  /-- What was logged since the last report. -/
  log : List Notice

namespace ThreadSession

/-- The steps that change something. -/
inductive Step where
  /-- A call that the conductor makes, and which does not wait. -/
  | call (call : Call)
  /-- A call that the conductor makes, and which waits for at most `timeout`. -/
  | timed (call : Call) (timeout : Duration)
  /-- A party of `n` threads; calls with a timeout give up only after the session. -/
  | start (call : Call) (n : Nat) (timeout : Option Duration)
  /-- A party of `n` threads that receive whole messages. -/
  | fetch (reader : Credentials) (n : Nat)
  | setClock (now : UInt64)
  | advanceClock (ms : UInt64)
  | sleep (ms : Nat)
  | spawnReaper
  | stopReaper
  | drop
  /-- Nothing is done; the session still waits as after any step. -/
  | look

/-- What the conductor learns from a step. -/
inductive Answer where
  | reply (reply : Reply)
  | noDeadline
  | started (party : Nat)
  | time (now : UInt64)
  | done

/-- All that a step brings to light. -/
structure Report where
  answer : Answer
  /-- Calls of parties that ended, by party. -/
  endings : List (Nat × Ending)
  notices : List Notice

/-- What can be said about a reaper. -/
inductive ReaperStatus where
  /-- It sleeps, and may or may not wake up to find the pipe closed or gone. -/
  | unknown
  | known (finished swept : Bool) (text : Option String)

/-! ## Time -/

/-- How long the machine has been running when a session takes place, in seconds: a minute. -/
def uptime : Nat := 60

/-- Deadlines are told in seconds since the machine was started, which fit 63 bits. -/
def hasDeadline (timeout : Duration) : Bool :=
  decide (uptime + timeout.secs < 9223372036854775808)

/-- Short enough to wait for. -/
def isShort (interval : Duration) : Bool := decide (interval.nanos ≤ 20000000)

/-- The session waits for a while. -/
def pass (s : ThreadSession) (ms : Nat) : ThreadSession :=
  match s.timekeeper with
  | .script => s
  | .time => { s with clock := s.clock + UInt64.ofNat ms }

/-! ## Threads -/

/-- Every thread goes on until it has returned or is parked for good. -/
def settle (s : ThreadSession) : ThreadSession :=
  { s with world := s.world.settle ⟨s.clock, false⟩ }

/-- Carries out moves of the world if they are possible. -/
def attempt (s : ThreadSession) (m : Move) : ThreadSession :=
  match s.world.step m with
  | some world => { s with world := world }
  | none => s

/-- Starts threads of a party, or one for the conductor. -/
def spawn (s : ThreadSession) (party : Option Nat) (call : Call) : Nat → ThreadSession
  | 0 => s
  | n + 1 => (s.attempt (.start party call)).spawn party call n

/-- The place of the conductor's thread. -/
def ownPlace (s : ThreadSession) : Option Nat := s.world.threads.findIdx? (·.party.isNone)

/-- The time that the conductor's thread was ready to wait is over: if it is still parked it
wakes up and looks once more. -/
def expire (s : ThreadSession) (timeout : Duration) : ThreadSession :=
  match s.ownPlace with
  | none => s
  | some i =>
    match s.world.step (.rouse i) with
    | none => s
    | some world =>
      let s := { s with world := world }.pass timeout.ceilMillis
      (s.attempt (.lock i ⟨s.clock, true⟩)).settle

/-- The reply to the conductor's own call. -/
def ownReply (s : ThreadSession) : Option Reply :=
  (s.world.results.find? (·.1.isNone)).map (·.2)

/-! ## The reaper -/

/-- The pipe as somebody finds it who asks for it. -/
def pipe? (s : ThreadSession) : Option Pipe := if s.held then some s.world.pipe else none

def note (s : ThreadSession) (n : Notice) : ThreadSession := { s with log := s.log ++ [n] }

/-- How many messages the first sweep among some looks has removed. -/
def removedBy (visits : List Visit) : Nat :=
  (visits.findSome? fun v =>
    match v.reply with
    | .swept removed _ => some removed
    | _ => none).getD 0

/-- One step of the reaper, if it can take one without a wake-up. A sweep is a call like any
other, made by a thread of the world. -/
def reaperStep (s : ThreadSession) : ThreadSession :=
  match s.keeper with
  | none => s
  | some k =>
    match k.reaper.stage with
    | .sweeping =>
      let before := s.world.history.length
      let s := (s.spawn none .sweep 1).settle
      let removed := removedBy (s.world.history.drop before)
      { s with keeper := some { k with reaper := k.reaper.swept removed } }.note (.reaperSwept removed)
    | _ =>
      match k.reaper.proceed s.pipe? with
      | none => s
      | some reaper =>
        let s := { s with keeper := some { k with reaper := reaper } }
        if reaper.isFinished then s.note .reaperExiting else s

/-- The reaper goes on until it sleeps or has exited: a round has six steps. -/
def reaperSettle (s : ThreadSession) : ThreadSession := Nat.repeat reaperStep 6 s

/-- The interval of the reaper is over: it wakes up, and goes on until it sleeps again. -/
def reaperRound (s : ThreadSession) : ThreadSession :=
  match s.keeper with
  | none => s
  | some k =>
    match k.reaper.stage with
    | .asleep interval =>
      ({ s with keeper := some { k with reaper := k.reaper.wake } }.pass
        (interval.ceilMillis + 1)).reaperSettle
    | _ => s

/-- What follows every step: the threads come to rest, and a lively reaper sweeps twice. -/
def rest (s : ThreadSession) : ThreadSession :=
  let s := s.settle
  match s.keeper with
  | some ⟨_, true⟩ => s.reaperRound.reaperRound
  | _ => s

/-- Tells the reaper to stop, and waits for its end. -/
def dismissReaper (s : ThreadSession) : ThreadSession :=
  match s.keeper with
  | none => s
  | some k =>
    let s := { s with keeper := some { k with reaper := k.reaper.raise.deliver } }.reaperSettle
    { s with keeper := none }

def hireReaper (s : ThreadSession) : ThreadSession :=
  let expiry := s.world.pipe.expiry
  let s := (s.dismissReaper.note (.reaperStarted expiry))
  { s with keeper := some ⟨.start, isShort expiry⟩ }.reaperSettle

/-- What can be said about the reaper now. -/
def reaperStatus (s : ThreadSession) : Option ReaperStatus :=
  s.keeper.map fun k =>
    if !k.lively && !k.reaper.isFinished && (s.world.pipe.closed || !s.held) then .unknown
    else
      .known k.reaper.isFinished (decide (0 < k.reaper.sweeps))
        (if k.reaper.sweeps = 0 then some k.reaper.text else none)

/-! ## Steps -/

/-- What a step does at once, before the threads come to rest. -/
def act (s : ThreadSession) : Step → Answer × ThreadSession
  | .call call =>
    let s := (s.spawn none call 1).settle
    (match s.ownReply with | some reply => .reply reply | none => .done, s)
  | .timed call timeout =>
    if hasDeadline timeout then
      let s := (s.spawn none call 1).settle.expire timeout
      (match s.ownReply with | some reply => .reply reply | none => .done, s)
    else (.noDeadline, s)
  | .start call n timeout =>
    if timeout.all hasDeadline then
      (.started s.parties, { s.spawn (some s.parties) call n with parties := s.parties + 1 })
    else (.started s.parties, { s with parties := s.parties + 1 })
  | .fetch reader n =>
    let call := .recv reader s.world.pipe.freshBuffer .forever
    (.started s.parties,
      { s.spawn (some s.parties) call n with
        parties := s.parties + 1
        fetching := s.parties :: s.fetching })
  | .setClock now => (.done, { s with clock := now })
  | .advanceClock ms => (.time (s.clock + ms), { s with clock := s.clock + ms })
  | .sleep ms => (.done, s.pass ms)
  | .spawnReaper => (.done, s.hireReaper)
  | .stopReaper => (.done, s.dismissReaper)
  | .drop => (.done, { s with held := false })
  | .look => (.done, s)

/-- The parties that a step cannot start because their deadline cannot be told. -/
def refused (s : ThreadSession) : Step → List (Nat × Ending)
  | .start _ n (some timeout) =>
    if hasDeadline timeout then [] else List.replicate n (s.parties, .noDeadline)
  | _ => []

/-- How a finished call of a party is told. -/
def ending (s : ThreadSession) (party : Nat) : Reply → Ending
  | .received result out =>
    if s.fetching.contains party then .message (Pipe.messageOf result out)
    else .reply (.received result out)
  | reply => .reply reply

/-- All calls of parties that have ended. -/
def endings (s : ThreadSession) : List (Nat × Ending) :=
  s.world.results.filterMap fun (party, reply) => party.map fun p => (p, s.ending p reply)

/-- What was logged: by the calls that ended, and by the reaper. -/
def notices (s : ThreadSession) : List Notice :=
  (s.world.history.flatMap fun v => v.call.notices v.reply) ++ s.log

/-- One step of the script. -/
def step (s : ThreadSession) (step : Step) : Report × ThreadSession :=
  let refused := s.refused step
  let (answer, s) := s.act step
  let s := s.rest
  (⟨answer, refused ++ s.endings, s.notices⟩, { s with world := s.world.dismiss, log := [] })

/-- A session over a new pipe. -/
def start (c : PipeConfig) (clock : UInt64) (timekeeper : Timekeeper) :
    Except PipeError ThreadSession := do
  let p ← Pipe.create c
  return ⟨World.ofPipe p, clock, timekeeper, true, 0, [], none, p.creationNotices⟩

end ThreadSession

end MessagePipe
