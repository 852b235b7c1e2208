import MessagePipe.Pipe.Call

/-!
# MessagePipe.Pipe.Threads

Any number of threads at work on one pipe.  A thread makes one call, and its
way through the call is cut where another thread can come between:

1. `entering`: the lock is still to be taken (a sweep first reads the expiry,
   which needs no lock, and is then `primed`);
2. `parked`: a look left nothing to do but wait; parking gave the lock back;
3. `woken`: the wait is over, the lock is still to be taken again;
4. `leaving`: the call is decided and the lock free, but some sides are still
   to be woken.

A `World` is a pipe with its threads and the looks that ended calls so far,
oldest first.  `World.step` carries out one `Move`; which moves happen, and in
which order, is up to the world outside.
-/

namespace MessagePipe

/-- How far a thread is with its call. -/
inductive Phase where
  | entering
  | primed (expiryMs : UInt64)
  | parked (side : Side)
  | woken (side : Side)
  | leaving (owed : List Side) (reply : Reply)

/-- A thread and its call. Threads that were started together form a party; a thread that
was started by itself may belong to none. -/
structure Thread where
  party : Option Nat
  call : Call
  phase : Phase

/-- A look that ended a call. -/
structure Visit where
  party : Option Nat
  call : Call
  now : UInt64
  reply : Reply

/-- A pipe and the threads at work on it. -/
structure World where
  pipe : Pipe
  threads : List Thread
  history : List Visit

namespace Thread

/-- Whether the thread has to read the expiry before it takes the lock. -/
def loads (t : Thread) : Bool :=
  match t.call, t.phase with
  | .sweep, .entering => true
  | _, _ => false

/-- A signal for one side reaches the threads that are parked there. -/
def wake (side : Side) (t : Thread) : Thread :=
  match t.phase with
  | .parked s => if s = side then { t with phase := .woken s } else t
  | _ => t

/-- The look of a thread that takes the lock now; `none` if it does not want the lock. -/
def look (t : Thread) (p : Pipe) (m : Moment) : Option (Option Reply × Pipe) :=
  match t.phase with
  | .entering => if t.loads then none else some (p.visit m t.call)
  | .primed expiryMs => let (reply, p) := p.sweepReply expiryMs m.now; some (some reply, p)
  | .woken side => some ((p.withdraw side).visit m t.call)
  | .parked _ | .leaving _ _ => none

/-- The reply of a thread that has nothing left to do. -/
def result (t : Thread) : Option Reply :=
  match t.phase with
  | .leaving [] reply => some reply
  | _ => none

end Thread

/-- What can happen next. Threads are named by their place in the list. -/
inductive Move where
  /-- A thread appears. -/
  | start (party : Option Nat) (call : Call)
  /-- A sweep reads the expiry. -/
  | load (i : Nat)
  /-- A thread takes the lock, looks, and gives the lock back. -/
  | lock (i : Nat) (m : Moment)
  /-- A thread wakes the first side that it still has to wake. -/
  | signal (i : Nat)
  /-- A parked thread wakes up without a signal, at its deadline or for no reason. -/
  | rouse (i : Nat)
deriving DecidableEq

namespace World

/-- A pipe that nobody works on. -/
def ofPipe (p : Pipe) : World := ⟨p, [], []⟩

def setThread (w : World) (i : Nat) (t : Thread) : World :=
  { w with threads := w.threads.set i t }

/-- A thread has looked at the pipe: its call is decided, or it parks. -/
def conclude (w : World) (i : Nat) (t : Thread) (m : Moment) : Option Reply × Pipe → World
  | (some reply, p) =>
    { pipe := p
      threads := w.threads.set i { t with phase := .leaving reply.signals reply }
      history := w.history ++ [⟨t.party, t.call, m.now, reply⟩] }
  | (none, p) =>
    { w with
      pipe := p.enroll t.call.side
      threads := w.threads.set i { t with phase := .parked t.call.side } }

/-- One move; `none` if it is not possible now. -/
def step (w : World) : Move → Option World
  | .start party call => some { w with threads := w.threads ++ [⟨party, call, .entering⟩] }
  | .load i => do
    let t ← w.threads[i]?
    if t.loads then some (w.setThread i { t with phase := .primed w.pipe.expiryMs }) else none
  | .lock i m => do
    let t ← w.threads[i]?
    let found ← t.look w.pipe m
    some (w.conclude i t m found)
  | .signal i => do
    let t ← w.threads[i]?
    match t.phase with
    | .leaving (side :: owed) reply =>
      some { w with
        threads := (w.threads.set i { t with phase := .leaving owed reply }).map (Thread.wake side) }
    | _ => none
  | .rouse i => do
    let t ← w.threads[i]?
    match t.phase with
    | .parked side => some (w.setThread i { t with phase := .woken side })
    | _ => none

/-- A sequence of moves, if each is possible in its turn. -/
def run (w : World) : List Move → Option World
  | [] => some w
  | m :: ms => do (← w.step m).run ms

/-! ### What a move was -/

variable {w w' : World} {i : Nat}

theorem load_eq_some (h : w.step (.load i) = some w') :
    ∃ t, w.threads[i]? = some t ∧ t.loads = true ∧
      w' = w.setThread i { t with phase := .primed w.pipe.expiryMs } := by
  simp only [step, Option.bind_eq_bind, Option.bind_eq_some_iff] at h
  obtain ⟨t, ht, h⟩ := h
  split at h
  · next hl => exact ⟨t, ht, hl, (Option.some.inj h).symm⟩
  · contradiction

theorem lock_eq_some {m : Moment} (h : w.step (.lock i m) = some w') :
    ∃ t found, w.threads[i]? = some t ∧ t.look w.pipe m = some found ∧
      w' = w.conclude i t m found := by
  simp only [step, Option.bind_eq_bind, Option.bind_eq_some_iff] at h
  obtain ⟨t, ht, found, hlook, h⟩ := h
  exact ⟨t, found, ht, hlook, (Option.some.inj h).symm⟩

theorem signal_eq_some (h : w.step (.signal i) = some w') :
    ∃ t side owed reply, w.threads[i]? = some t ∧ t.phase = .leaving (side :: owed) reply ∧
      w' = { w with
        threads := (w.threads.set i { t with phase := .leaving owed reply }).map
          (Thread.wake side) } := by
  simp only [step, Option.bind_eq_bind, Option.bind_eq_some_iff] at h
  obtain ⟨t, ht, h⟩ := h
  split at h
  · next side owed reply hp => exact ⟨t, side, owed, reply, ht, hp, (Option.some.inj h).symm⟩
  · contradiction

theorem rouse_eq_some (h : w.step (.rouse i) = some w') :
    ∃ t side, w.threads[i]? = some t ∧ t.phase = .parked side ∧
      w' = w.setThread i { t with phase := .woken side } := by
  simp only [step, Option.bind_eq_bind, Option.bind_eq_some_iff] at h
  obtain ⟨t, ht, h⟩ := h
  split at h
  · next side hp => exact ⟨t, side, ht, hp, (Option.some.inj h).symm⟩
  · contradiction

theorem run_cons {move : Move} {moves : List Move} :
    w.run (move :: moves) = some w' ↔ ∃ w₁, w.step move = some w₁ ∧ w₁.run moves = some w' := by
  simp only [run, Option.bind_eq_bind, Option.bind_eq_some_iff]

/-! ### What is returned -/

/-- The parties and replies of threads that have nothing left to do. -/
def results (w : World) : List (Option Nat × Reply) :=
  w.threads.filterMap fun t => t.result.map fun reply => (t.party, reply)

/-- The world once threads that have nothing left to do are gone, and their looks told. -/
def dismiss (w : World) : World :=
  { w with threads := w.threads.filter (·.result.isNone), history := [] }

end World

end MessagePipe
