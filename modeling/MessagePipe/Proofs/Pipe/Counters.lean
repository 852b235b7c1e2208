import MessagePipe.Proofs.Pipe.Places

/-!
# MessagePipe.Proofs.Pipe.Counters

The two numbers that tell how many callers wait.  A receiver is counted from
the look that parks it to the look at which it holds the lock again, and so is
a sender, however its wait ends and however often it waits in one call.

* `Thread.Consistent.waits` — who is counted: receives, and sends, in the
  middle of a wait;
* `World.Reachable.balance_eq` — what the looks of one thread have done to a
  counter is what its wait counts for now, by induction on the moves;
* `World.counters_exact` — the counters, and what each call has left of itself
  in them.
-/

namespace MessagePipe

/-! ## Who is counted -/

namespace Call

/-- The calls that wait for a message. -/
def receives : Call → Bool
  | recv .. => true
  | _ => false

/-- The calls that wait for room. -/
def sends : Call → Bool
  | send .. => true
  | _ => false

end Call

namespace Thread

variable {t : Thread}

/-- Whether the thread began a wait and does not hold the lock again yet. -/
def inWait (t : Thread) : Bool :=
  match t.phase with
  | .parked _ | .woken _ => true
  | _ => false

/-- Only sends and receives wait. -/
theorem Consistent.waits (h : t.Consistent) :
    t.waits .readable = (t.call.receives && t.inWait) ∧
      t.waits .writable = (t.call.sends && t.inWait) := by
  obtain ⟨party, call, phase⟩ := t
  cases phase with
  | parked side | woken side =>
      obtain ⟨rfl, hwait⟩ : side = call.side ∧ call.wait ≠ .never := h
      cases call with
      | send | recv => exact ⟨rfl, rfl⟩
      | sweep | setExpiry | clear | close => exact absurd rfl hwait
  | entering | primed | leaving => simp [Thread.waits, inWait]

/-- A thread that was woken is counted on its side until it holds the lock. -/
theorem waits_of_woken {side : Side} (h : t.phase = .woken side) : t.waits side = true := by
  simp [waits, h]

theorem not_waits_of_leaving {owed : List Side} {reply : Reply} (h : t.phase = .leaving owed reply)
    (side : Side) : t.waits side = false := by
  simp [waits, h]

end Thread

namespace World

variable {c : PipeConfig} {p : Pipe} {w w' : World} {i j : Nat} {side : Side} {move : Move}
  {moves : List Move}

/-! ## One thread and a counter -/

/-- What the looks of the thread at a place have done to a counter in the course of some moves. -/
def balance (i : Nat) (side : Side) (w : World) : List Move → Int
  | [] => 0
  | move :: moves =>
    match w.step move with
    | none => 0
    | some w' =>
      (if move.actor = some i then (w'.pipe.waiting side : Int) - w.pipe.waiting side else 0) +
        w'.balance i side moves

/-- 1 if there is a thread at the place that waits on the side, 0 otherwise. -/
def stake (i : Nat) (side : Side) (w : World) : Int :=
  if w.threads[i]?.any (Thread.waits side) then 1 else 0

theorem Reachable.waiting_eq (h : w.Reachable c) (side : Side) :
    w.pipe.waiting side = w.threads.countP (Thread.waits side) := by
  have hcount : w.pipe.waiting side = w.pool.crowd.countP fun t => t.waits side :=
    h.sound.waiting side
  rw [hcount]
  simp [pool]

/-- A counter counts everybody who waits on its side, so it is not 0 while there is anybody. -/
theorem Reachable.waiting_pos (h : w.Reachable c) {t : Thread} (ht : w.threads[i]? = some t)
    (side : Side) (hw : t.waits side = true) : 0 < w.pipe.waiting side := by
  rw [h.waiting_eq side, List.countP_pos_iff]
  exact ⟨t, List.mem_of_getElem? ht, hw⟩

/-- Only a look changes what is counted and who is counted. -/
theorem stake_step (hs : w.step move = some w') (hlook : ∀ j m, move ≠ .lock j m) :
    w'.pipe = w.pipe ∧ ∀ i side, w'.stake i side = w.stake i side := by
  cases move with
  | lock j m => exact absurd rfl (hlook j m)
  | start party call =>
      obtain rfl := Option.some.inj hs
      refine ⟨rfl, fun i side => ?_⟩
      simp only [stake, List.getElem?_append]
      split
      · rfl
      · cases i - w.threads.length <;> grind [Thread.waits]
  | load j =>
      obtain ⟨t, ht, hl, rfl⟩ := load_eq_some hs
      have hphase := (Thread.loads_phase hl).2
      exact ⟨rfl, by grind [stake, setThread, Thread.waits]⟩
  | signal j =>
      obtain ⟨t, s, owed, reply, ht, hphase, rfl⟩ := signal_eq_some hs
      exact ⟨rfl, by grind [stake, Thread.waits, Thread.waits_wake]⟩
  | rouse j =>
      obtain ⟨t, s, ht, hphase, rfl⟩ := rouse_eq_some hs
      exact ⟨rfl, by grind [stake, setThread, Thread.waits]⟩

theorem stake_at {t : Thread} (ht : w.threads[i]? = some t) :
    w.stake i side = if t.waits side then 1 else 0 := by
  simp [stake, ht]

/-- A look counts its own thread out if it was counted, and in if it has to wait, and nobody
else. -/
theorem Reachable.stake_lock (h : w.Reachable c) {m : Moment} (hs : w.step (.lock j m) = some w')
    (side : Side) :
    (w'.pipe.waiting side : Int) - w.pipe.waiting side = w'.stake j side - w.stake j side ∧
      ∀ i, i ≠ j → w'.stake i side = w.stake i side := by
  obtain ⟨t, ⟨answer, q⟩, ht, hlook, rfl⟩ := lock_eq_some hs
  have hpos := h.waiting_pos ht side
  have hout : q.waiting side = w.pipe.waiting side - if t.waits side then 1 else 0 :=
    Thread.waiting_look hlook side
  -- the thread as the look leaves it, and the counter with what it counts of that thread
  obtain ⟨u, hthreads, hin⟩ : ∃ u : Thread,
      (w.conclude j t m (answer, q)).threads = w.threads.set j u ∧
      (w.conclude j t m (answer, q)).pipe.waiting side =
        q.waiting side + if u.waits side then 1 else 0 := by
    cases answer with
    | some reply => exact ⟨t.leave reply, rfl, by simp [conclude, Thread.leave, Thread.waits]⟩
    | none => exact ⟨t.park, rfl, by simp [conclude, Pipe.waiting_enroll, Thread.waits_park]⟩
  have hu : (w.conclude j t m (answer, q)).threads[j]? = some u := by
    rw [hthreads, List.getElem?_set_self (lt_length_of_at ht)]
  constructor
  · rw [stake_at hu, stake_at ht, hin, hout]
    cases huw : u.waits side <;> cases htw : t.waits side <;>
      simp only [htw, Bool.false_eq_true, if_true, if_false, true_implies] at hpos ⊢ <;> omega
  · intro i hi
    simp only [stake, hthreads, List.getElem?_set_ne hi.symm]

/-- What a move does to a counter on behalf of a thread is what it does to that thread's wait. -/
theorem Reachable.balance_step (h : w.Reachable c) (hs : w.step move = some w') (i : Nat)
    (side : Side) :
    (if move.actor = some i then (w'.pipe.waiting side : Int) - w.pipe.waiting side else 0) =
      w'.stake i side - w.stake i side := by
  by_cases hlook : ∃ j m, move = .lock j m
  · obtain ⟨j, m, rfl⟩ := hlook
    obtain ⟨hown, hother⟩ := h.stake_lock hs side
    by_cases hj : j = i
    · subst hj
      simpa [Move.actor] using hown
    · simp [Move.actor, hj, hother i (Ne.symm hj)]
  · obtain ⟨hpipe, hsame⟩ := stake_step hs fun j m hm => hlook ⟨j, m, hm⟩
    simp [hpipe, hsame]

/-- What the looks of a thread have done to a counter is what its wait counts for now. -/
theorem Reachable.balance_eq (h : w.Reachable c) (hrun : w.run moves = some w') (i : Nat)
    (side : Side) : w.balance i side moves = w'.stake i side - w.stake i side := by
  induction moves generalizing w with
  | nil =>
      obtain rfl := Option.some.inj hrun
      simp [balance]
  | cons move moves ih =>
      obtain ⟨w₁, hs, hrun⟩ := run_cons.mp hrun
      have hfirst := h.balance_step hs i side
      have hrest := ih (h.after_step hs) hrun
      simp only [balance, hs, hfirst, hrest]
      omega

/-! ## The counters -/

/-- What the counters of a pipe say about the threads at work on it, when moves have led there
from a new pipe. -/
structure Counted (p : Pipe) (moves : List Move) (w : World) : Prop where
  /-- Receives that have begun to wait and do not hold the lock again yet. -/
  readers : w.pipe.readersWaiting = w.threads.countP fun t => t.call.receives && t.inWait
  /-- Sends that have begun to wait and do not hold the lock again yet. -/
  writers : w.pipe.writersWaiting = w.threads.countP fun t => t.call.sends && t.inWait
  /-- Whoever was woken is counted out next, and the counter is not 0 before that. -/
  positive : ∀ t ∈ w.threads, ∀ side, t.phase = .woken side → 0 < w.pipe.waiting side
  /-- All looks of a thread together have counted it in once if it waits, and else not at all. -/
  balanced : ∀ (i : Nat) (t : Thread), w.threads[i]? = some t → ∀ side,
    (ofPipe p).balance i side moves = if t.waits side then 1 else 0
  /-- A call that is decided has left nothing of itself in the counters. -/
  cleared : ∀ (i : Nat) (t : Thread) (owed : List Side) (reply : Reply),
    w.threads[i]? = some t → t.phase = .leaving owed reply →
      ∀ side, (ofPipe p).balance i side moves = 0
  /-- At rest the counters tell how many readers and how many writers are parked. -/
  quiet : w.Quiet →
    w.pipe.readersWaiting = w.parked .readable ∧ w.pipe.writersWaiting = w.parked .writable
  /-- And they are 0 if nobody is. -/
  idle : w.Quiet → (∀ t ∈ w.threads, ∀ side, t.phase ≠ .parked side) →
    w.pipe.readersWaiting = 0 ∧ w.pipe.writersWaiting = 0

/-- **Exact counters**: whatever threads have done on a pipe, its two counters are the numbers of
receives and of sends in the middle of a wait. Nobody is counted out of a counter at 0, and a
call that has been decided, in whatever way, has counted itself out as often as in. -/
theorem counters_exact (hp : Pipe.create c = .ok p) (hrun : (ofPipe p).run moves = some w) :
    Counted p moves w := by
  have h : w.Reachable c := ⟨p, moves, hp, hrun⟩
  have hnew : (ofPipe p).Reachable c := ⟨p, [], hp, rfl⟩
  have hbalanced : ∀ (i : Nat) (t : Thread), w.threads[i]? = some t → ∀ side,
      (ofPipe p).balance i side moves = if t.waits side then 1 else 0 := by
    intro i t ht side
    rw [hnew.balance_eq hrun i side, stake_at ht]
    simp [stake, ofPipe]
  have hwaits : ∀ t ∈ w.threads, t.waits .readable = (t.call.receives && t.inWait) ∧
      t.waits .writable = (t.call.sends && t.inWait) := by
    intro t ht
    obtain ⟨i, hi⟩ := List.mem_iff_getElem?.mp ht
    exact (h.consistent hi).waits
  constructor
  · have hcount : w.pipe.readersWaiting = _ := h.waiting_eq .readable
    rw [hcount]
    exact List.countP_congr fun t ht => by rw [(hwaits t ht).1]
  · have hcount : w.pipe.writersWaiting = _ := h.waiting_eq .writable
    rw [hcount]
    exact List.countP_congr fun t ht => by rw [(hwaits t ht).2]
  · intro t ht side hwoken
    obtain ⟨i, hi⟩ := List.mem_iff_getElem?.mp ht
    exact h.waiting_pos hi side (Thread.waits_of_woken hwoken)
  · exact hbalanced
  · intro i t owed reply ht hleft side
    rw [hbalanced i t ht side, Thread.not_waits_of_leaving hleft side]
    rfl
  · intro hq
    exact ⟨hq.waiting_eq h.sound .readable, hq.waiting_eq h.sound .writable⟩
  · intro hq hnone
    have hzero : ∀ side, w.pipe.waiting side = 0 := by
      intro side
      rw [hq.waiting_eq h.sound side, parked, List.countP_eq_zero]
      intro t ht
      have hp := hnone t ht side
      simp only [Thread.parkedOn]
      grind
    exact ⟨hzero .readable, hzero .writable⟩

/-- Two receivers park. One wakes up for no reason, looks, parks again and gives up at its
deadline; the other is still parked, and the only one that is counted. -/
theorem counters_exact_timeout :
    ∃ (p : Pipe) (moves : List Move) (w : World), Pipe.create ⟨⟨1, 4⟩, .ofMillis 5⟩ = .ok p ∧
      (ofPipe p).run moves = some w ∧ Counted p moves w ∧
      w.threads.map Thread.result = [none, some (.received (.error .timeout) [0])] ∧
      w.pipe.readersWaiting = 1 ∧ (ofPipe p).balance 0 .readable moves = 1 ∧
      (ofPipe p).balance 1 .readable moves = 0 := by
  let moves : List Move :=
    [.start none (.recv ⟨1, 1⟩ [0] .forever), .lock 0 ⟨7, false⟩,
      .start none (.recv ⟨1, 1⟩ [0] .timed), .lock 1 ⟨7, false⟩, .rouse 1, .lock 1 ⟨8, false⟩,
      .rouse 1, .lock 1 ⟨9, true⟩]
  have hreach : ∃ p w, Pipe.create ⟨⟨1, 4⟩, .ofMillis 5⟩ = .ok p ∧
      (ofPipe p).run moves = some w ∧
      w.threads.map Thread.result = [none, some (.received (.error .timeout) [0])] ∧
      w.pipe.readersWaiting = 1 ∧ (ofPipe p).balance 0 .readable moves = 1 ∧
      (ofPipe p).balance 1 .readable moves = 0 := ⟨_, _, rfl, rfl, rfl, rfl, rfl, rfl⟩
  obtain ⟨p, w, hp, hrun, hrest⟩ := hreach
  exact ⟨p, moves, w, hp, hrun, counters_exact hp hrun, hrest⟩

end World

end MessagePipe
