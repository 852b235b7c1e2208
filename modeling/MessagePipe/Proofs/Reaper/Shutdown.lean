import MessagePipe.Proofs.Pipe.Pool
import MessagePipe.Reaper.Scene

/-!
# MessagePipe.Proofs.Reaper.Shutdown

How a reaper ends.  Its owner may tell it to stop, its pipe may be closed, and
its pipe may go away; each can come between any two of its steps.  Once one of
them has happened the reaper is dismissed, and `Scene.leeway` is the number of
sweeps that it may still start, which is at most one.

A reaper that is told to stop never sleeps without a wake-up on its way
(`Scene.Alert`), so it comes nearer to its end with every step that it takes
(`Scene.distance`), and in a `Course`, where nobody is held up for ever, it
reaches it.

* `Turn` — what a move can do, which every later lemma goes through;
* `Dismissed.begun_add_leeway_le` — a dismissed reaper starts no more sweeps
  than it may;
* `sweeps_eq` — the sweeps that the reaper has counted;
* `Course.exits` — it does come to an end;
* `handshake` — the main statement.
-/

namespace MessagePipe

/-! ## The pipe under its users -/

theorem World.closed_step {w w' : World} {move : MessagePipe.Move} (h : w.pipe.closed = true)
    (hs : w.step move = some w') : w'.pipe.closed = true := by
  cases move with
  | lock i m =>
      obtain ⟨t, ⟨answer, q⟩, ht, hlook, rfl⟩ := lock_eq_some hs
      have hq : q.closed = true := by
        rcases Thread.look_cases hlook with ⟨-, hv⟩ | ⟨expiryMs, -, hv⟩
        · rw [show q = ((t.resume w.pipe).visit m t.call).2 from congrArg Prod.snd hv]
          exact Pipe.closed_visit (by simpa using h) m t.call
        · rw [show q = (w.pipe.sweepReply expiryMs m.now).2 from congrArg Prod.snd hv]
          exact h
      cases answer <;> simp [conclude, hq]
  | start party call =>
      obtain rfl := Option.some.inj hs
      exact h
  | load i =>
      obtain ⟨t, -, -, rfl⟩ := load_eq_some hs
      exact h
  | signal i =>
      obtain ⟨t, side, owed, reply, -, -, rfl⟩ := signal_eq_some hs
      exact h
  | rouse i =>
      obtain ⟨t, side, -, -, rfl⟩ := rouse_eq_some hs
      exact h

/-- A whole sweep is what a thread does that sweeps while nobody comes in between. -/
theorem World.run_sweep (w : World) (now : UInt64) :
    let i := w.threads.length
    let reply := (w.pipe.sweepReply w.pipe.expiryMs now).1
    w.run ([.start none .sweep, .load i, .lock i ⟨now, false⟩] ++
        reply.signals.map fun _ => .signal i) =
      some { (w.sweep now).2 with
        threads := (w.sweep now).2.threads ++ [⟨none, .sweep, .leaving [] reply⟩]
        history := w.history ++ [⟨none, .sweep, now, reply⟩] } := by
  intro i reply
  by_cases h : (w.pipe.sweepWith w.pipe.expiryMs now).1 = 0
  · simp [i, reply, run, step, Thread.loads, setThread, Thread.look, conclude, Pipe.sweepReply,
      World.sweep, Pipe.sweep, h, Reply.signals]
  · simp [i, reply, run, step, Thread.loads, setThread, Thread.look, conclude, Pipe.sweepReply,
      World.sweep, Pipe.sweep, h, Reply.signals, Thread.wake]

namespace Scene

variable {s s' : Scene} {w : World} {move : Move} {moves : List Move}

/-! ## What a move can do -/

/-- What one move can make of a scene. Of the pipe all that matters is whether it is closed. -/
inductive Turn (s : Scene) : Move → Scene → Prop
  | use {move : MessagePipe.Move} {world : World} (held : s.held = true)
      (closed : s.world.pipe.closed = true → world.pipe.closed = true) :
      Turn s (.use move) { s with world := world }
  | drop (held : s.held = true) : Turn s .drop { s with held := false }
  | raise : Turn s .raise { s with reaper := s.reaper.raise }
  | deliver (owed : s.reaper.owesWake = true) :
      Turn s .deliver { s with reaper := s.reaper.deliver }
  | wake {interval : Duration} (asleep : s.reaper.stage = .asleep interval) :
      Turn s .wake { s with reaper := s.reaper.wake }
  | check {stage : Reaper.Stage} (h : s.reaper.stage = .checking)
      (found :
        s.held = true ∧ s.world.pipe.closed = false ∧ (∃ interval, stage = .arming interval) ∨
        (s.held = false ∨ s.world.pipe.closed = true) ∧ stage = .exited) :
      Turn s .proceed { s with reaper := { s.reaper with stage := stage } }
  | arm {interval : Duration} (h : s.reaper.stage = .arming interval) :
      Turn s .proceed
        { s with reaper :=
          { s.reaper with stage := if s.reaper.stopped then .exited else .asleep interval } }
  | rise (h : s.reaper.stage = .roused) :
      Turn s .proceed
        { s with reaper :=
          { s.reaper with stage := if s.reaper.stopped then .exited else .renewing } }
  | renew (h : s.reaper.stage = .renewing) :
      Turn s .proceed
        { s with reaper := { s.reaper with stage := if s.held then .sweeping else .exited } }
  | tally {removed : Nat} (h : s.reaper.stage = .tallying removed) :
      Turn s .proceed
        { s with reaper := { s.reaper with stage := .checking, sweeps := s.reaper.sweeps + 1 } }
  | sweep {now : UInt64} {world : World} {removed : Nat} (h : s.reaper.stage = .sweeping)
      (closed : world.pipe.closed = s.world.pipe.closed) :
      Turn s (.sweep now) { s with world := world, reaper := s.reaper.swept removed }

theorem turn_of_proceed {reaper : Reaper} (h : s.reaper.proceed s.found = some reaper) :
    s.Turn .proceed { s with reaper := reaper } := by
  unfold Reaper.proceed at h
  split at h
  next hstage =>
    by_cases hheld : s.held = true
    · simp only [found, hheld, if_true] at h
      split at h
      next hc =>
        obtain rfl := Option.some.inj h
        exact .check hstage (.inr ⟨.inr hc, rfl⟩)
      next hc =>
        obtain rfl := Option.some.inj h
        exact .check hstage (.inl ⟨hheld, by simpa using hc, _, rfl⟩)
    · simp only [found, hheld] at h
      obtain rfl := Option.some.inj h
      exact .check hstage (.inr ⟨.inl (by simpa using hheld), rfl⟩)
  next interval hstage =>
    obtain rfl := Option.some.inj h
    exact .arm hstage
  next hstage =>
    obtain rfl := Option.some.inj h
    exact .rise hstage
  next hstage =>
    obtain rfl := Option.some.inj h
    have hfound : s.found.isSome = s.held := by cases hh : s.held <;> simp [found, hh]
    rw [hfound]
    exact .renew hstage
  next removed hstage =>
    obtain rfl := Option.some.inj h
    exact .tally hstage
  all_goals contradiction

theorem turn_of_step (h : s.step move = some s') : s.Turn move s' := by
  cases move with
  | use move =>
      simp only [step] at h
      split at h
      next held =>
        obtain ⟨world, hw, rfl⟩ := Option.map_eq_some_iff.mp h
        exact .use held fun hc => World.closed_step hc hw
      next => contradiction
  | drop =>
      simp only [step] at h
      split at h
      next held =>
        obtain rfl := Option.some.inj h
        exact .drop (by simp_all)
      next => contradiction
  | raise =>
      obtain rfl := Option.some.inj h
      exact .raise
  | deliver =>
      simp only [step] at h
      split at h
      next owed =>
        obtain rfl := Option.some.inj h
        exact .deliver owed
      next => contradiction
  | wake =>
      simp only [step] at h
      split at h
      next interval asleep =>
        obtain rfl := Option.some.inj h
        exact .wake asleep
      next => contradiction
  | proceed =>
      obtain ⟨reaper, hr, rfl⟩ := Option.map_eq_some_iff.mp h
      exact turn_of_proceed hr
  | sweep now =>
      simp only [step] at h
      split at h
      next hstage =>
        obtain rfl := Option.some.inj h
        exact .sweep hstage rfl
      next => contradiction

theorem run_cons : s.run (move :: moves) = some s' ↔
    ∃ s₁, s.step move = some s₁ ∧ s₁.run moves = some s' := by
  simp only [run, Option.bind_eq_bind, Option.bind_eq_some_iff]

/-- What holds of a scene, and goes on to hold whatever happens. -/
theorem run_invariant (Inv : Scene → Prop)
    (keep : ∀ {s move s'}, Inv s → s.Turn move s' → Inv s') (h : Inv s)
    (hrun : s.run moves = some s') : Inv s' := by
  induction moves generalizing s with
  | nil =>
      obtain rfl := Option.some.inj hrun
      exact h
  | cons move moves ih =>
      obtain ⟨s₁, hs, hrun⟩ := run_cons.mp hrun
      exact ih (keep h (turn_of_step hs)) hrun

/-! ## Counting sweeps -/

/-- The number of sweeps that a move starts. -/
def starts (s s' : Scene) : Nat :=
  if s.reaper.stage ≠ .sweeping ∧ s'.reaper.stage = .sweeping then 1 else 0

/-- The number of sweeps started in the course of some moves. -/
def begun (s : Scene) : List Move → Nat
  | [] => 0
  | move :: moves =>
    match s.step move with
    | none => 0
    | some s' => s.starts s' + s'.begun moves

/-- Whether the move is a sweep. -/
def Move.sweeps : Move → Bool
  | .sweep _ => true
  | _ => false

/-- The number of sweeps performed in the course of some moves. -/
def performed (moves : List Move) : Nat := moves.countP Move.sweeps

/-- 1 while a sweep was started and not performed yet. -/
def pending (s : Scene) : Nat := if s.reaper.stage = .sweeping then 1 else 0

/-- 1 while a sweep was performed and not counted yet. -/
def uncounted (s : Scene) : Nat :=
  match s.reaper.stage with
  | .tallying _ => 1
  | .checking | .arming _ | .asleep _ | .roused | .renewing | .sweeping | .exited => 0

theorem Turn.performed (h : s.Turn move s') :
    (if move.sweeps then 1 else 0) + s'.pending = s.pending + s.starts s' ∧
      s'.reaper.sweeps + s'.uncounted =
        s.reaper.sweeps + s.uncounted + if move.sweeps then 1 else 0 := by
  cases h with
  | use | drop => grind [Move.sweeps, pending, starts, uncounted]
  | raise => grind [Move.sweeps, pending, starts, uncounted, Reaper.raise]
  | deliver => grind [Move.sweeps, pending, starts, uncounted, Reaper.deliver, Reaper.wake]
  | wake => grind [Move.sweeps, pending, starts, uncounted, Reaper.wake]
  | check | arm | rise | renew | tally => grind [Move.sweeps, pending, starts, uncounted]
  | sweep => grind [Move.sweeps, pending, starts, uncounted, Reaper.swept]

/-- Every sweep that is performed was started before, and every one that was started is
performed next or still pending. -/
theorem performed_add_pending (h : s.run moves = some s') :
    performed moves + s'.pending = s.pending + s.begun moves := by
  induction moves generalizing s with
  | nil =>
      obtain rfl := Option.some.inj h
      simp [performed, begun]
  | cons move moves ih =>
      obtain ⟨s₁, hs, hrun⟩ := run_cons.mp h
      have hfirst := (turn_of_step hs).performed.1
      have hrest := ih hrun
      simp only [performed, List.countP_cons, begun, hs] at hrest ⊢
      omega

/-- The reaper has counted every sweep that it performed, but for one that it is about to
count. -/
theorem sweeps_eq (h : s.run moves = some s') :
    s'.reaper.sweeps + s'.uncounted = s.reaper.sweeps + s.uncounted + performed moves := by
  induction moves generalizing s with
  | nil =>
      obtain rfl := Option.some.inj h
      rfl
  | cons move moves ih =>
      obtain ⟨s₁, hs, hrun⟩ := run_cons.mp h
      have hfirst := (turn_of_step hs).performed.2
      have hrest := ih hrun
      simp only [performed, List.countP_cons] at hrest ⊢
      omega

/-! ## Dismissed -/

/-- Told to stop, or left with a pipe that is closed or that nobody else keeps. -/
def Dismissed (s : Scene) : Prop :=
  s.reaper.stopped = true ∨ s.held = false ∨ s.world.pipe.closed = true

/-- The number of sweeps that a dismissed reaper may still start. -/
def leeway (s : Scene) : Nat :=
  match s.reaper.stage with
  | .arming _ | .asleep _ | .roused => if s.held && !s.reaper.stopped then 1 else 0
  | .renewing => if s.held then 1 else 0
  | .checking | .sweeping | .tallying _ | .exited => 0

theorem leeway_le_one (s : Scene) : s.leeway ≤ 1 := by
  grind [leeway]

theorem leeway_of_dropped (h : s.held = false) : s.leeway = 0 := by
  grind [leeway]

theorem Dismissed.turn (h : s.Dismissed) (ht : s.Turn move s') :
    s'.Dismissed ∧ s.starts s' + s'.leeway ≤ s.leeway := by
  cases ht with
  | use | drop => grind [Dismissed, leeway, starts]
  | raise => grind [Dismissed, leeway, starts, Reaper.raise]
  | deliver => grind [Dismissed, leeway, starts, Reaper.deliver, Reaper.wake]
  | wake => grind [Dismissed, leeway, starts, Reaper.wake]
  | check | arm | rise | renew | tally => grind [Dismissed, leeway, starts]
  | sweep => grind [Dismissed, leeway, starts, Reaper.swept]

/-- A dismissed reaper starts no more sweeps than it may. -/
theorem Dismissed.begun_add_leeway_le (h : s.Dismissed) (hrun : s.run moves = some s') :
    s.begun moves + s'.leeway ≤ s.leeway := by
  induction moves generalizing s with
  | nil =>
      obtain rfl := Option.some.inj hrun
      simp [begun]
  | cons move moves ih =>
      obtain ⟨s₁, hs, hrun⟩ := run_cons.mp hrun
      obtain ⟨hdismissed, hfirst⟩ := h.turn (turn_of_step hs)
      have hrest := ih hdismissed hrun
      simp only [begun, hs]
      omega

/-! ## Asleep and awake -/

/-- A reaper that was told to stop does not sleep, or a wake-up is on its way. -/
def Alert (s : Scene) : Prop :=
  s.reaper.stopped = true → ∀ interval, s.reaper.stage = .asleep interval →
    s.reaper.owesWake = true

theorem alert_start (w : World) : (start w).Alert := by
  simp [Alert, start, Reaper.start]

theorem Alert.turn (h : s.Alert) (ht : s.Turn move s') : s'.Alert := by
  cases ht with
  | use | drop => exact h
  | raise => exact fun _ _ _ => rfl
  | deliver => grind [Alert, Reaper.deliver, Reaper.wake]
  | wake => grind [Alert, Reaper.wake]
  | check | arm | rise | renew | tally => grind [Alert]
  | sweep => grind [Alert, Reaper.swept]

/-- The reaper does not sleep and is not about to. -/
def Awake (s : Scene) : Prop :=
  match s.reaper.stage with
  | .arming _ | .asleep _ => False
  | .checking | .roused | .renewing | .sweeping | .tallying _ | .exited => True

/-- A reaper that was told to stop will not sleep any more, nor will one that is awake and finds
no pipe. -/
def Leaving (s : Scene) : Prop :=
  s.reaper.stopped = true ∨ s.held = false ∧ s.Awake

/-- How many steps a reaper that is leaving is away from its end, at most. -/
def distance (s : Scene) : Nat :=
  match s.reaper.stage with
  | .exited => 0
  | .renewing => if s.held then 8 else 1
  | .roused => 2
  | .asleep _ => 3
  | .arming _ => 4
  | .checking => 5
  | .tallying _ => 6
  | .sweeping => 7

theorem Leaving.turn (h : s.Leaving) (ht : s.Turn move s') :
    s'.Leaving ∧ s'.distance ≤ s.distance := by
  cases ht with
  | use | drop => grind [Leaving, Awake, distance]
  | raise => grind [Leaving, Awake, distance, Reaper.raise]
  | deliver => grind [Leaving, Awake, distance, Reaper.deliver, Reaper.wake]
  | wake => grind [Leaving, Awake, distance, Reaper.wake]
  | check | arm | rise | renew | tally => grind [Leaving, Awake, distance]
  | sweep => grind [Leaving, Awake, distance, Reaper.swept]

/-- The reaper takes a step of its own. -/
def GoesOn (s s' : Scene) : Prop :=
  s.step .proceed = some s' ∨ ∃ now, s.step (.sweep now) = some s'

/-- Each step of its own brings it nearer to its end. -/
theorem Leaving.goesOn (h : s.Leaving) (hs : s.GoesOn s') : s'.distance < s.distance := by
  rcases hs with hs | ⟨now, hs⟩
  · cases turn_of_step hs with
    | check | arm | rise | renew | tally => grind [Leaving, Awake, distance]
  · cases turn_of_step hs with
    | sweep => grind [distance, Reaper.swept]

/-- The wake-up does so too if it finds the reaper asleep. -/
theorem distance_deliver {interval : Duration} (hs : s.step .deliver = some s')
    (hstage : s.reaper.stage = .asleep interval) : s'.distance < s.distance := by
  cases turn_of_step hs with
  | deliver => grind [distance, Reaper.deliver, Reaper.wake]

/-- A reaper that neither sleeps nor has exited can take a step. -/
theorem exists_goesOn (hasleep : ∀ interval, s.reaper.stage ≠ .asleep interval)
    (hexited : s.reaper.stage ≠ .exited) : ∃ s', s.GoesOn s' := by
  cases hstage : s.reaper.stage with
  | asleep interval => exact absurd hstage (hasleep interval)
  | exited => exact absurd hstage hexited
  | sweeping => exact ⟨_, .inr ⟨0, by simp only [step, hstage]; rfl⟩⟩
  | checking =>
      cases hfound : s.found with
      | none => exact ⟨_, .inl (by simp only [step, Reaper.proceed, hstage, hfound]; rfl)⟩
      | some p =>
          cases hc : p.closed <;>
            exact ⟨_, .inl (by simp only [step, Reaper.proceed, hstage, hfound, hc]; rfl)⟩
  | arming | roused | renewing | tallying =>
      exact ⟨_, .inl (by simp only [step, Reaper.proceed, hstage]; rfl)⟩

/-! ## Courses -/

/-- Scenes in turn: from one to the next there is a move or none, the reaper is not held up for
ever while it can take a step, and a wake-up that is on its way arrives. -/
structure Course (f : Nat → Scene) : Prop where
  next : ∀ k, f (k + 1) = f k ∨ ∃ move, (f k).step move = some (f (k + 1))
  goes : ∀ k, (∀ l, k ≤ l → ∃ s, (f l).GoesOn s) → ∃ l, k ≤ l ∧ (f l).GoesOn (f (l + 1))
  arrives : ∀ k, (f k).reaper.owesWake = true →
    ∃ l, k ≤ l ∧ (f l).step .deliver = some (f (l + 1))

namespace Course

variable {f : Nat → Scene} {k : Nat}

/-- What a move keeps holds from some time on. -/
theorem invariant (hf : Course f) (Inv : Scene → Prop)
    (keep : ∀ {s move s'}, Inv s → s.Turn move s' → Inv s') (h : Inv (f k)) {l : Nat}
    (hl : k ≤ l) : Inv (f l) := by
  induction l, hl using Nat.le_induction with
  | base => exact h
  | succ l _ ih =>
      rcases hf.next l with hsame | ⟨move, hstep⟩
      · rwa [hsame]
      · exact keep ih (turn_of_step hstep)

/-- A reaper that is leaving comes nearer to its end at some time. -/
theorem nearer (hf : Course f) (hleaving : (f k).Leaving) (halert : (f k).Alert)
    (hexited : (f k).reaper.stage ≠ .exited) : ∃ l, k ≤ l ∧ (f l).distance < (f k).distance := by
  by_contra hnever
  simp only [not_exists, not_and, not_lt] at hnever
  -- so it stays as far from its end as it is
  have hkept : ∀ l, k ≤ l → (f l).Leaving ∧ (f l).distance = (f k).distance := by
    intro l hl
    have hle := hf.invariant (fun s => s.Leaving ∧ s.distance ≤ (f k).distance)
      (fun h ht => ⟨(h.1.turn ht).1, (h.1.turn ht).2.trans h.2⟩) ⟨hleaving, le_rfl⟩ hl
    exact ⟨hle.1, le_antisymm hle.2 (hnever l hl)⟩
  by_cases hasleep : ∃ interval, (f k).reaper.stage = .asleep interval
  · obtain ⟨interval, hstage⟩ := hasleep
    have hstopped : (f k).reaper.stopped = true := by grind [Leaving, Awake]
    obtain ⟨l, hl, hdeliver⟩ := hf.arrives k (halert hstopped interval hstage)
    obtain ⟨interval', hstage'⟩ : ∃ interval, (f l).reaper.stage = .asleep interval := by
      have heq := (hkept l hl).2
      grind [distance]
    have hlt := distance_deliver hdeliver hstage'
    have heq := hkept l hl
    have heq' := hkept (l + 1) (by omega)
    omega
  · have hable : ∀ l, k ≤ l → ∃ s, (f l).GoesOn s := by
      intro l hl
      have heq := (hkept l hl).2
      refine exists_goesOn (fun interval hstage => ?_) fun hstage => ?_
      · grind [distance]
      · grind [distance]
    obtain ⟨l, hl, hgoes⟩ := hf.goes k hable
    have hlt := (hkept l hl).1.goesOn hgoes
    have heq := hkept l hl
    have heq' := hkept (l + 1) (by omega)
    omega

/-- A reaper that is leaving comes to its end. -/
theorem exits (hf : Course f) (hleaving : (f k).Leaving) (halert : (f k).Alert) :
    ∃ l, k ≤ l ∧ (f l).reaper.stage = .exited := by
  induction hd : (f k).distance using Nat.strong_induction_on generalizing k with
  | _ d ih =>
    by_cases hexited : (f k).reaper.stage = .exited
    · exact ⟨k, le_rfl, hexited⟩
    · obtain ⟨l, hl, hlt⟩ := hf.nearer hleaving halert hexited
      have hleaving' := hf.invariant Leaving (fun h ht => (h.turn ht).1) hleaving hl
      have halert' := hf.invariant Alert Alert.turn halert hl
      obtain ⟨l', hl', hexited⟩ := ih _ (hd ▸ hlt) hleaving' halert' rfl
      exact ⟨l', hl.trans hl', hexited⟩

end Course

/-- Everybody does what there is to do: the owner sends the wake-up, and else the reaper goes
on. -/
def onward (s : Scene) : Scene :=
  if s.reaper.owesWake then { s with reaper := s.reaper.deliver }
  else (s.step .proceed <|> s.step (.sweep 0)).getD s

theorem onward_step (s : Scene) : s.onward = s ∨ ∃ move, s.step move = some s.onward := by
  unfold onward
  split
  next howed => exact .inr ⟨.deliver, by simp only [step, howed, if_true]⟩
  next =>
    cases hp : s.step .proceed with
    | some s' => exact .inr ⟨.proceed, hp⟩
    | none =>
        cases hw : s.step (.sweep 0) with
        | some s' => exact .inr ⟨.sweep 0, hw⟩
        | none => exact .inl rfl

theorem onward_goesOn (howes : s.reaper.owesWake = false) (hs : s.GoesOn s') :
    s.GoesOn s.onward := by
  simp only [onward, howes]
  cases hp : s.step .proceed with
  | some s₁ => exact .inl hp
  | none =>
      obtain hproceed | ⟨now, hsweep⟩ := hs
      · rw [hp] at hproceed
        contradiction
      · cases turn_of_step hsweep with
        | sweep hstage => exact .inr ⟨0, by simp [step, hstage]⟩

/-- Whatever has happened, there is a course from there on. -/
theorem exists_course (s : Scene) : ∃ f, Course f ∧ f 0 = s := by
  refine ⟨fun k => onward^[k] s, ⟨fun k => ?_, fun k hable => ?_, fun k howed => ?_⟩, rfl⟩
  · rw [Function.iterate_succ_apply']
    exact onward_step _
  · -- the wake-up may have to be sent before
    cases howes : (onward^[k] s).reaper.owesWake with
    | false =>
        obtain ⟨s', hgoes⟩ := hable k le_rfl
        refine ⟨k, le_rfl, ?_⟩
        rw [Function.iterate_succ_apply']
        exact onward_goesOn howes hgoes
    | true =>
        have hsent : (onward^[k + 1] s).reaper.owesWake = false := by
          rw [Function.iterate_succ_apply']
          simp [onward, howes, Reaper.deliver]
        obtain ⟨s', hgoes⟩ := hable (k + 1) (by omega)
        refine ⟨k + 1, by omega, ?_⟩
        rw [Function.iterate_succ_apply' onward (k + 1)]
        exact onward_goesOn hsent hgoes
  · refine ⟨k, le_rfl, ?_⟩
    rw [Function.iterate_succ_apply']
    have howed : (onward^[k] s).reaper.owesWake = true := howed
    simp [step, onward, howed]

/-! ## The handshake -/

/-- The reaper comes to its end, in whatever course the scene takes. -/
def Ends (s : Scene) : Prop :=
  ∀ f, Course f → f 0 = s → ∃ k, ∀ l, k ≤ l → (f l).reaper.isFinished = true

theorem Turn.exited (h : s.Turn move s') (hs : s.reaper.stage = .exited) :
    s'.reaper.stage = .exited := by
  cases h with
  | use | drop | raise => exact hs
  | deliver => grind [Reaper.deliver, Reaper.wake]
  | wake | check | arm | rise | renew | tally | sweep => grind

theorem Leaving.ends (h : s.Leaving) (halert : s.Alert) : s.Ends := by
  rintro f hf rfl
  obtain ⟨k, -, hexited⟩ := hf.exits h halert
  refine ⟨k, fun l hl => ?_⟩
  have hstays := hf.invariant (fun s => s.reaper.stage = .exited) (fun hs ht => ht.exited hs)
    hexited hl
  rw [Reaper.isFinished, hstays]

/-- How a reaper that was started at some time stands to its owner and to its pipe. -/
structure Handshake (w : World) (moves : List Move) (s : Scene) : Prop where
  /-- It does not sleep once it was told to stop, or a wake-up is on its way. -/
  alert : s.reaper.stopped = true → ∀ interval, s.reaper.stage = .asleep interval →
    s.reaper.owesWake = true
  /-- Once it was told to stop it starts at most one more sweep, and comes to its end. -/
  stopped : s.reaper.stopped = true →
    (∀ later s', s.run later = some s' → s.begun later ≤ 1) ∧ s.Ends
  /-- Once its pipe is closed it starts at most one more sweep. -/
  closed : s.world.pipe.closed = true → ∀ later s', s.run later = some s' → s.begun later ≤ 1
  /-- On a pipe that was closed before it starts none at all. -/
  closedBefore : w.pipe.closed = true → (start w).begun moves = 0 ∧ performed moves = 0
  /-- Once nobody keeps the pipe it starts no more sweep, and at most performs the one that it
  has started. -/
  dropped : s.held = false → ∀ later s', s.run later = some s' →
    s.begun later = 0 ∧ performed later ≤ s.pending
  /-- If it is awake then, or as soon as it wakes up, it does not sleep again and comes to its
  end. -/
  awake : s.held = false → s.Awake →
    (∀ later s', s.run later = some s' → s'.Awake) ∧ s.Ends
  woken : s.held = false → ∀ interval, s.reaper.stage = .asleep interval →
    ∀ s', s.step .wake = some s' ∨ s.step .deliver = some s' → s'.held = false ∧ s'.Awake
  /-- It has counted the sweeps that were performed, but for one that it is about to count. -/
  sweeps : s.reaper.sweeps + s.uncounted = performed moves
  /-- A sweep that it has started was performed, but for one that it is about to perform. -/
  begun : performed moves + s.pending = (start w).begun moves

/-- What a reaper that finds no pipe and is awake goes on to be. -/
theorem Turn.awake (ht : s.Turn move s') (h : s.held = false ∧ s.Awake) :
    s'.held = false ∧ s'.Awake := by
  cases ht with
  | use | drop | raise => exact ⟨by grind, h.2⟩
  | deliver => grind [Awake, Reaper.deliver, Reaper.wake]
  | wake => grind [Awake, Reaper.wake]
  | check | arm | rise | renew | tally => grind [Awake]
  | sweep => grind [Awake, Reaper.swept]

/-- **Shutdown**: whatever its users do with the pipe, and whenever it is told to stop, its pipe
is closed or its pipe goes away, a reaper starts at most one more sweep, or none, and misses no
wake-up on the way to its end. -/
theorem handshake (h : (start w).run moves = some s) : Handshake w moves s := by
  have halert : s.Alert := run_invariant Alert Alert.turn (alert_start w) h
  have hbudget : s.Dismissed → ∀ later s', s.run later = some s' → s.begun later ≤ s.leeway := by
    intro hd later s' hrun
    have hle := hd.begun_add_leeway_le hrun
    omega
  have hsweeps := sweeps_eq h
  have hbegun := performed_add_pending h
  constructor
  · exact halert
  · intro hstopped
    refine ⟨fun later s' hrun => ?_, Leaving.ends (.inl hstopped) halert⟩
    exact (hbudget (.inl hstopped) later s' hrun).trans s.leeway_le_one
  · intro hclosed later s' hrun
    exact (hbudget (.inr (.inr hclosed)) later s' hrun).trans s.leeway_le_one
  · intro hclosed
    have hd : (start w).Dismissed := .inr (.inr hclosed)
    have hnone := hd.begun_add_leeway_le h
    have hzero : (start w).leeway = 0 := rfl
    have hpending : (start w).pending = 0 := rfl
    omega
  · intro hheld later s' hrun
    have hnone := hbudget (.inr (.inl hheld)) later s' hrun
    have hperformed := performed_add_pending hrun
    rw [leeway_of_dropped hheld] at hnone
    omega
  · intro hheld hawake
    refine ⟨fun later s' hrun => ?_, Leaving.ends (.inr ⟨hheld, hawake⟩) halert⟩
    exact (run_invariant (fun s => s.held = false ∧ s.Awake) (fun h ht => ht.awake h)
      ⟨hheld, hawake⟩ hrun).2
  · intro hheld interval hstage s' hs
    rcases hs with hs | hs
    · cases turn_of_step hs with
      | wake => grind [Awake, Reaper.wake]
    · cases turn_of_step hs with
      | deliver => grind [Awake, Reaper.deliver, Reaper.wake]
  · simpa [start, Reaper.start, uncounted] using hsweeps
  · simpa [start, Reaper.start, pending] using hbegun

/-- A reaper is told to stop just after it has looked at the flag. It performs one more sweep,
after which the flag stops it before it sleeps again. -/
theorem handshake_late :
    ∃ (p : Pipe) (moves later : List Move) (s s' : Scene),
      Pipe.create ⟨⟨1, 4⟩, .ofMillis 5⟩ = .ok p ∧ (start (.ofPipe p)).run moves = some s ∧
      s.reaper = ⟨.renewing, true, true, 0⟩ ∧ Handshake (.ofPipe p) moves s ∧
      s.run later = some s' ∧ s.begun later = 1 ∧ s'.reaper = ⟨.exited, true, true, 1⟩ ∧
      ∃ f k, Course f ∧ f 0 = s ∧ (f k).reaper.isFinished = true := by
  let moves : List Move := [.proceed, .proceed, .wake, .proceed, .raise]
  let later : List Move := [.proceed, .sweep 9, .proceed, .proceed, .proceed]
  have hreach : ∃ (p : Pipe) (s s' : Scene), Pipe.create ⟨⟨1, 4⟩, .ofMillis 5⟩ = .ok p ∧
      (start (.ofPipe p)).run moves = some s ∧ s.reaper = ⟨.renewing, true, true, 0⟩ ∧
      s.run later = some s' ∧ s.begun later = 1 ∧ s'.reaper = ⟨.exited, true, true, 1⟩ :=
    ⟨_, _, _, rfl, rfl, rfl, rfl, rfl, rfl⟩
  obtain ⟨p, s, s', hp, hrun, hreaper, hlater, hbegun, hend⟩ := hreach
  have hshake := handshake hrun
  obtain ⟨f, hf, hstart⟩ := exists_course s
  obtain ⟨k, hk⟩ := (hshake.stopped (by rw [hreaper])).2 f hf hstart
  exact ⟨p, moves, later, s, s', hp, hrun, hreaper, hshake, hlater, hbegun, hend, f, k, hf,
    hstart, hk k le_rfl⟩

end Scene

end MessagePipe
