import MessagePipe.Pipe.Threads
import MessagePipe.Total

/-!
# MessagePipe.Pipe.Settle

Letting the threads of a world go on until every one has returned or is parked
for good.  `World.settle` carries out moves that are due, always those of the
first thread that has one; nobody wakes up without a signal.

It comes to an end: a look either decides a call (`undecided` falls), or parks
its thread (`effort` falls while nothing else changes); a signal uses up
something owed (`owed` falls), and may give parked threads new effort.
-/

namespace MessagePipe

/-! ## What is due -/

/-- The move that a thread at place `i` makes next by itself. -/
def Thread.due (t : Thread) (i : Nat) (m : Moment) : Option Move :=
  match t.phase with
  | .entering => if t.loads then some (.load i) else some (.lock i m)
  | .primed _ | .woken _ => some (.lock i m)
  | .leaving (_ :: _) _ => some (.signal i)
  | .leaving [] _ | .parked _ => none

namespace World

/-- The first move that is due. -/
def due (w : World) (m : Moment) : Option Move :=
  w.threads.zipIdx.findSome? fun (t, i) => t.due i m

/-- The world after the first move that is due; `none` if all threads are at rest. -/
def advance? (w : World) (m : Moment) : Option World := (w.due m).bind w.step

end World

/-! ## Why it ends -/

namespace Thread

/-- 1 until the call is decided. -/
def undecided (t : Thread) : Nat :=
  match t.phase with
  | .leaving _ _ => 0
  | _ => 1

/-- How many sides the thread still has to wake. -/
def owed (t : Thread) : Nat :=
  match t.phase with
  | .leaving owed _ => owed.length
  | _ => 0

/-- How many steps the thread can take before it is decided or parked. -/
def effort (t : Thread) : Nat :=
  match t.phase with
  | .entering => 2
  | .primed _ | .woken _ => 1
  | .parked _ | .leaving _ _ => 0

@[simp] theorem undecided_wake (side : Side) (t : Thread) : (t.wake side).undecided = t.undecided := by
  obtain ⟨party, call, phase⟩ := t
  cases phase with
  | parked s => by_cases h : s = side <;> simp [wake, undecided, h]
  | _ => rfl

@[simp] theorem owed_wake (side : Side) (t : Thread) : (t.wake side).owed = t.owed := by
  obtain ⟨party, call, phase⟩ := t
  cases phase with
  | parked s => by_cases h : s = side <;> simp [wake, owed, h]
  | _ => rfl

end Thread

namespace World

def undecided (w : World) : Nat := total Thread.undecided w.threads

def owed (w : World) : Nat := total Thread.owed w.threads

def effort (w : World) : Nat := total Thread.effort w.threads

/-- Nearer to rest. -/
def Nearer (w' w : World) : Prop :=
  w'.undecided < w.undecided ∨
    w'.undecided = w.undecided ∧ (w'.owed < w.owed ∨ w'.owed = w.owed ∧ w'.effort < w.effort)

theorem nearer_of_load {w w' : World} {i : Nat} (h : w.step (.load i) = some w') : w'.Nearer w := by
  obtain ⟨⟨party, call, phase⟩, ht, hl, rfl⟩ := load_eq_some h
  have hp : phase = .entering := by
    cases call <;> cases phase <;> simp_all [Thread.loads]
  subst hp
  have hu := total_set Thread.undecided ht ⟨party, call, .primed w.pipe.expiryMs⟩
  have ho := total_set Thread.owed ht ⟨party, call, .primed w.pipe.expiryMs⟩
  have he := total_set Thread.effort ht ⟨party, call, .primed w.pipe.expiryMs⟩
  simp only [Thread.undecided, Thread.owed, Thread.effort] at hu ho he
  simp only [Nearer, undecided, owed, effort, setThread]
  omega

theorem nearer_of_conclude {w : World} {i : Nat} {t : Thread} {m : Moment}
    (ht : w.threads[i]? = some t) (hu : t.undecided = 1) (he : 0 < t.effort)
    (ho : t.owed = 0) (found : Option Reply × Pipe) : (w.conclude i t m found).Nearer w := by
  obtain ⟨answer, p⟩ := found
  cases answer with
  | some reply =>
    have h := total_set Thread.undecided ht { t with phase := .leaving reply.signals reply }
    simp only [Thread.undecided] at h hu
    simp only [Nearer, undecided, conclude]
    omega
  | none =>
    have h1 := total_set Thread.undecided ht { t with phase := .parked t.call.side }
    have h2 := total_set Thread.owed ht { t with phase := .parked t.call.side }
    have h3 := total_set Thread.effort ht { t with phase := .parked t.call.side }
    rw [hu] at h1
    rw [ho] at h2
    simp only [Thread.undecided, Thread.owed, Thread.effort] at h1 h2 h3 he
    simp only [Nearer, undecided, owed, effort, conclude]
    omega

theorem nearer_of_lock {w w' : World} {i : Nat} {m : Moment}
    (h : w.step (.lock i m) = some w') : w'.Nearer w := by
  obtain ⟨⟨party, call, phase⟩, found, ht, hf, rfl⟩ := lock_eq_some h
  cases phase with
  | parked side => simp [Thread.look] at hf
  | leaving owed reply => simp [Thread.look] at hf
  | entering => exact nearer_of_conclude ht rfl (by simp [Thread.effort]) rfl found
  | primed expiryMs => exact nearer_of_conclude ht rfl (by simp [Thread.effort]) rfl found
  | woken side => exact nearer_of_conclude ht rfl (by simp [Thread.effort]) rfl found

theorem nearer_of_signal {w w' : World} {i : Nat} (h : w.step (.signal i) = some w') :
    w'.Nearer w := by
  obtain ⟨⟨party, call, phase⟩, side, sides, reply, ht, hp, rfl⟩ := signal_eq_some h
  obtain rfl : phase = _ := hp
  have h1 := total_set Thread.undecided ht ⟨party, call, .leaving sides reply⟩
  have h2 := total_set Thread.owed ht ⟨party, call, .leaving sides reply⟩
  have hu : Thread.undecided ∘ Thread.wake side = Thread.undecided :=
    funext fun t => Thread.undecided_wake side t
  have ho : Thread.owed ∘ Thread.wake side = Thread.owed :=
    funext fun t => Thread.owed_wake side t
  simp only [Nearer, undecided, owed, total_map, hu, ho]
  simp only [Thread.undecided, Thread.owed, List.length_cons] at h1 h2
  omega

/-- A move that a thread makes by itself is a load, a lock or a signal. -/
theorem nearer_of_advance? {w w' : World} {m : Moment} (h : w.advance? m = some w') :
    w'.Nearer w := by
  simp only [advance?, Option.bind_eq_some_iff] at h
  obtain ⟨move, hd, hs⟩ := h
  simp only [due, List.findSome?_eq_some_iff] at hd
  obtain ⟨_, ⟨t, i⟩, _, _, ht, _⟩ := hd
  obtain ⟨party, call, phase⟩ := t
  cases phase with
  | parked side => simp [Thread.due] at ht
  | primed expiryMs =>
    simp only [Thread.due, Option.some.injEq] at ht
    subst ht
    exact nearer_of_lock hs
  | woken side =>
    simp only [Thread.due, Option.some.injEq] at ht
    subst ht
    exact nearer_of_lock hs
  | entering =>
    simp only [Thread.due] at ht
    split at ht <;> simp only [Option.some.injEq] at ht <;> subst ht
    · exact nearer_of_load hs
    · exact nearer_of_lock hs
  | leaving owed reply =>
    cases owed with
    | nil => simp [Thread.due] at ht
    | cons side sides =>
      simp only [Thread.due, Option.some.injEq] at ht
      subst ht
      exact nearer_of_signal hs

/-! ## Coming to rest -/

/-- Lets all threads go on until none has a move that is due. -/
def settle (w : World) (m : Moment) : World :=
  match _next : w.advance? m with
  | none => w
  | some w' => settle w' m
termination_by (w.undecided, w.owed, w.effort)
decreasing_by
  rcases nearer_of_advance? _next with h | ⟨h1, h | ⟨h2, h3⟩⟩
  · exact Prod.Lex.left _ _ h
  · rw [h1]; exact Prod.Lex.right _ (Prod.Lex.left _ _ h)
  · rw [h1, h2]; exact Prod.Lex.right _ (Prod.Lex.right _ h3)

end World

end MessagePipe
