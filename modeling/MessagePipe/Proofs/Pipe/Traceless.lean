import MessagePipe.Proofs.Pipe.Solo
import MessagePipe.Proofs.Ring.Frame
import MessagePipe.Proofs.Ring.Occupancy

/-!
# MessagePipe.Proofs.Pipe.Traceless

Failures leave no trace.  A call that fails leaves the pipe as it was, with
all its records and bytes, its counters and its expiry, and the buffer of the
caller too; also a call that fails because its time was over, after it was
parked any number of times.

So in a sequence of calls, each made after the one before has returned
(`Steps World.Returned`), the failures can be left out: the others return what
they returned, and the pipe at the end is the same (`World.exists_thinned`).
Only the clock readings of the calls that are left must stay as they are.
-/

namespace MessagePipe

/-- Whether a call failed. -/
def Reply.failed : Reply → Bool
  | sent (.error _) | received (.error _) _ | expirySet (.error _) | cleared (.error _) => true
  | _ => false

/-! ## Looks that fail -/

namespace Pipe

variable {p q : Pipe} {m : Moment} {reply : Reply}

/-- A look that ends a call with a failure changes nothing. -/
theorem visit_of_failed {call : Call} (h : p.visit m call = (some reply, q))
    (hf : reply.failed = true) : q = p := by
  cases call with
  | send sender data wait =>
      rw [visit_send] at h
      split at h
      · exact (Prod.mk.inj h).2.symm
      split at h
      · exact (Prod.mk.inj h).2.symm
      split at h
      · exact (Prod.mk.inj h).2.symm
      · obtain ⟨hreply, -⟩ := Prod.mk.inj h
        obtain rfl := Option.some.inj hreply
        contradiction
  | recv reader out wait =>
      rw [visit_recv] at h
      split at h
      · split at h <;> exact (Prod.mk.inj h).2.symm
      · obtain ⟨hreply, rfl⟩ := Prod.mk.inj h
        obtain rfl := Option.some.inj hreply
        rcases pop_cases p.ring reader out with ⟨e, -, hring⟩ | ⟨n, hok⟩
        · rw [hring]
        · rw [hok] at hf
          contradiction
  | sweep | close =>
      obtain ⟨hreply, -⟩ := Prod.mk.inj h
      obtain rfl := Option.some.inj hreply
      contradiction
  | setExpiry caller expiry =>
      rw [visit_setExpiry] at h
      rcases p.setExpiry_cases caller expiry with ⟨e, hset⟩ | ⟨-, ms, -, hset⟩ <;> rw [hset] at h
      · exact (Prod.mk.inj h).2.symm
      · obtain rfl := Option.some.inj (Prod.mk.inj h).1
        contradiction
  | clear caller =>
      simp only [visit, clear] at h
      split at h
      · obtain rfl := Option.some.inj (Prod.mk.inj h).1
        contradiction
      · exact (Prod.mk.inj h).2.symm

/-- What a call makes of the pipe that is made while nobody else does anything: the look that
ends it may come when the time to wait is over. -/
def Settles (p : Pipe) (v : Visit) (q : Pipe) : Prop :=
  p.visit ⟨v.now, true⟩ v.call = (some v.reply, q)

theorem Settles.of_failed {v : Visit} (h : p.Settles v q) (hf : v.reply.failed = true) : q = p :=
  visit_of_failed h hf

/-- A receive that fails leaves the buffer as it was. -/
theorem buffer_of_failed {reader : Credentials} {out out' : Bytes} {wait : Wait} {e : PipeError}
    (h : p.visit m (.recv reader out wait) = (some (.received (.error e) out'), q)) :
    out' = out := by
  rw [visit_recv] at h
  split at h
  · split at h
    · obtain ⟨hreply, -⟩ := Prod.mk.inj h
      cases hreply
      rfl
    · obtain ⟨hreply, -⟩ := Prod.mk.inj h
      obtain ⟨e', -, he⟩ := Option.map_eq_some_iff.mp hreply
      cases he
      rfl
  · obtain ⟨hreply, -⟩ := Prod.mk.inj h
    have hreceived := Option.some.inj hreply
    rw [Reply.received.injEq] at hreceived
    obtain ⟨hresult, rfl⟩ := hreceived
    rcases pop_cases p.ring reader out with ⟨e', herror, -⟩ | ⟨n, hok⟩
    · rw [Ring.pop_snd_of_error herror]
    · rw [hok] at hresult
      contradiction

end Pipe

/-! ## Calls one after the other -/

namespace World

variable {w w' w'' : World} {v : Visit} {visits kept : List Visit}

/-- A call is made and returns, and nobody else does anything. -/
def Returned (w : World) (v : Visit) (w' : World) : Prop :=
  w.Solo v.party v.call v.now w' ⟨v.party, v.call, .leaving [] v.reply⟩

theorem Returned.settles (h : w.Returned v w') : w.pipe.Settles v w'.pipe := by
  obtain ⟨-, -, hs⟩ := Solo.stage h
  obtain ⟨late, hv⟩ := hs.of_leaving
  exact Pipe.visit_late hv

/-- A call whose last look gives a reply can return. -/
theorem exists_returned {q : Pipe} (h : w.pipe.Settles v q) :
    ∃ w', w.Returned v w' ∧ w'.pipe = q := by
  obtain ⟨w₁, hstart⟩ := Solo.start w v.party v.call v.now
  obtain ⟨moves, w₂, -, hreturned⟩ := (ends_of_visit h).returns hstart
  exact ⟨w₂, hreturned, ((ends_of_visit h).decided hreturned rfl).2⟩

/-- What a sequence of calls does to the pipe, call by call. -/
theorem steps_settles (h : Steps Returned w visits w') :
    Steps Pipe.Settles w.pipe visits w'.pipe := by
  induction h with
  | nil w => exact .nil w.pipe
  | cons first rest ih => exact .cons first.settles ih

/-- Calls can be made whenever the pipe gives the replies. -/
theorem exists_steps {p : Pipe} (h : Steps Pipe.Settles w.pipe visits p) :
    ∃ w', Steps Returned w visits w' ∧ w'.pipe = p := by
  generalize hw : w.pipe = start at h
  induction h generalizing w with
  | nil start => exact ⟨w, .nil w, hw⟩
  | cons first rest ih =>
      obtain ⟨w₁, hreturned, hpipe⟩ := exists_returned (hw ▸ first)
      obtain ⟨w₂, hrest, hfinal⟩ := ih hpipe
      exact ⟨w₂, .cons hreturned hrest, hfinal⟩

/-- Calls one after the other are what `Pipe.runAlone` computes. -/
theorem runAlone_eq (h : Steps Returned w visits w') (late : Bool) :
    w.pipe.runAlone (visits.map fun v => (v.call, ⟨v.now, late⟩)) =
      (visits.map fun v => some v.reply, w'.pipe) := by
  induction h with
  | nil w => rfl
  | cons first rest ih =>
      simp only [List.map_cons, Pipe.runAlone, Pipe.alone_of_visit first.settles, ih]

/-- What is asked, and at which times, settles what is returned and what becomes of the pipe. -/
theorem steps_unique {others : List Visit} (h : Steps Returned w visits w')
    (h' : Steps Returned w others w'')
    (hsame : others.map (fun v => (v.call, v.now)) = visits.map fun v => (v.call, v.now)) :
    others.map (·.reply) = visits.map (·.reply) ∧ w''.pipe = w'.pipe := by
  have hasked := congrArg (List.map fun a : Call × UInt64 => (a.1, (⟨a.2, true⟩ : Moment))) hsame
  simp only [List.map_map, Function.comp_def] at hasked
  have heq := (runAlone_eq h' true).symm.trans (hasked ▸ runAlone_eq h true)
  obtain ⟨hreplies, hpipe⟩ := Prod.mk.inj heq
  refine ⟨?_, hpipe⟩
  have hsome := congrArg (List.filterMap id) hreplies
  simpa [List.filterMap_map, List.filterMap_eq_map'] using hsome

/-- Failures can be left out. -/
theorem exists_thinned (h : Steps Returned w visits w')
    (ht : Thinned (·.reply.failed = true) visits kept) :
    ∃ w'', Steps Returned w kept w'' ∧ w''.pipe = w'.pipe :=
  exists_steps ((steps_settles h).of_thinned (fun _ _ _ hf hs => hs.of_failed hf) ht)

/-- Failures of calls that are made while nobody else does anything leave no trace. -/
structure Traceless (w : World) : Prop where
  failed : ∀ v w', w.Returned v w' → v.reply.failed = true → w'.pipe = w.pipe
  buffer : ∀ party reader out wait now e out' w',
    w.Returned ⟨party, .recv reader out wait, now, .received (.error e) out'⟩ w' → out' = out
  /-- Failures can be left out of any sequence of calls: the others can be made at the same times,
  and however they go about it, they return the same and leave the same pipe. -/
  thinned : ∀ visits kept w', Steps Returned w visits w' →
    Thinned (·.reply.failed = true) visits kept →
      (∃ w'', Steps Returned w kept w'' ∧ w''.pipe = w'.pipe) ∧
        ∀ others w'', Steps Returned w others w'' →
          others.map (fun v => (v.call, v.now)) = kept.map (fun v => (v.call, v.now)) →
            others.map (·.reply) = kept.map (·.reply) ∧ w''.pipe = w'.pipe

theorem traceless (w : World) : w.Traceless where
  failed _ _ h hf := h.settles.of_failed hf
  buffer _ _ _ _ _ _ _ _ h := Pipe.buffer_of_failed h.settles
  thinned visits kept w' h ht := by
    obtain ⟨w₁, hkept, hpipe⟩ := exists_thinned h ht
    refine ⟨⟨w₁, hkept, hpipe⟩, fun others w'' hothers hsame => ?_⟩
    obtain ⟨hreplies, hsamePipe⟩ := steps_unique hkept hothers hsame
    exact ⟨hreplies, hsamePipe.trans hpipe⟩

end World

/-! ## All together -/

/-- **No trace**: storage that no ring can be set up on is left as it was, and is given back so to
whoever lent it; a push or a pop that fails leaves the ring and the buffer, and one that succeeds
changes no more than its frame; and a call on a pipe that fails leaves the pipe and the buffer. So
any failures can be left out of a sequence of operations or of calls. -/
theorem failures_leave_no_trace {g : Geometry} {r : Ring} (hr : r.Reachable g) (w : World) :
    (∀ (s : Storage) (g' : Geometry) (e : RingError),
        (Ring.init g' s).1 = .error e → (Ring.init g' s).2 = s) ∧
      (∀ (α : Type) (s : Storage) (g' : Geometry) (use : Ring → α × Ring) (e : RingError),
        (s.lend g' use).1 = .error e → (s.lend g' use).2 = s) ∧
      r.Traceless ∧ w.Traceless :=
  ⟨fun _ _ _ h => Ring.init_storage_of_error h, fun _ _ _ _ _ h => Storage.lend_snd_of_error h,
    hr.wellFormed.traceless, w.traceless⟩

/-- Dirty storage has a record too many for the ring; a receive on an empty pipe parks, is roused,
and gives up when its time is over. -/
theorem failures_leave_no_trace_timeout :
    let dirty : Storage := ⟨[170, 170], List.replicate 2 ⟨77, ⟨88, 99⟩, 1, true⟩⟩
    let storage : Storage := .fresh ⟨1, 2⟩ 2
    let ring := Ring.wiped ⟨1, 2⟩ storage
    let w := World.ofPipe ⟨ring, 1000, false, 0, 0⟩
    let v : Visit := ⟨none, .recv ⟨5, 6⟩ [1, 2] .timed, 7, .received (.error .timeout) [1, 2]⟩
    (Ring.init ⟨1, 2⟩ dirty).1 = .error (.invalidArgument .recordMismatch) ∧
      (Ring.init ⟨1, 2⟩ dirty).2 = dirty ∧ (Ring.init ⟨1, 2⟩ storage).1 = .ok ring ∧
      (ring.pop ⟨5, 6⟩ [1, 2]).2 = ([1, 2], ring) ∧
      ∃ w', w.Returned v w' ∧ w'.pipe = w.pipe := by
  intro dirty storage ring w v
  have hrefused : (Ring.init ⟨1, 2⟩ dirty).1 = .error (.invalidArgument .recordMismatch) := rfl
  have hinit : (Ring.init ⟨1, 2⟩ storage).1 = .ok ring := rfl
  have hreachable : ring.Reachable ⟨1, 2⟩ := ⟨storage, ring, [], hinit, rfl⟩
  obtain ⟨hstorage, -, hring, hworld⟩ := failures_leave_no_trace hreachable w
  have hreturned : ∃ w', w.Returned v w' := by
    refine ⟨_, [.lock 0 ⟨7, false⟩, .rouse 0, .lock 0 ⟨7, true⟩], rfl, ?_, rfl⟩
    simp [Move.IsOf, w, v, World.ofPipe]
  obtain ⟨w', hreturned⟩ := hreturned
  exact ⟨hrefused, hstorage _ _ _ hrefused, hinit, hring.pop_error _ _ .noData rfl, w', hreturned,
    hworld.failed v w' hreturned rfl⟩

end MessagePipe
