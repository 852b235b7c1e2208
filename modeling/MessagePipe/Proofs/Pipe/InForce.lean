import MessagePipe.Pipe.Stats
import MessagePipe.Proofs.Pipe.Custody

/-!
# MessagePipe.Proofs.Pipe.InForce

Which expiry is in force.  A duration is accepted if it has at least one whole
millisecond and no more of them than a word holds (`Duration.IsExpiry`); a new
pipe asks for the same as a change of the expiry does, although it checks in two
places.  What is kept of an accepted duration are its whole milliseconds
(`Pipe.Keeps`): that is what sweeps reckon with, what the numbers of the pipe
show, and what comes out when the pipe is asked.

While threads are at work the expiry in force is the last one that was accepted
(`History.inForce`).  One step keeps this (`Pool.Step.inForce`), so it holds of
every world that can come up (`World.Reachable.millis_inForce`).
-/

namespace MessagePipe

/-! ## Durations -/

/-- Whether a duration can be the expiry of a pipe. -/
def Duration.IsExpiry (d : Duration) : Prop :=
  1 ≤ d.nanos / 1000000 ∧ d.nanos / 1000000 < wordLimit

theorem exists_expiryMillis_iff {d : Duration} : (∃ ms, expiryMillis d = .ok ms) ↔ d.IsExpiry := by
  constructor
  · rintro ⟨ms, h⟩
    obtain ⟨hpos, hlt, -⟩ := expiryMillis_eq_ok_iff.mp h
    exact ⟨hpos, hlt⟩
  · rintro ⟨hpos, hlt⟩
    exact ⟨_, expiryMillis_eq_ok_iff.mpr ⟨hpos, hlt, UInt64.toNat_ofNat_of_lt' hlt⟩⟩

namespace Pipe

variable {p q : Pipe} {d : Duration} {caller : Credentials}

/-- What a pipe makes of an expiry that it accepted. -/
structure Keeps (p : Pipe) (d : Duration) : Prop where
  /-- Whole milliseconds are kept, as many as the duration has. -/
  millis : p.expiryMs.toNat = d.nanos / 1000000
  shown : p.stats.expiryMs.toNat = d.nanos / 1000000
  /-- What the pipe gives as its expiry is the duration without the broken millisecond. -/
  expiry : p.expiry.nanos = d.nanos / 1000000 * 1000000
  within : p.expiry.nanos ≤ d.nanos ∧ d.nanos < p.expiry.nanos + 1000000
  /-- A sweep removes what was stamped before the time of the sweep less the expiry. -/
  sweep : ∀ now, ∃ c : UInt64, c.toNat = now.toNat - d.nanos / 1000000 ∧
    p.sweep now = ((p.ring.sweep c).1, { p with ring := (p.ring.sweep c).2 })
  /-- To set the expiry to what it is makes no difference. -/
  again : ∀ caller : Credentials, caller.uid = 0 → p.setExpiry caller p.expiry = (.ok (), p)

/-! ## Setting the expiry -/

theorem setExpiry_of_millis {ms : UInt64} (hc : caller.uid = 0) (h : expiryMillis d = .ok ms) :
    p.setExpiry caller d = (.ok (), { p with expiryMs := ms }) := by
  have hprivileged : caller.isPrivileged = true := by simp [Credentials.isPrivileged, hc]
  rw [setExpiry, if_pos hprivileged, h]

/-- An expiry that was set was set by user 0, and is kept in whole milliseconds. -/
theorem setExpiry_of_ok {u : Unit} (h : (p.setExpiry caller d).1 = .ok u) :
    caller.uid = 0 ∧ expiryMillis d = .ok (p.setExpiry caller d).2.expiryMs := by
  rcases p.setExpiry_cases caller d with ⟨e, hset⟩ | ⟨huid, ms, hms, hset⟩
  · rw [hset] at h
    contradiction
  · rw [hset]
    exact ⟨huid, hms⟩

/-- An expiry that was not set leaves the old one, and all else, as it was. -/
theorem setExpiry_of_error {e : PipeError} (h : (p.setExpiry caller d).1 = .error e) :
    (p.setExpiry caller d).2 = p := by
  rcases p.setExpiry_cases caller d with ⟨e', hset⟩ | ⟨-, ms, -, hset⟩
  · rw [hset]
  · rw [hset] at h
    contradiction

/-- User 0 can set every duration that is accepted, and no other. -/
theorem setExpiry_fst_eq_ok_iff (hc : caller.uid = 0) :
    (p.setExpiry caller d).1 = .ok () ↔ d.IsExpiry := by
  rw [← exists_expiryMillis_iff]
  constructor
  · intro h
    exact ⟨_, (setExpiry_of_ok h).2⟩
  · rintro ⟨ms, hms⟩
    rw [setExpiry_of_millis hc hms]

/-- All that is kept of an expiry follows from the milliseconds. -/
theorem keeps_of_millis (h : expiryMillis d = .ok p.expiryMs) : p.Keeps d := by
  obtain ⟨hpos, hlt, hms⟩ := expiryMillis_eq_ok_iff.mp h
  have hexpiry : p.expiry = .ofMillis d.wholeMillis := by rw [expiry, hms]
  have hwithin := d.ofMillis_wholeMillis_le
  rw [← hexpiry] at hwithin
  refine ⟨hms, hms, congrArg Duration.nanos hexpiry, hwithin, fun now => ?_, fun caller hc => ?_⟩
  · refine ⟨cutoff now p.expiryMs, ?_, rfl⟩
    rw [toNat_cutoff, hms]
    rfl
  · have hsame : expiryMillis p.expiry = .ok p.expiryMs := by
      rw [expiryMillis_eq_ok_iff, hexpiry, Duration.wholeMillis_ofMillis]
      exact ⟨hpos, hlt, hms⟩
    rw [setExpiry_of_millis hc hsame]

end Pipe

/-! ## The expiry in force -/

/-- The expiry that a call set. -/
def Visit.accepted? (v : Visit) : Option Duration :=
  match v.call, v.reply with
  | .setExpiry _ expiry, .expirySet (.ok _) => some expiry
  | _, _ => none

/-- The expiry that was accepted last, and the first one as long as no other was. -/
def History.inForce (first : Duration) (h : List Visit) : Duration :=
  (h.filterMap Visit.accepted?).getLast?.getD first

theorem History.inForce_append (first : Duration) (h : List Visit) (v : Option Visit) :
    inForce first (h ++ v.toList) = (v.bind Visit.accepted?).getD (inForce first h) := by
  unfold inForce
  cases v with
  | none => rw [Option.toList_none, List.append_nil]; rfl
  | some v =>
      rw [Option.toList_some, List.filterMap_append, Option.bind_some]
      cases hv : v.accepted? with
      | none => rw [List.filterMap_cons_none hv, List.filterMap_nil, List.append_nil]; rfl
      | some d => rw [List.filterMap_cons_some hv, List.filterMap_nil, List.getLast?_concat]; rfl

/-- After a look that ends a call the expiry in force is what the call set, if it set one. -/
theorem Pipe.millis_visit {p q : Pipe} {m : Moment} {call : Call} {reply : Reply} {d : Duration}
    (h : p.visit m call = (some reply, q)) (hd : expiryMillis d = .ok p.expiryMs)
    (party : Option Nat) :
    expiryMillis ((Visit.accepted? ⟨party, call, m.now, reply⟩).getD d) = .ok q.expiryMs := by
  have hother : (∀ caller expiry, call ≠ .setExpiry caller expiry) →
      expiryMillis d = .ok q.expiryMs := by
    intro hcall
    have hsame : (p.visit m call).2.expiryMs = p.expiryMs := by
      by_contra hne
      obtain ⟨caller, expiry, hset, -⟩ := setExpiry_of_visit hne
      exact hcall caller expiry hset
    rw [h] at hsame
    rw [hsame, hd]
  cases call with
  | setExpiry caller expiry =>
      rw [visit_setExpiry, Prod.mk.injEq, Option.some.injEq] at h
      obtain ⟨rfl, rfl⟩ := h
      cases hresult : (p.setExpiry caller expiry).1 with
      | error e => rw [setExpiry_of_error hresult]; exact hd
      | ok u => exact (setExpiry_of_ok hresult).2
  | send | recv | sweep | clear | close => exact hother fun _ _ hset => by contradiction

/-- One step keeps the expiry in force. -/
theorem Pool.Step.inForce {before after : Pool} {v : Option Visit} (hs : Step before v after)
    {d : Duration} (hd : expiryMillis d = .ok before.pipe.expiryMs) :
    expiryMillis ((v.bind Visit.accepted?).getD d) = .ok after.pipe.expiryMs := by
  cases hs with
  | start | rouse => exact hd
  | @due m _ _ _ hdue =>
      cases hdue with
      | load | signal => exact hd
      | park hl =>
          obtain ⟨rfl, -, -⟩ := Thread.look_none hl
          rw [Pipe.expiryMs_enroll, Thread.expiryMs_resume]
          exact hd
      | @answer p q t others reply hl =>
          rcases Thread.look_cases hl with ⟨-, hv⟩ | ⟨expiryMs, -, hsweep⟩
          · rw [← Thread.expiryMs_resume t p] at hd
            exact Pipe.millis_visit hv.symm hd t.party
          · -- a sweep sets no expiry, whatever the call of the thread says
            obtain ⟨hreply, hq⟩ := Prod.mk.inj hsweep
            obtain rfl := Option.some.inj hreply
            obtain rfl := hq
            have hnone : Visit.accepted? ⟨t.party, t.call, m.now,
                (p.sweepReply expiryMs m.now).1⟩ = none := by
              cases t.call <;> rfl
            rw [Option.bind_some, hnone]
            exact hd

namespace World

variable {c : PipeConfig} {w : World}

theorem Reachable.millis_inForce (h : w.Reachable c) :
    expiryMillis (History.inForce c.expiry w.history) = .ok w.pipe.expiryMs := by
  refine h.invariant (fun P history =>
    expiryMillis (History.inForce c.expiry history) = .ok P.pipe.expiryMs) ?_ ?_
  · intro p hp
    obtain ⟨-, ms, hms, rfl⟩ := Pipe.create_eq_ok_iff.mp hp
    exact hms
  · intro before after v history hinv hstep
    rw [History.inForce_append]
    exact hstep.inForce hinv

/-- An expiry is in force: the pipe keeps it, and a thread that reads the expiry now will sweep
with it, at whatever moment it gets the lock and whatever the pipe is then. -/
structure InForce (w : World) (d : Duration) : Prop where
  pipe : w.pipe.Keeps d
  sweep : ∀ i w', w.step (.load i) = some w' → ∃ t, w'.threads[i]? = some t ∧
    ∀ (p : Pipe) (m : Moment), ∃ c : UInt64, c.toNat = m.now.toNat - d.nanos / 1000000 ∧
      t.look p m = some (some (.swept (p.ring.sweep c).1 c), { p with ring := (p.ring.sweep c).2 })

theorem Reachable.inForce (h : w.Reachable c) : w.InForce (History.inForce c.expiry w.history) := by
  have hkeeps := Pipe.keeps_of_millis h.millis_inForce
  refine ⟨hkeeps, fun i w' hload => ?_⟩
  obtain ⟨t, ht, -, rfl⟩ := load_eq_some hload
  have hi : i < w.threads.length := (List.getElem?_eq_some_iff.mp ht).1
  refine ⟨_, List.getElem?_set_self hi, fun p m => ⟨Pipe.cutoff m.now w.pipe.expiryMs, ?_, rfl⟩⟩
  rw [Pipe.toNat_cutoff, hkeeps.millis]

end World

/-! ## All together -/

/-- What becomes of a duration that is given as an expiry, to a new pipe over a ring of some shape
or to any other pipe. -/
structure Duration.AsExpiry (d : Duration) (g : Geometry) : Prop where
  create_iff : (∃ p, Pipe.create ⟨g, d⟩ = .ok p) ↔ d.IsExpiry
  set_iff : ∀ (p : Pipe) (caller : Credentials), caller.uid = 0 →
    ((p.setExpiry caller d).1 = .ok () ↔ d.IsExpiry)
  created : ∀ p, Pipe.create ⟨g, d⟩ = .ok p → p.Keeps d
  set : ∀ (p : Pipe) caller, (p.setExpiry caller d).1 = .ok () → (p.setExpiry caller d).2.Keeps d
  /-- A duration that is rejected, for whatever reason, changes nothing. -/
  rejected : ∀ (p : Pipe) caller e, (p.setExpiry caller d).1 = .error e →
    (p.setExpiry caller d).2 = p
  /-- Whatever the threads do to a pipe that was made with it, the expiry in force is the last one
  that was accepted. -/
  inForce : ∀ w : World, w.Reachable ⟨g, d⟩ → w.InForce (History.inForce d w.history)

/-- **Expiry**: a new pipe and a change of the expiry by user 0 accept the same durations, those
of at least one whole millisecond and of fewer than a word cannot hold; what is kept of them are
the whole milliseconds, and they stay in force until others are accepted. -/
theorem Duration.asExpiry {g : Geometry} (hg : g.validate = .ok ()) (d : Duration) :
    d.AsExpiry g where
  create_iff := by
    rw [← exists_expiryMillis_iff]
    constructor
    · rintro ⟨p, hp⟩
      obtain ⟨-, ms, hms, -⟩ := Pipe.create_eq_ok_iff.mp hp
      exact ⟨ms, hms⟩
    · rintro ⟨ms, hms⟩
      exact ⟨_, Pipe.create_eq_ok_iff.mpr ⟨Geometry.validate_eq_ok_iff.mp hg, ms, hms, rfl⟩⟩
  set_iff _ _ := Pipe.setExpiry_fst_eq_ok_iff
  created p hp := by
    obtain ⟨-, ms, hms, rfl⟩ := Pipe.create_eq_ok_iff.mp hp
    exact Pipe.keeps_of_millis hms
  set _ _ hok := Pipe.keeps_of_millis (Pipe.setExpiry_of_ok hok).2
  rejected _ _ _ := Pipe.setExpiry_of_error
  inForce _ := World.Reachable.inForce

/-- The longest expiry there is, with a broken millisecond behind it, is accepted; a millisecond
more is not, nor is less than one millisecond, and the longest expiry stays in force. -/
theorem Duration.asExpiry_longest :
    ∃ w : World, w.Reachable ⟨⟨1, 1⟩, ⟨2500001⟩⟩ ∧
      w.history.map Visit.reply = [.expirySet (.ok ()),
        .expirySet (.error (.ring (.invalidArgument .expiryTooLong))),
        .expirySet (.error (.ring (.invalidArgument .expiryTooShort)))] ∧
      w.InForce ⟨18446744073709551615999999⟩ ∧ w.pipe.expiryMs = 18446744073709551615 := by
  have hreach : ∃ w : World, w.Reachable ⟨⟨1, 1⟩, ⟨2500001⟩⟩ ∧
      w.history.map Visit.reply = [.expirySet (.ok ()),
        .expirySet (.error (.ring (.invalidArgument .expiryTooLong))),
        .expirySet (.error (.ring (.invalidArgument .expiryTooShort)))] ∧
      History.inForce ⟨2500001⟩ w.history = ⟨18446744073709551615999999⟩ ∧
      w.pipe.expiryMs = 18446744073709551615 :=
    ⟨_, ⟨_, [.start none (.setExpiry ⟨0, 5⟩ ⟨18446744073709551615999999⟩), .lock 0 ⟨7, false⟩,
      .start none (.setExpiry ⟨0, 5⟩ ⟨18446744073709551616000000⟩), .lock 1 ⟨8, false⟩,
      .start none (.setExpiry ⟨0, 5⟩ ⟨999999⟩), .lock 2 ⟨9, false⟩], rfl, rfl⟩, rfl, rfl, rfl⟩
  obtain ⟨w, hw, hreplies, hforce, hms⟩ := hreach
  have hinForce := (Duration.asExpiry (g := ⟨1, 1⟩) rfl ⟨2500001⟩).inForce w hw
  rw [hforce] at hinForce
  exact ⟨w, hw, hreplies, hinForce, hms⟩

end MessagePipe
