import MessagePipe.Proofs.Pipe.Invariant

/-!
# MessagePipe.Proofs.Pipe.Bare

A pipe and its threads without what no look depends on: the counters, what a
buffer held before (but not its length), and whether a caller that wants the
lock has waited before.  Threads of a group that are equally far cannot be told
apart then.

A bare thread that wants to go on does so in one way only (`Thread.act`), and
what threads do by themselves is, seen bare, one such act after the other
(`Pool.turn_of_due`).
-/

namespace MessagePipe

/-- The pipe without its counters. -/
def Pipe.bare (p : Pipe) : Pipe := { p with readersWaiting := 0, writersWaiting := 0 }

/-- The call with a buffer of the same length that holds nothing yet. -/
def Call.bare : Call → Call
  | .recv reader out wait => .recv reader (Bytes.zeros out.length) wait
  | call => call

/-- The reply without what the buffer held before. -/
def Reply.bare : Reply → Reply
  | .received (.ok n) out => .received (.ok n) (out.take n)
  | .received (.error e) _ => .received (.error e) []
  | reply => reply

/-- The thread without what no look depends on. -/
def Thread.bare (t : Thread) : Thread where
  party := t.party
  call := t.call.bare
  phase :=
    match t.phase with
    | .entering => if t.loads then .entering else .woken t.call.side
    | .leaving owed reply => .leaving owed reply.bare
    | phase => phase

def Pool.bare (P : Pool) : Pool := ⟨P.pipe.bare, P.crowd.map Thread.bare⟩

@[simp] theorem Call.side_bare (call : Call) : call.bare.side = call.side := by
  cases call <;> rfl

@[simp] theorem Call.wait_bare (call : Call) : call.bare.wait = call.wait := by
  cases call <;> rfl

theorem Reply.signals_bare (reply : Reply) : reply.bare.signals = reply.signals := by
  cases reply with
  | received result out => cases result <;> rfl
  | _ => rfl

theorem Thread.bare_wake (side : Side) (t : Thread) : (t.wake side).bare = t.bare.wake side := by
  obtain ⟨party, call, phase⟩ := t
  cases phase with
  | parked s => by_cases h : s = side <;> simp [wake, bare, h]
  | entering => cases call <;> rfl
  | _ => rfl

/-! ## Looks -/

namespace Pipe

variable {p : Pipe}

/-- What a pop does depends on the length of the buffer only, and what it puts there is the
message. -/
theorem pop_bare {r : Ring} (h : r.WellFormed) (reader : Credentials) (out : Bytes) :
    (r.pop reader (Bytes.zeros out.length)).2.2 = (r.pop reader out).2.2 ∧
      (Reply.received ((r.pop reader (Bytes.zeros out.length)).1.mapError .ring)
          (r.pop reader (Bytes.zeros out.length)).2.1).bare =
        (Reply.received ((r.pop reader out).1.mapError .ring) (r.pop reader out).2.1).bare := by
  cases Nat.eq_zero_or_pos r.count with
  | inl h0 =>
      rw [Ring.pop_of_zero h h0, Ring.pop_of_zero h h0]
      exact ⟨rfl, rfl⟩
  | inr h0 =>
      rw [Ring.pop_of_pos h h0, Ring.pop_of_pos h h0, Bytes.length_zeros]
      split
      · exact ⟨rfl, rfl⟩
      · split
        · exact ⟨rfl, rfl⟩
        · refine ⟨rfl, ?_⟩
          show Reply.received (.ok _) (List.take _ _) = Reply.received (.ok _) (List.take _ _)
          rw [List.take_left, List.take_left]

theorem visit_bare (h : p.ring.WellFormed) (m : Moment) (call : Call) :
    (p.bare.visit m call.bare).1.map Reply.bare = (p.visit m call).1.map Reply.bare ∧
      (p.bare.visit m call.bare).2 = (p.visit m call).2.bare := by
  have hring : p.bare.ring = p.ring := rfl
  have hclosed : p.bare.closed = p.closed := rfl
  cases call with
  | send sender data wait =>
      have hv : p.bare.visit m (.send sender data wait) =
          ((p.visit m (.send sender data wait)).1,
            (p.visit m (.send sender data wait)).2.bare) := by
        rw [visit_send, visit_send, hring, hclosed]
        split
        · rfl
        · split
          · rfl
          · split <;> rfl
      rw [show Call.bare (.send sender data wait) = .send sender data wait from rfl, hv]
      exact ⟨rfl, rfl⟩
  | recv reader out wait =>
      obtain ⟨hpipe, hreply⟩ := pop_bare h reader out
      rw [show Call.bare (.recv reader out wait) =
        .recv reader (Bytes.zeros out.length) wait from rfl,
        visit_recv, visit_recv, hring, hclosed]
      split
      · split
        · exact ⟨rfl, rfl⟩
        · refine ⟨?_, rfl⟩
          rw [Option.map_map, Option.map_map]
          rfl
      · rw [hpipe]
        exact ⟨congrArg some hreply, rfl⟩
  | sweep => exact ⟨rfl, rfl⟩
  | setExpiry caller expiry =>
      simp only [Call.bare, visit, setExpiry]
      split
      · cases expiryMillis expiry <;> exact ⟨rfl, rfl⟩
      · exact ⟨rfl, rfl⟩
  | clear caller =>
      simp only [Call.bare, visit, clear]
      split <;> exact ⟨rfl, rfl⟩
  | close => exact ⟨rfl, rfl⟩

end Pipe

/-! ## Acts -/

namespace Thread

/-- A thread that has looked at the pipe: its call is decided, or it parks. -/
def after (t : Thread) : Option Reply → Thread
  | some reply => t.leave reply.bare
  | none => t.park

/-- What a bare thread does by itself: how it goes on, what it makes of the pipe, and which side
it wakes. -/
def act (t : Thread) (p : Pipe) (m : Moment) : Option (Thread × Pipe × Option Side) :=
  match t.phase with
  | .entering => some ({ t with phase := .primed p.expiryMs }, p, none)
  | .primed expiryMs =>
    some (t.leave (p.sweepReply expiryMs m.now).1, (p.sweepReply expiryMs m.now).2, none)
  | .woken _ => some (t.after (p.visit m t.call).1, (p.visit m t.call).2, none)
  | .leaving (side :: owed) reply => some ({ t with phase := .leaving owed reply }, p, some side)
  | .leaving [] _ | .parked _ => none

/-- A thread when another one does something. -/
def hear (signal : Option Side) (t : Thread) : Thread :=
  match signal with
  | some side => t.wake side
  | none => t

theorem hear_none (t : Thread) : t.hear none = t := rfl

variable {t : Thread} {p q : Pipe} {m : Moment}

theorem act_of_woken {side : Side} (h : t.phase = .woken side) (p : Pipe) (m : Moment) :
    t.act p m = some (t.after (p.visit m t.call).1, (p.visit m t.call).2, none) := by
  simp only [act, h]

theorem act_of_signal {side : Side} {owed : List Side} {reply : Reply}
    (h : t.phase = .leaving (side :: owed) reply) (p : Pipe) (m : Moment) :
    t.act p m = some ({ t with phase := .leaving owed reply }, p, some side) := by
  simp only [act, h]

theorem bare_resume (t : Thread) (p : Pipe) : (t.resume p).bare = p.bare := by
  obtain ⟨party, call, phase⟩ := t
  cases phase with
  | woken side => cases side <;> rfl
  | _ => rfl

/-- A thread that looks at the pipe like any other call wants nothing but the lock. -/
theorem phase_bare_of_look {found : Option Reply × Pipe} (h : t.look p m = some found)
    (hp : ∀ expiryMs, t.phase ≠ .primed expiryMs) : ∃ side, t.bare.phase = .woken side := by
  obtain ⟨party, call, phase⟩ := t
  cases phase with
  | entering =>
      simp only [look] at h
      split at h
      · contradiction
      · next hl => exact ⟨call.side, if_neg hl⟩
  | primed expiryMs => exact absurd rfl (hp expiryMs)
  | woken side => exact ⟨side, rfl⟩
  | parked side => contradiction
  | leaving owed reply => contradiction

/-- A look that ends a call, seen bare. -/
theorem act_of_answer {reply : Reply} (hp : p.ring.WellFormed)
    (h : t.look p m = some (some reply, q)) :
    t.bare.act p.bare m = some ((t.leave reply).bare, q.bare, none) := by
  have hleave : t.bare.leave reply.bare = (t.leave reply).bare := by
    simp only [leave, bare, Reply.signals_bare]
  rcases look_cases h with ⟨hphase, hv⟩ | ⟨expiryMs, hphase, hs⟩
  · obtain ⟨side, hbare⟩ := phase_bare_of_look h fun e he => by
      rcases hphase with hphase | ⟨s, hphase⟩ <;> rw [hphase] at he <;> contradiction
    have hring : (t.resume p).ring.WellFormed := by rw [ring_resume]; exact hp
    obtain ⟨hreply, hpipe⟩ := Pipe.visit_bare hring m t.call
    rw [bare_resume, ← hv] at hreply hpipe
    obtain ⟨r, hr, hrb⟩ := Option.map_eq_some_iff.mp hreply
    have hvisit : p.bare.visit m t.bare.call = (some r, q.bare) := Prod.ext hr hpipe
    rw [act_of_woken hbare, hvisit]
    simp only [after, hrb, hleave]
  · rw [Prod.mk.injEq, Option.some.injEq] at hs
    obtain ⟨rfl, rfl⟩ := hs
    have hbare : t.bare.phase = .primed expiryMs := by simp only [bare, hphase]
    simp only [act, hbare]
    exact congrArg (fun u => some (u, _, none)) hleave

/-- A look that leaves its caller parked, seen bare. -/
theorem act_of_park (hp : p.ring.WellFormed) (h : t.look p m = some (none, q)) :
    t.bare.act p.bare m = some (t.park.bare, (q.enroll t.call.side).bare, none) := by
  have hpark : t.bare.park = t.park.bare := by
    simp only [park, bare, Call.side_bare]
  have henroll : (q.enroll t.call.side).bare = q.bare := by cases t.call.side <;> rfl
  rcases look_cases h with ⟨hphase, hv⟩ | ⟨expiryMs, hphase, hs⟩
  · obtain ⟨side, hbare⟩ := phase_bare_of_look h fun e he => by
      rcases hphase with hphase | ⟨s, hphase⟩ <;> rw [hphase] at he <;> contradiction
    have hring : (t.resume p).ring.WellFormed := by rw [ring_resume]; exact hp
    obtain ⟨hreply, hpipe⟩ := Pipe.visit_bare hring m t.call
    rw [bare_resume, ← hv] at hreply hpipe
    have hvisit : p.bare.visit m t.bare.call = (none, q.bare) :=
      Prod.ext (Option.map_eq_none_iff.mp hreply) hpipe
    rw [act_of_woken hbare, hvisit]
    simp only [after, hpark, henroll]
  · cases hs

end Thread

namespace Pool

/-- One bare thread acts. -/
inductive Turn (m : Moment) : Pool → Pool → Prop
  | act {p q : Pipe} {t u : Thread} (others : Multiset Thread) {signal : Option Side}
      (h : t.act p m = some (u, q, signal)) :
      Turn m ⟨p, t ::ₘ others⟩ ⟨q, u ::ₘ others.map (Thread.hear signal)⟩

theorem Turn.inv {m : Moment} {P Q : Pool} (h : Turn m P Q) :
    ∃ t others u q s, P = ⟨P.pipe, t ::ₘ others⟩ ∧ t.act P.pipe m = some (u, q, s) ∧
      Q = ⟨q, u ::ₘ others.map (Thread.hear s)⟩ := by
  cases h with
  | act others h => exact ⟨_, others, _, _, _, rfl, h, rfl⟩

/-- Without a signal the others stay as they are. -/
theorem map_hear_none (crowd : Multiset Thread) : crowd.map (Thread.hear none) = crowd :=
  Multiset.map_id' crowd

variable {m : Moment} {before after : Pool} {v : Option Visit}

/-- What a thread does by itself is an act when seen bare. -/
theorem turn_of_due (hs : before.Sound) (hd : Due m before v after) :
    Turn m before.bare after.bare := by
  have hring := hs.ring
  cases hd with
  | @load p t others hl =>
      have hphase : t.bare.phase = .entering := by
        simp only [Thread.bare, (Thread.loads_phase hl).2, hl, if_true]
      have hact : t.bare.act p.bare m =
          some (Thread.bare { t with phase := .primed p.expiryMs }, p.bare, none) := by
        simp only [Thread.act, hphase]; rfl
      have hturn := Turn.act (others.map Thread.bare) hact
      rw [map_hear_none] at hturn
      simpa only [bare, Multiset.map_cons] using hturn
  | @answer p q t others reply hl =>
      have hturn := Turn.act (others.map Thread.bare) (Thread.act_of_answer hring hl)
      rw [map_hear_none] at hturn
      simpa only [bare, Multiset.map_cons] using hturn
  | @park p q t others hl =>
      have hturn := Turn.act (others.map Thread.bare) (Thread.act_of_park hring hl)
      rw [map_hear_none] at hturn
      simpa only [bare, Multiset.map_cons] using hturn
  | @signal p t others side owed reply hphase =>
      have hbare : t.bare.phase = .leaving (side :: owed) reply.bare := by
        simp only [Thread.bare, hphase]
      have hact : t.bare.act p.bare m =
          some (Thread.bare { t with phase := .leaving owed reply }, p.bare, some side) := by
        simp only [Thread.act, hbare]; rfl
      have hturn := Turn.act (others.map Thread.bare) hact
      have hwake : (others.map Thread.bare).map (Thread.hear (some side)) =
          (others.map (Thread.wake side)).map Thread.bare := by
        rw [Multiset.map_map, Multiset.map_map]
        exact Multiset.map_congr rfl fun u _ => (Thread.bare_wake side u).symm
      rw [hwake] at hturn
      simpa only [bare, Multiset.map_cons] using hturn

end Pool

end MessagePipe
