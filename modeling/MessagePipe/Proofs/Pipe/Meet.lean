import MessagePipe.Proofs.Newman
import MessagePipe.Proofs.Pipe.Commute
import MessagePipe.Proofs.Pipe.Turn

/-!
# MessagePipe.Proofs.Pipe.Meet

Two bare threads that could both act now.  If those who wait on one side are
all alike, it does not matter in the end who is first (`Uniform.join`):

* two threads that are alike do the same;
* a signal meets nobody, but for a caller who parks just before it: that one is
  woken again, and is then where it would be had the signal come first;
* a sender and a receiver do not meet either, or one of them parks and the
  other goes on to wake it.
-/

namespace MessagePipe.Pool

open Relation

variable {m : Moment} {p q q' : Pipe} {t t' u u' : Thread} {s s' : Option Side}
  {others : Multiset Thread}

/-- The acts of two threads can be brought together again. -/
def Meet (m : Moment) (p : Pipe) (t t' : Thread) (others : Multiset Thread) : Prop :=
  ∀ u u' q q' s s', t.act p m = some (u, q, s) → t'.act p m = some (u', q', s') →
    Join (ReflTransGen (Turn m)) ⟨q, u ::ₘ (t' ::ₘ others).map (Thread.hear s)⟩
      ⟨q', u' ::ₘ (t ::ₘ others).map (Thread.hear s')⟩

theorem Meet.symm (h : Meet m p t t' others) : Meet m p t' t others := by
  intro u u' q q' s s' ht' ht
  obtain ⟨d, hd, hd'⟩ := h _ _ _ _ _ _ ht ht'
  exact ⟨d, hd', hd⟩

/-- The other thread acts after a first one has. -/
theorem turn_after (u : Thread) (s : Option Side) (others : Multiset Thread)
    {found : Thread × Pipe × Option Side} (hfirst : t'.act p m = some found)
    (h : t'.act q m = some (u', q', s')) :
    Turn m ⟨q, u ::ₘ (t' ::ₘ others).map (Thread.hear s)⟩
      ⟨q', u' ::ₘ u.hear s' ::ₘ (others.map (Thread.hear s)).map (Thread.hear s')⟩ := by
  have hturn := Turn.act (u ::ₘ others.map (Thread.hear s)) h
  rw [Multiset.map_cons, Multiset.cons_swap] at hturn
  rw [Multiset.map_cons, Thread.hear_of_act hfirst]
  exact hturn

/-- Two acts that do not meet. -/
theorem join_of_comm {r : Pipe} (h : t.act p m = some (u, q, s))
    (h' : t'.act p m = some (u', q', s'))
    (hr : t.act q' m = some (u.hear s', r, s)) (hr' : t'.act q m = some (u'.hear s, r, s')) :
    Join (ReflTransGen (Turn m)) ⟨q, u ::ₘ (t' ::ₘ others).map (Thread.hear s)⟩
      ⟨q', u' ::ₘ (t ::ₘ others).map (Thread.hear s')⟩ := by
  have hb := turn_after u s others h' hr'
  have hc := turn_after u' s' others h hr
  have hcomm : (others.map (Thread.hear s)).map (Thread.hear s') =
      (others.map (Thread.hear s')).map (Thread.hear s) := by
    rw [Multiset.map_map, Multiset.map_map]
    exact Multiset.map_congr rfl fun x _ => Thread.hear_comm x s s'
  rw [hcomm, Multiset.cons_swap] at hb
  exact ⟨_, .single hb, .single hc⟩

/-! ## Signals -/

/-- A caller that parks is woken again by a signal for its side, and by no other. -/
theorem hear_park (hp : t.phase = .woken t.call.side) (side : Side) :
    t.park.hear (some side) = if side = t.call.side then t else t.park := by
  obtain ⟨party, call, phase⟩ := t
  dsimp only at hp
  subst hp
  by_cases hs : side = call.side
  · subst hs
    simp [Thread.hear, Thread.wake, Thread.park]
  · have hs' : ¬ call.side = side := fun he => hs he.symm
    simp [Thread.hear, Thread.wake, Thread.park, hs, hs']

/-- A thread that is decided gives signals, whatever another thread does. -/
theorem meet_decided (ht : t.Decided) (ht' : t'.Blocking ∨ t'.Decided) : Meet m p t t' others := by
  intro u u' q q' s s' h h'
  obtain ⟨side, rfl, rfl, hact⟩ := ht.act_eq h
  cases Thread.act_cases h' with
  | load hp | sweep hp =>
      rcases ht' with hb | ⟨_, _, hd⟩
      · rw [hb.woken h'] at hp; contradiction
      · rw [hd] at hp; contradiction
  | answer hp hv => exact join_of_comm (hact p) h' (hact q') h'
  | signal hp =>
      have hback := hact p
      rw [← (ht.act h).hear] at hback
      exact join_of_comm (hact p) h' hback h'
  | park hp hv =>
      have hwoken : t'.phase = .woken t'.call.side := by
        rcases ht' with hb | ⟨_, _, hd⟩
        · exact hb.woken h'
        · rw [hd] at hp; contradiction
      have hhear := hear_park hwoken side
      split at hhear
      · -- the one who parked first is woken
        have hc := turn_after t'.park none others (hact p) (hact p)
        rw [hhear] at hc
        rw [Multiset.map_cons, Thread.hear_of_act h']
        simp only [map_hear_none] at hc ⊢
        exact ⟨_, .refl, .single hc⟩
      · refine join_of_comm (hact p) h' (hact p) ?_
        rw [hhear]
        exact h'

/-! ## Callers -/

/-- One parks, and the other goes on to wake it. -/
theorem meet_handover {reply : Reply} (hp : t.phase = .woken t.call.side)
    (h : t.act p m = some (t.park, p, none)) (h' : t'.act p m = some (t'.leave reply, q, none))
    (hr : reply.signals = [t.call.side]) :
    Join (ReflTransGen (Turn m)) ⟨p, t.park ::ₘ (t' ::ₘ others).map (Thread.hear none)⟩
      ⟨q, t'.leave reply ::ₘ (t ::ₘ others).map (Thread.hear none)⟩ := by
  have hphase : (t'.leave reply).phase = .leaving (t.call.side :: []) reply := by
    rw [← hr]; rfl
  have hsignal := Thread.act_of_signal hphase q m
  have hb := turn_after t.park none others h' h'
  have hb' := Turn.act (t.park ::ₘ others) hsignal
  have hc := Turn.act (t ::ₘ others) hsignal
  rw [Multiset.map_cons, hear_park hp, if_pos rfl] at hb'
  rw [Multiset.map_cons, Thread.hear_of_act h] at hc
  simp only [map_hear_none, Thread.hear_none] at hb ⊢
  exact ⟨_, .tail (.single hb) hb', .single hc⟩

theorem refusal_of_patient {wait : Wait} (h : wait ≠ .never) : wait.refusal false = none := by
  cases wait <;> first | rfl | contradiction

/-- A sender and a receiver, both ready to wait. -/
theorem meet_send_recv (hring : p.ring.WellFormed) (hm : m.late = false) (ht : t.Blocking)
    (ht' : t'.Blocking) {sender reader : Credentials} {data out : Bytes} {wait wait' : Wait}
    (hs : t.call = .send sender data wait) (hr : t'.call = .recv reader out wait') :
    Meet m p t t' others := by
  intro u u' q q' s s' h h'
  have hw := ht.woken h
  have hw' := ht'.woken h'
  have hwait : wait.refusal m.late = none := by
    have hn := ht.1
    rw [hs] at hn
    rw [hm]
    exact refusal_of_patient hn
  have hwait' : wait'.refusal m.late = none := by
    have hn := ht'.1
    rw [hr] at hn
    rw [hm]
    exact refusal_of_patient hn
  have hmeet := @Pipe.visit_send_recv p m sender reader data out hring wait wait' hwait hwait'
  simp only [← hs, ← hr] at hmeet
  rw [Thread.act_of_woken hw] at h
  rw [Thread.act_of_woken hw'] at h'
  simp only [Option.some.injEq, Prod.mk.injEq] at h h'
  obtain ⟨rfl, rfl, rfl⟩ := h
  obtain ⟨rfl, rfl, rfl⟩ := h'
  rcases hmeet with ⟨r, hts, htr⟩ | ⟨hn, reply, hreply, hsignals⟩ | ⟨hn, reply, hreply, hsignals⟩
  · have hback : t.act (p.visit m t'.call).2 m = some (t.after (p.visit m t.call).1, r, none) := by
      rw [Thread.act_of_woken hw, hts]
    have hback' : t'.act (p.visit m t.call).2 m =
        some (t'.after (p.visit m t'.call).1, r, none) := by
      rw [Thread.act_of_woken hw', htr]
    exact join_of_comm (Thread.act_of_woken hw p m) (Thread.act_of_woken hw' p m) hback hback'
  · have hq := (Pipe.visit_eq_none hn).1
    have hact := Thread.act_of_woken hw p m
    have hact' := Thread.act_of_woken hw' p m
    rw [hn, hq] at hact ⊢
    rw [hreply] at hact' ⊢
    exact meet_handover hw hact hact' (by rw [Reply.signals_bare, hsignals, hs]; rfl)
  · have hq := (Pipe.visit_eq_none hn).1
    have hact := Thread.act_of_woken hw p m
    have hact' := Thread.act_of_woken hw' p m
    rw [hn, hq] at hact' ⊢
    rw [hreply] at hact ⊢
    obtain ⟨d, hd, hd'⟩ := @meet_handover m p _ t' t others _ hw' hact' hact
      (by rw [Reply.signals_bare, hsignals, hr]; rfl)
    exact ⟨d, hd', hd⟩

/-! ## Whatever meets -/

theorem call_of_writable {call : Call} (h : call.side = .writable) :
    ∃ sender data wait, call = .send sender data wait := by
  cases call with
  | send sender data wait => exact ⟨sender, data, wait, rfl⟩
  | _ => contradiction

theorem call_of_readable {call : Call} (h : call.side = .readable) (hw : call.wait ≠ .never) :
    ∃ reader out wait, call = .recv reader out wait := by
  cases call with
  | recv reader out wait => exact ⟨reader, out, wait, rfl⟩
  | send sender data wait => contradiction
  | _ => exact absurd rfl hw

/-- Any two callers of groups. -/
theorem meet_blocking (hring : p.ring.WellFormed) (hm : m.late = false) (ht : t.Blocking)
    (ht' : t'.Blocking) (hne : t.call.side ≠ t'.call.side) : Meet m p t t' others := by
  cases hside : t.call.side with
  | writable =>
      have hside' : t'.call.side = .readable := by
        cases h : t'.call.side with
        | readable => rfl
        | writable => exact absurd (hside.trans h.symm) hne
      obtain ⟨sender, data, wait, hs⟩ := call_of_writable hside
      obtain ⟨reader, out, wait', hr⟩ := call_of_readable hside' ht'.1
      exact meet_send_recv hring hm ht ht' hs hr
  | readable =>
      have hside' : t'.call.side = .writable := by
        cases h : t'.call.side with
        | readable => exact absurd (hside.trans h.symm) hne
        | writable => rfl
      obtain ⟨reader, out, wait, hr⟩ := call_of_readable hside ht.1
      obtain ⟨sender, data, wait', hs⟩ := call_of_writable hside'
      exact (meet_send_recv hring hm ht' ht hs hr).symm

/-- Two different threads among groups. -/
theorem Uniform.meet (hu : Uniform ⟨p, t ::ₘ t' ::ₘ others⟩) (hm : m.late = false) (hne : t ≠ t') :
    Meet m p t t' others := by
  intro u u' q q' s s' h h'
  have hmem : t ∈ t ::ₘ t' ::ₘ others := Multiset.mem_cons_self _ _
  have hmem' : t' ∈ t ::ₘ t' ::ₘ others :=
    Multiset.mem_cons_of_mem (Multiset.mem_cons_self _ _)
  cases hu.members t hmem with
  | inl hb =>
      cases hu.members t' hmem' with
      | inl hb' =>
          refine meet_blocking hu.ring hm hb hb' (fun hside => hne ?_) _ _ _ _ _ _ h h'
          -- on one side all are alike
          obtain ⟨hparty, hcall⟩ := hu.alike t hmem t' hmem' hb hb' hside
          have hw := hb.woken h
          have hw' := hb'.woken h'
          rw [← hcall] at hw'
          obtain ⟨party, call, phase⟩ := t
          obtain ⟨party', call', phase'⟩ := t'
          simp only at hparty hcall hw hw'
          rw [hparty, hcall, hw, hw', hcall]
      | inr hd' =>
          exact (meet_decided hd' (.inl hb)).symm _ _ _ _ _ _ h h'
  | inr hd =>
      exact meet_decided hd (hu.members t' hmem') _ _ _ _ _ _ h h'

variable {P Q Q' : Pool}

/-- Any two acts among groups can be brought together again. -/
theorem Uniform.join (hu : P.Uniform) (hm : m.late = false) (h : Turn m P Q) (h' : Turn m P Q') :
    Join (ReflTransGen (Turn m)) Q Q' := by
  obtain ⟨t, others, u, q, s, hP, hact, rfl⟩ := h.inv
  obtain ⟨t', others', u', q', s', hP', hact', rfl⟩ := h'.inv
  have hcrowd := congrArg Pool.crowd (hP.symm.trans hP')
  rcases Multiset.cons_eq_cons.mp hcrowd with ⟨rfl, rfl⟩ | ⟨hne, rest, rfl, rfl⟩
  · rw [hact] at hact'
    simp only [Option.some.injEq, Prod.mk.injEq] at hact'
    obtain ⟨rfl, rfl, rfl⟩ := hact'
    exact ⟨_, .refl, .refl⟩
  · rw [hP] at hu
    exact hu.meet hm hne _ _ _ _ _ _ hact hact'

/-- Where one is alone at work, there is one act only. -/
theorem Solo.join (hs : P.Solo) (h : Turn m P Q) (h' : Turn m P Q') : Q = Q' := by
  obtain ⟨t, others, u, q, hP, -, -, hrest, hact, rfl⟩ := hs.inv h
  obtain ⟨t', others', u', q', hP', -, -, -, hact', rfl⟩ := hs.inv h'
  have hcrowd := congrArg Pool.crowd (hP.symm.trans hP')
  rcases Multiset.cons_eq_cons.mp hcrowd with ⟨rfl, rfl⟩ | ⟨-, rest, rfl, -⟩
  · rw [hact] at hact'
    simp only [Option.some.injEq, Prod.mk.injEq] at hact'
    obtain ⟨rfl, rfl, -⟩ := hact'
    rfl
  · exact absurd (hrest t' (Multiset.mem_cons_self t' rest)) (Thread.not_rests_of_act hact')

/-- Whatever order bare threads act in, they come to rest in one way only. -/
theorem turn_rest_unique (hP : P.Uniform ∨ P.Solo) (hm : m.late = false)
    (h : ReflTransGen (Turn m) P Q) (h' : ReflTransGen (Turn m) P Q')
    (hQ : ∀ R, ¬ Turn m Q R) (hQ' : ∀ R, ¬ Turn m Q' R) : Q = Q' := by
  refine @rest_unique Pool (Turn m) (fun P => P.Uniform ∨ P.Solo) P Q Q' ?_ ?_
    (acc_turn m P) hP h h'
    hQ hQ'
  · rintro P Q (hu | hs) hturn
    · exact .inl (hu.turn hturn)
    · exact hs.turn hturn
  · rintro P Q R (hu | hs) hturn hturn'
    · exact hu.join hm hturn hturn'
    · rw [hs.join hturn hturn']
      exact ⟨_, .refl, .refl⟩

end MessagePipe.Pool
