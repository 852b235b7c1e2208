import Mathlib.Data.List.TakeWhile
import MessagePipe.Proofs.Pipe.Custody

/-!
# MessagePipe.Proofs.Pipe.Expiry

Which messages a sweep removes.  A message has outlived the expiry if its stamp
and the expiry together, as plain numbers, are less than the clock reading
(`Message.outlived`); the cutoff of a sweep, which is computed in words and
stops at zero, says the same (`expired_cutoff`).

* `takeWhile_dropWhile_eq_filter` — as long as stamps do not decrease, the
  messages that have outlived the expiry are the first ones;
* `History.Steady.sent` — stamps do not decrease if no reading of the clock was
  less than an earlier one, whatever the threads do;
* `World.Reachable.step_primed` — what a sweep does that has read the expiry;
* `World.Reachable.sweep_exact` — a sweep removes the longest run of messages at
  the front that have outlived the expiry.
-/

namespace MessagePipe

/-! ## The age of a message -/

/-- Whether the message was stamped longer ago than the expiry. -/
def Message.outlived (expiryMs now : UInt64) (m : Message) : Bool :=
  decide (m.stamp.toNat + expiryMs.toNat < now.toNat)

theorem Message.outlived_iff {expiryMs now : UInt64} {m : Message} :
    m.outlived expiryMs now = true ↔ m.stamp.toNat + expiryMs.toNat < now.toNat := by
  simp [outlived]

/-- The cutoff divides messages as their age does, though it is never less than zero. -/
theorem expired_cutoff (expiryMs now : UInt64) :
    Queue.expired (Pipe.cutoff now expiryMs) = Message.outlived expiryMs now := by
  funext m
  rw [Queue.expired, Message.outlived, decide_eq_decide, UInt64.lt_iff_toNat_lt, Pipe.toNat_cutoff]
  omega

/-! ## Messages in the order of their stamps -/

/-- The stamps of the messages do not decrease. -/
def InStampOrder (messages : List Message) : Prop :=
  messages.Pairwise fun m m' => m.stamp ≤ m'.stamp

section

variable {α : Type} {p : α → Bool} {l : List α}

/-- If all that comes after an element that fails fails too, the elements that pass are the
first ones. -/
theorem takeWhile_dropWhile_eq_filter (h : l.Pairwise fun a b => p b = true → p a = true) :
    l.takeWhile p = l.filter p ∧ l.dropWhile p = l.filter fun a => !p a := by
  induction l with
  | nil => exact ⟨rfl, rfl⟩
  | cons a l ih =>
      obtain ⟨hfirst, hrest⟩ := List.pairwise_cons.mp h
      cases ha : p a
      · have hfails : ∀ b ∈ a :: l, ¬ p b = true := by
          intro b hb hpb
          rcases List.mem_cons.mp hb with rfl | hb
          · rw [ha] at hpb; contradiction
          · have hpa := hfirst b hb hpb
            rw [ha] at hpa; contradiction
        have ha' := hfails a List.mem_cons_self
        constructor
        · rw [List.takeWhile_cons_of_neg ha', List.filter_eq_nil_iff.mpr hfails]
        · rw [List.dropWhile_cons_of_neg ha', eq_comm, List.filter_eq_self]
          intro b hb
          rw [Bool.not_eq_true', Bool.eq_false_iff]
          exact hfails b hb
      · obtain ⟨htake, hdrop⟩ := ih hrest
        constructor
        · rw [List.takeWhile_cons_of_pos ha, List.filter_cons_of_pos ha, htake]
        · rw [List.dropWhile_cons_of_pos ha, List.filter_cons_of_neg (by simp [ha]), hdrop]

end

/-- Whoever is stamped no later than a message that has outlived the expiry has outlived it
too. -/
theorem InStampOrder.outlived {messages : List Message} (h : InStampOrder messages)
    (expiryMs now : UInt64) : messages.Pairwise fun m m' =>
      m'.outlived expiryMs now = true → m.outlived expiryMs now = true := by
  refine List.Pairwise.imp (fun {m m'} hle hold => ?_) h
  rw [UInt64.le_iff_toNat_le] at hle
  rw [Message.outlived_iff] at hold ⊢
  omega

/-! ## A clock that never steps back -/

/-- Whether the call read the clock: a send that put its message into the pipe, or a sweep. -/
def Visit.readsClock (v : Visit) : Bool :=
  match v.reply with
  | .sent (.ok _) | .swept _ _ => true
  | _ => false

/-- No reading of the clock was less than an earlier one. -/
def History.Steady (h : List Visit) : Prop :=
  ((h.filter Visit.readsClock).map Visit.now).Pairwise (· ≤ ·)

/-- Messages are stamped when they are put into the pipe, so they are sent in the order of their
stamps. -/
theorem History.Steady.sent {h : List Visit} (hs : Steady h) : InStampOrder (sent h) := by
  unfold Steady at hs
  rw [List.pairwise_map, List.pairwise_filter] at hs
  unfold InStampOrder History.sent
  rw [List.pairwise_filterMap]
  refine List.Pairwise.imp (fun {v v'} hle m hm m' hm' => ?_) hs
  obtain ⟨_, _, -, hreply, hnow⟩ := Visit.sent?_eq_some hm
  obtain ⟨_, _, -, hreply', hnow'⟩ := Visit.sent?_eq_some hm'
  rw [← hnow, ← hnow']
  exact hle (by rw [Visit.readsClock, hreply]) (by rw [Visit.readsClock, hreply'])

namespace World

variable {c : PipeConfig} {w w' : World}

/-! ## Sweeps -/

/-- Which messages a sweep leaves, and how many it reports, by their age. -/
theorem sweepReply_outlived {p : Pipe} (h : p.ring.WellFormed) (expiryMs now : UInt64) :
    (p.sweepReply expiryMs now).2.ring.toQueue.messages =
        p.ring.toQueue.messages.dropWhile (Message.outlived expiryMs now) ∧
      (p.sweepReply expiryMs now).1 =
        .swept (p.ring.toQueue.messages.takeWhile (Message.outlived expiryMs now)).length
          (Pipe.cutoff now expiryMs) := by
  have hqueue := Ring.toQueue_sweep h (Pipe.cutoff now expiryMs)
  rw [Queue.sweep, expired_cutoff, Prod.mk.injEq] at hqueue
  obtain ⟨hcount, hrest⟩ := hqueue
  exact ⟨(congrArg Queue.messages hrest).symm, congrArg (Reply.swept · _) hcount.symm⟩

/-- A thread that has read the expiry and gets the lock sweeps with it. -/
theorem Reachable.step_primed (h : w.Reachable c) {i : Nat} {t : Thread} {expiryMs : UInt64}
    (ht : w.threads[i]? = some t) (hp : t.phase = .primed expiryMs) (m : Moment) :
    ∃ w', w.step (.lock i m) = some w' ∧ w'.Reachable c ∧
      w'.queued = w.queued.dropWhile (Message.outlived expiryMs m.now) ∧
      w'.history = w.history ++ [⟨t.party, .sweep, m.now,
        .swept (w.queued.takeWhile (Message.outlived expiryMs m.now)).length
          (Pipe.cutoff m.now expiryMs)⟩] := by
  have hcall : t.call = .sweep := by
    have hconsistent := h.consistent ht
    simpa only [Thread.Consistent, hp] using hconsistent
  have hlook : t.look w.pipe m =
      some (some (w.pipe.sweepReply expiryMs m.now).1, (w.pipe.sweepReply expiryMs m.now).2) := by
    simp only [Thread.look, hp]
  obtain ⟨hrest, hreply⟩ := sweepReply_outlived h.sound.ring expiryMs m.now
  have hstep : w.step (.lock i m) = some (w.conclude i t m
      (some (w.pipe.sweepReply expiryMs m.now).1, (w.pipe.sweepReply expiryMs m.now).2)) := by
    simp only [step, ht, Option.bind_eq_bind, Option.bind_some, hlook]
  refine ⟨_, hstep, h.after_step hstep, hrest, ?_⟩
  show w.history ++ [⟨t.party, t.call, m.now, (w.pool.pipe.sweepReply expiryMs m.now).1⟩] = _
  rw [hcall, hreply]
  rfl

/-- A sweep under an expiry and at a clock reading, by what it removed. -/
structure SweptBy (expiryMs now : UInt64) (w w' : World) : Prop where
  /-- The messages that go are the longest run at the front that have outlived the expiry. -/
  split : ∃ gone, w.queued = gone ++ w'.queued ∧
    (∀ m ∈ gone, m.stamp.toNat + expiryMs.toNat < now.toNat) ∧
    (∀ m, w'.queued.head? = some m → now.toNat ≤ m.stamp.toNat + expiryMs.toNat) ∧
    ∃ party, w'.history = w.history ++
      [⟨party, .sweep, now, .swept gone.length (Pipe.cutoff now expiryMs)⟩]
  /-- A message that is not older than the expiry stays, and so does all that is behind it. -/
  young : ∀ k m, w.queued[k]? = some m → now.toNat ≤ m.stamp.toNat + expiryMs.toNat →
    w.queued.drop k <:+ w'.queued
  /-- As long as the clock has not come further than the expiry nothing goes. -/
  early : now ≤ expiryMs → w'.queued = w.queued
  /-- If the messages are in the order of their stamps, all go that have outlived the expiry, and
  the others stay in order. -/
  ordered : InStampOrder w.queued →
    w.queued = w.queued.filter (Message.outlived expiryMs now) ++ w'.queued ∧
      w'.queued = w.queued.filter fun m => !m.outlived expiryMs now
  /-- A second sweep under the same expiry and at the same reading removes nothing. -/
  again : ∀ j u (m : Moment), w'.threads[j]? = some u → u.phase = .primed expiryMs → m.now = now →
    ∃ w'', w'.step (.lock j m) = some w'' ∧ w''.queued = w'.queued ∧
      w''.history = w'.history ++
        [⟨u.party, .sweep, now, .swept 0 (Pipe.cutoff now expiryMs)⟩]

/-- **Exact expiry**: a sweep that read the expiry and then the clock removes the longest run of
messages at the front that have outlived the expiry. While no reading of the clock is less than
an earlier one, queued messages are in the order of their stamps, and a sweep then removes all
of those that have outlived it. -/
theorem Reachable.sweep_exact (h : w.Reachable c) :
    (History.Steady w.history → InStampOrder w.queued) ∧
      ∀ i t expiryMs m, w.threads[i]? = some t → t.phase = .primed expiryMs →
        ∃ w', w.step (.lock i m) = some w' ∧ SweptBy expiryMs m.now w w' := by
  refine ⟨fun hs => ?_, fun i t expiryMs m ht hp => ?_⟩
  · have hqueued := h.explained.replies.messages.2
    rw [Queue.empty, List.nil_append] at hqueued
    rw [show w.queued = _ from hqueued]
    exact hs.sent.drop
  obtain ⟨w', hstep, h', hrest, hhistory⟩ := h.step_primed ht hp m
  have hsplit := @List.takeWhile_append_dropWhile _ (Message.outlived expiryMs m.now) w.queued
  rw [← hrest] at hsplit
  refine ⟨w', hstep, ⟨_, hsplit.symm, fun x hx => ?_, fun x hx => ?_, _, hhistory⟩, ?_, ?_, ?_, ?_⟩
  · exact Message.outlived_iff.mp (List.mem_takeWhile_imp hx)
  · have hhead := List.head?_dropWhile_not (Message.outlived expiryMs m.now) w.queued
    rw [← hrest, hx] at hhead
    have hyoung := Bool.eq_false_iff.mp hhead
    rw [Ne, Message.outlived_iff] at hyoung
    omega
  · intro k x hx hyoung
    have hk : (w.queued.takeWhile (Message.outlived expiryMs m.now)).length ≤ k := by
      refine Nat.not_lt.mp fun hlt => ?_
      rw [← hsplit, List.getElem?_append_left hlt] at hx
      have hold := Message.outlived_iff.mp (List.mem_takeWhile_imp (List.mem_of_getElem? hx))
      omega
    rw [← hsplit, List.drop_append, List.drop_of_length_le hk, List.nil_append]
    exact List.drop_suffix _ _
  · intro hle
    rw [UInt64.le_iff_toNat_le] at hle
    rw [hrest, List.dropWhile_eq_self_iff]
    intro _ hold
    rw [Message.outlived_iff] at hold
    omega
  · intro hordered
    obtain ⟨hgone, hkept⟩ := takeWhile_dropWhile_eq_filter (hordered.outlived expiryMs m.now)
    exact ⟨by rw [← hgone, hsplit], hrest.trans hkept⟩
  · rintro j u m' hu hphase hnow
    obtain ⟨w'', hstep', -, hrest', hhistory'⟩ := h'.step_primed hu hphase m'
    have hsame : w'.queued.dropWhile (Message.outlived expiryMs m'.now) = w'.queued := by
      rw [hnow, hrest]
      exact List.dropWhile_eq_self_iff.mpr (List.dropWhile_get_zero_not _ w.queued)
    have hnone := @List.takeWhile_append_dropWhile _ (Message.outlived expiryMs m'.now) w'.queued
    rw [hsame, List.append_left_eq_self] at hnone
    rw [hnone, hnow] at hhistory'
    exact ⟨w'', hstep', hrest'.trans hsame, hhistory'⟩

/-- The clock jumps forward and back between three sends. The sweep removes the first message and
stops at the second, although the third has outlived the expiry as well. -/
theorem sweep_exact_stops :
    ∃ w w' : World, w.Reachable ⟨⟨3, 4⟩, .ofMillis 5⟩ ∧
      w.queued.map Message.stamp = [10, 30, 3] ∧ w.step (.lock 3 ⟨16, false⟩) = some w' ∧
      SweptBy 5 16 w w' ∧ w'.queued.map Message.stamp = [30, 3] := by
  have hreach : ∃ w w' : World, w.Reachable ⟨⟨3, 4⟩, .ofMillis 5⟩ ∧
      w.threads[3]?.map Thread.phase = some (.primed 5) ∧
      w.queued.map Message.stamp = [10, 30, 3] ∧ w.step (.lock 3 ⟨16, false⟩) = some w' ∧
      w'.queued.map Message.stamp = [30, 3] :=
    ⟨_, _, ⟨_, [.start none (.send ⟨1, 1⟩ [7] .never), .lock 0 ⟨10, false⟩,
      .start none (.send ⟨1, 1⟩ [8] .never), .lock 1 ⟨30, false⟩,
      .start none (.send ⟨1, 1⟩ [9] .never), .lock 2 ⟨3, false⟩,
      .start none .sweep, .load 3], rfl, rfl⟩, rfl, rfl, rfl, rfl⟩
  obtain ⟨w, w', hw, ht, hqueued, hstep, hleft⟩ := hreach
  obtain ⟨t, ht, hp⟩ := Option.map_eq_some_iff.mp ht
  obtain ⟨w₁, hstep₁, hswept⟩ := hw.sweep_exact.2 3 t 5 ⟨16, false⟩ ht hp
  rw [hstep, Option.some.injEq] at hstep₁
  subst hstep₁
  exact ⟨w, w', hw, hqueued, hstep, hswept, hleft⟩

end World

end MessagePipe
