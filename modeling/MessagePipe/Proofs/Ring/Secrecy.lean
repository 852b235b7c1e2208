import Mathlib.Data.List.Forall2
import MessagePipe.Proofs.Ring.Refinement

/-!
# MessagePipe.Proofs.Ring.Secrecy

What a ring tells an observer about messages that are not meant for it.  Two
sequences of operations are alike to an observer if they differ at most in the
bytes of what strangers write, that is, users of another id and another group
(`Op.Alike`).  Two rings are alike to it if they differ at most in bytes that
it may not read (`Ring.Alike`).

* `Alike.store` / `Alike.release` — writing and releasing a slot keep rings
  alike;
* `Alike.step` — so does every operation, and what it returns is the same in
  both rings, down to the buffer if it is a pop of the observer;
* `run_alike` — alike sequences therefore return the same to everybody, leave
  the same cursors and records, and fill the buffers of the observer alike.
-/

namespace MessagePipe

/-! ## What an observer can tell apart -/

/-- A writer whose messages the observer gets to see only if it is privileged. -/
def Credentials.Stranger (observer writer : Credentials) : Prop :=
  writer.uid ≠ observer.uid ∧ writer.gid ≠ observer.gid

/-- The same operation, or two pushes of a stranger that differ only in their bytes. -/
inductive Op.Alike (observer : Credentials) : Op → Op → Prop
  | same (op : Op) : Alike observer op op
  | hidden {data data' : Bytes} {writer : Credentials} {stamp : UInt64}
      (stranger : observer.Stranger writer) (length : data.length = data'.length) :
      Alike observer (.push data writer stamp) (.push data' writer stamp)

/-- What an operation returns, without what it left in the buffer of its caller. -/
def Op.Reply.returned : Op.Reply → Op.Reply
  | .popped result _ => .popped result []
  | reply => reply

/-- A user who is not privileged may not read what a stranger wrote. -/
theorem Credentials.Stranger.mayRead {observer writer : Credentials}
    (h : observer.Stranger writer) (ho : observer.uid ≠ 0) : observer.mayRead writer = false := by
  rw [Bool.eq_false_iff, Ne, Credentials.mayRead_iff, not_or, not_or]
  exact ⟨ho, fun hu => h.1 hu.symm, fun hg => h.2 hg.symm⟩

namespace Ring

/-- Two rings that differ at most in bytes that the observer may not read. -/
structure Alike (observer : Credentials) (r r' : Ring) : Prop where
  geometry : r.toGeometry = r'.toGeometry
  records : r.records = r'.records
  head : r.head = r'.head
  tail : r.tail = r'.tail
  /-- A message that the observer may read is the same in both. -/
  message : ∀ slot, (r.recordAt slot).valid = true →
    observer.mayRead (r.recordAt slot).owner = true → r.messageAt slot = r'.messageAt slot

namespace Alike

variable {observer : Credentials} {r r' : Ring}

/-! ## What is the same in rings that are alike -/

theorem capacity (h : Alike observer r r') : r.capacity = r'.capacity :=
  congrArg Geometry.capacity h.geometry

theorem dataSize (h : Alike observer r r') : r.dataSize = r'.dataSize :=
  congrArg Geometry.dataSize h.geometry

theorem recordAt (h : Alike observer r r') (slot : Nat) : r.recordAt slot = r'.recordAt slot := by
  unfold Ring.recordAt; rw [h.records]

theorem isEmpty (h : Alike observer r r') : r.isEmpty = r'.isEmpty := by
  unfold Ring.isEmpty; rw [h.tail, h.recordAt]

theorem isFull (h : Alike observer r r') : r.isFull = r'.isFull := by
  unfold Ring.isFull; rw [h.head, h.recordAt]

theorem state (h : Alike observer r r') : r.state = r'.state := by
  unfold Ring.state; rw [h.isFull, h.isEmpty]

theorem count (h : Alike observer r r') : r.count = r'.count := by
  unfold Ring.count; rw [h.records]

/-! ## One operation -/

/-- Two messages of the same length are written; if the observer may read them they are the
same. -/
theorem store {data data' : Bytes} {owner : Credentials} (h : Alike observer r r')
    (hw : r.WellFormed) (hw' : r'.WellFormed) (hd : data.length ≤ r.dataSize)
    (hlen : data.length = data'.length) (hsame : observer.mayRead owner = true → data = data')
    (stamp : UInt64) :
    Alike observer (r.store data owner stamp) (r'.store data' owner stamp) := by
  have hd' : data'.length ≤ r'.dataSize := by rw [← hlen, ← h.dataSize]; exact hd
  refine ⟨h.geometry, ?_, ?_, h.tail, fun slot hv hread => ?_⟩
  · simp only [Ring.store, h.records, h.head, hlen]
  · simp only [Ring.store, next, h.head, h.capacity]
  · by_cases hs : r.head = slot
    · subst hs
      rw [recordAt_store_self hw] at hread
      rw [messageAt_store_self hw hd, hsame hread, h.head, messageAt_store_self hw' hd']
    · have hs' : r'.head ≠ slot := h.head ▸ hs
      rw [recordAt_store_ne hs] at hv hread
      rw [messageAt_store_ne hw hd owner stamp hs hv,
        messageAt_store_ne hw' hd' owner stamp hs' (h.recordAt slot ▸ hv)]
      exact h.message slot hv hread

theorem release (h : Alike observer r r') : Alike observer r.release r'.release := by
  refine ⟨h.geometry, ?_, h.head, ?_, fun slot hvalid hread => ?_⟩
  · simp only [Ring.release, h.records, h.tail, h.recordAt]
  · simp only [Ring.release, next, h.tail, h.capacity]
  · by_cases hs : r.tail = slot
    · subst hs
      rw [recordAt_release_self] at hvalid
      contradiction
    · have hs' : r'.tail ≠ slot := h.tail ▸ hs
      rw [recordAt_release_ne hs] at hvalid hread
      rw [messageAt_release_ne hs, messageAt_release_ne hs']
      exact h.message slot hvalid hread

theorem push {data data' : Bytes} {owner : Credentials} (h : Alike observer r r')
    (hw : r.WellFormed) (hw' : r'.WellFormed) (hlen : data.length = data'.length)
    (hsame : observer.mayRead owner = true → data = data') (stamp : UInt64) :
    (r.push data owner stamp).1 = (r'.push data' owner stamp).1 ∧
      Alike observer (r.push data owner stamp).2 (r'.push data' owner stamp).2 := by
  unfold Ring.push
  rw [← h.dataSize, ← hlen, ← h.isFull]
  split
  · exact ⟨rfl, h⟩
  · next hd =>
      split
      · exact ⟨rfl, h⟩
      · exact ⟨rfl, h.store hw hw' (Nat.not_lt.mp hd) hlen hsame stamp⟩

/-- A pop returns the same to everybody, and to the observer in the same buffer. -/
theorem pop (h : Alike observer r r') (reader : Credentials) (out : Bytes) :
    (r.pop reader out).1 = (r'.pop reader out).1 ∧
      (reader = observer → (r.pop reader out).2.1 = (r'.pop reader out).2.1) ∧
      Alike observer (r.pop reader out).2.2 (r'.pop reader out).2.2 := by
  unfold Ring.pop
  dsimp only
  rw [← h.recordAt, ← h.tail]
  split
  · exact ⟨rfl, fun _ => rfl, h⟩
  next hv =>
  have hv : (r.recordAt r.tail).valid = true := by simpa using hv
  split
  · exact ⟨rfl, fun _ => rfl, h⟩
  next hread =>
  split
  · exact ⟨rfl, fun _ => rfl, h⟩
  refine ⟨rfl, fun hr => ?_, h.release⟩
  -- the bytes that are copied are those of a message that the observer may read
  subst hr
  have hm := h.message r.tail hv (by simpa [Record.readableBy] using hread)
  have hpayload := congrArg Message.payload hm
  simp only [messageAt, ← h.recordAt] at hpayload
  exact congrArg (out.patch 0) hpayload

theorem sweepUpTo (h : Alike observer r r') (cutoff : UInt64) (budget : Nat) :
    (Ring.sweepUpTo cutoff budget r).1 = (Ring.sweepUpTo cutoff budget r').1 ∧
      Alike observer (Ring.sweepUpTo cutoff budget r).2 (Ring.sweepUpTo cutoff budget r').2 := by
  induction budget generalizing r r' with
  | zero => exact ⟨rfl, h⟩
  | succ budget ih =>
      unfold Ring.sweepUpTo
      rw [← h.recordAt, ← h.tail]
      split
      · next he =>
          obtain ⟨hcount, hrest⟩ := ih h.release
          exact ⟨congrArg (· + 1) hcount, hrest⟩
      · exact ⟨rfl, h⟩

/-- Rings over storage that was wiped hold nothing to tell them apart. -/
theorem wiped {g : Geometry} {s s' : Storage} (hr : s.records.length = s'.records.length) :
    Alike observer (Ring.wiped g s) (Ring.wiped g s') := by
  refine ⟨rfl, ?_, rfl, rfl, fun slot hv => ?_⟩
  · simp only [Ring.wiped, Storage.cleared, hr]
  · rw [valid_wiped] at hv
    contradiction

theorem clear (h : Alike observer r r') : Alike observer r.clear.2 r'.clear.2 := by
  have hw : Alike observer (Ring.wiped r.toGeometry r.toStorage)
      (Ring.wiped r.toGeometry r'.toStorage) := wiped (by rw [h.records])
  have hr' : r'.clear.2 = Ring.wiped r.toGeometry r'.toStorage := by
    rw [h.geometry]; rfl
  rw [hr']
  exact hw

/-- Operations that are alike keep rings alike. They return the same, and a pop of the observer
leaves the same in its buffer. -/
theorem step {op op' : Op} (h : Alike observer r r') (hw : r.WellFormed) (hw' : r'.WellFormed)
    (ho : observer.uid ≠ 0) (hop : Op.Alike observer op op') :
    (r.step op).1.returned = (r'.step op').1.returned ∧
      (∀ out, op = .pop observer out → (r.step op).1 = (r'.step op').1) ∧
      Alike observer (r.step op).2 (r'.step op').2 := by
  cases hop with
  | @hidden data data' writer stamp stranger length =>
      have hsame : observer.mayRead writer = true → data = data' := by
        intro hread
        rw [stranger.mayRead ho] at hread
        contradiction
      obtain ⟨hresult, hring⟩ := h.push hw hw' length hsame stamp
      exact ⟨congrArg Op.Reply.pushed hresult, fun out hp => by contradiction, hring⟩
  | same =>
      cases op with
      | push data owner stamp =>
          obtain ⟨hresult, hring⟩ := h.push hw hw' rfl (fun _ => rfl) stamp
          exact ⟨congrArg Op.Reply.pushed hresult, fun out hp => by contradiction, hring⟩
      | pop reader out =>
          obtain ⟨hresult, hout, hring⟩ := h.pop reader out
          refine ⟨congrArg (Op.Reply.popped · []) hresult, fun out' hp => ?_, hring⟩
          obtain ⟨rfl, rfl⟩ := Op.pop.inj hp
          simp only [Ring.step, hresult, hout rfl]
      | sweep cutoff =>
          obtain ⟨hcount, hring⟩ := h.sweepUpTo cutoff r.capacity
          have hs : r'.sweep cutoff = Ring.sweepUpTo cutoff r.capacity r' := by
            rw [h.capacity]; rfl
          simp only [Ring.step, hs]
          exact ⟨congrArg Op.Reply.swept hcount, fun out hp => by contradiction, hring⟩
      | clear =>
          exact ⟨congrArg Op.Reply.cleared h.count, fun out hp => by contradiction, h.clear⟩

/-! ## Sequences of operations -/

/-- So do sequences of operations that are alike. -/
theorem run {ops ops' : List Op} (h : Alike observer r r') (hw : r.WellFormed)
    (hw' : r'.WellFormed) (ho : observer.uid ≠ 0)
    (hops : List.Forall₂ (Op.Alike observer) ops ops') :
    (r.run ops).1.map Op.Reply.returned = (r'.run ops').1.map Op.Reply.returned ∧
      (∀ (i : Nat) (out : Bytes), ops[i]? = some (.pop observer out) →
        (r.run ops).1[i]? = (r'.run ops').1[i]?) ∧
      Alike observer (r.run ops).2 (r'.run ops').2 := by
  induction hops generalizing r r' with
  | nil => exact ⟨rfl, fun i out _ => rfl, h⟩
  | @cons op op' ops ops' hop _ ih =>
      obtain ⟨hreturned, hseen, hnext⟩ := h.step hw hw' ho hop
      obtain ⟨hrest, hrests, hring⟩ := ih hnext (hw.step op) (hw'.step op')
      refine ⟨?_, fun i out hi => ?_, hring⟩
      · simp only [Ring.run, List.map_cons, hreturned, hrest]
      · cases i with
        | zero =>
            have hop := hseen out (Option.some.inj hi)
            simp only [Ring.run, List.getElem?_cons_zero, hop]
        | succ i =>
            simp only [Ring.run, List.getElem?_cons_succ]
            exact hrests i out hi

end Alike

/-- **Secrecy**: two sequences of operations that differ only in what strangers wrote, and not
in how long it was, cannot be told apart by an observer who is not privileged. Everybody is
returned the same, the cursors and records are the same after each operation, and so is the
whole buffer of each pop of the observer. -/
theorem run_alike {observer : Credentials} (ho : observer.uid ≠ 0) {g : Geometry} {s s' : Storage}
    {first first' : Ring} (h : (init g s).1 = .ok first) (h' : (init g s').1 = .ok first')
    {ops ops' : List Op} (hops : List.Forall₂ (Op.Alike observer) ops ops') :
    (first.run ops).1.map Op.Reply.returned = (first'.run ops').1.map Op.Reply.returned ∧
      (∀ (i : Nat) (out : Bytes), ops[i]? = some (.pop observer out) →
        (first.run ops).1[i]? = (first'.run ops').1[i]?) ∧
      ∀ n, let r := (first.run (ops.take n)).2
        let r' := (first'.run (ops'.take n)).2
        r.head = r'.head ∧ r.tail = r'.tail ∧ r.records = r'.records ∧ r.count = r'.count ∧
          r.state = r'.state := by
  have hw := wellFormed_init h
  have hw' := wellFormed_init h'
  obtain ⟨rfl, -, -, -, hr⟩ := init_eq_ok h
  obtain ⟨rfl, -, -, -, hr'⟩ := init_eq_ok h'
  have halike : Alike observer (wiped g s) (wiped g s') := .wiped (hr.trans hr'.symm)
  obtain ⟨hreturned, hseen, -⟩ := halike.run hw hw' ho hops
  refine ⟨hreturned, hseen, fun n => ?_⟩
  obtain ⟨-, -, hring⟩ := halike.run hw hw' ho (List.forall₂_take n hops)
  exact ⟨hring.head, hring.tail, hring.records, hring.count, hring.state⟩

/-- The one slot holds a stranger's message before it holds a shorter one for the observer. The
observer is denied the first and reads the second into a buffer that is longer. -/
theorem run_alike_reused_slot :
    let observer : Credentials := ⟨5, 6⟩
    let ops (secret : Bytes) : List Op :=
      [.push secret ⟨7, 8⟩ 10, .pop observer [9, 9, 9, 9], .pop ⟨0, 0⟩ [0, 0, 0, 0],
        .push [1] ⟨5, 8⟩ 20, .pop observer [9, 9, 9, 9]]
    ∃ first, (init ⟨1, 4⟩ (.fresh ⟨1, 4⟩ 4)).1 = .ok first ∧
      (first.run (ops [2, 3, 4])).1[4]? = (first.run (ops [7, 7, 7])).1[4]? ∧
      (first.run (ops [2, 3, 4])).1[4]? = some (.popped (.ok 1) [1, 9, 9, 9]) := by
  intro observer ops
  have halike : List.Forall₂ (Op.Alike observer) (ops [2, 3, 4]) (ops [7, 7, 7]) :=
    .cons (.hidden ⟨by decide, by decide⟩ rfl) (.cons (.same _) (.cons (.same _)
      (.cons (.same _) (.cons (.same _) .nil))))
  obtain ⟨-, hseen, -⟩ := run_alike (show observer.uid ≠ 0 by decide)
    (show (init ⟨1, 4⟩ (.fresh ⟨1, 4⟩ 4)).1 = .ok _ from rfl)
    (show (init ⟨1, 4⟩ (.fresh ⟨1, 4⟩ 4)).1 = .ok _ from rfl) halike
  exact ⟨_, rfl, hseen 4 [9, 9, 9, 9] rfl, rfl⟩

end Ring

end MessagePipe
