import MessagePipe.Pipe.Settle
import MessagePipe.Pipe.Stats

/-!
# MessagePipe.Walkthrough

A tour of the library in five short programs, as the transcript that they
print: a ring over lent storage, who may read what, a writer that outruns its
pipe, messages that expire, and the privileged controls.

The tour stops at the first call that does not go as told.
-/

namespace MessagePipe.Walkthrough

/-- A writer, a stranger to her, and a member of her group. -/
def alice : Credentials := ⟨1000, 100⟩

def bob : Credentials := ⟨1001, 200⟩

def carol : Credentials := ⟨1002, 100⟩

/-- The message that a receive left at the front of a buffer. -/
def words (out : Bytes) (n : Nat) : String := (Bytes.toText? (out.take n)).getD ""

/-- Pushes texts one after the other, stamped with their place. -/
def pushAll (r : Ring) (stamp : Nat) : List String → Except RingError Ring
  | [] => .ok r
  | w :: ws =>
    match r.push (Bytes.ofText w) alice (UInt64.ofNat stamp) with
    | (.ok _, r) => pushAll r (stamp + 1) ws
    | (.error e, _) => .error e

def lentRing : Except PipeError (List String) :=
  Except.mapError PipeError.ring do
    let g : Geometry := ⟨4, 32⟩
    let r ← (Ring.init g (Storage.fresh g 128)).1
    let r ← pushAll r 0 ["alpha", "beta", "gamma", "delta"]
    let fifth ←
      match (r.push (Bytes.ofText "epsilon") alice 4).1 with
      | .error .bufferFull => pure "  Fifth push rejected: ring full (no overwrite)"
      | .error e => throw e
      | .ok n => pure s!"  Unexpected: {n} bytes were written"
    let (result, out, after) := r.pop alice (Bytes.zeros 32)
    let n ← result
    return ["--- Demo 1: Borrowed Ring ---",
      s!"  Pushed 4 messages, state = {r.state.text}",
      fifth,
      s!"  Popped: {words out n}",
      s!"  Remaining: {after.count}",
      "  ✓ Borrowed ring complete",
      ""]

def accessControl : Except PipeError (List String) := do
  let p ← Pipe.create ⟨⟨4, 64⟩, defaultExpiry⟩
  let (sent, p) := p.trySend alice (Bytes.ofText "for alice's group") 0
  let _ ← sent
  let (refused, out, p) := p.tryRecv bob (Bytes.zeros 64)
  let stranger ←
    match refused with
    | .error (.ring .accessDenied) =>
      pure "  Bob (other uid and gid) denied, message stays queued"
    | .error e => throw e
    | .ok n => pure s!"  Unexpected: {n} bytes were read"
  let (result, out, _) := p.tryRecv carol out
  let n ← result
  return ["--- Demo 2: Access Control ---",
    stranger,
    s!"  Carol (same gid) read: {words out n}",
    "  ✓ Access control complete",
    ""]

/-! ## A writer that outruns its pipe -/

/-- A thread makes a call, and everybody comes to rest. -/
def perform (w : World) (call : Call) : World :=
  match w.step (.start none call) with
  | some w => w.settle ⟨0, false⟩
  | none => w

/-- Messages that receives returned. -/
def delivered (w : World) : List String :=
  w.results.filterMap fun
    | (_, .received (.ok n) out) => some (words out n)
    | _ => none

/-- A reader takes one message, or none if the pipe is closed and has none left. -/
def takeOne (w : World) : List String × World :=
  let w := perform w (.recv alice w.pipe.freshBuffer .forever)
  (delivered w, w.dismiss)

/-- The writer sends its messages; whenever it has to wait, the reader takes one. -/
def relay (w : World) : List String → List String × World
  | [] => ([], w)
  | m :: ms =>
    let w := (perform w (.send alice (Bytes.ofText m) .forever)).dismiss
    let (taken, w) := if w.threads.isEmpty then ([], w) else takeOne w
    let (later, w) := relay w ms
    (taken ++ later, w)

/-- The reader takes up to `n` messages. -/
def takeAll (w : World) : Nat → List String
  | 0 => []
  | n + 1 => let (taken, w) := takeOne w; taken ++ takeAll w n

def blockingThreads : Except PipeError (List String) := do
  let p ← Pipe.create ⟨⟨2, 32⟩, defaultExpiry⟩
  let sent := (List.range 6).map fun i => s!"msg-{i}"
  let (first, w) := relay (World.ofPipe p) sent
  let received := first ++ takeAll (perform w .close).dismiss sent.length
  return ["--- Demo 3: Blocking Readers and Writers ---"] ++
    received.map (fun m => s!"  Received: {m}") ++
    [s!"  {received.length} messages through a 2-slot pipe",
     "  ✓ Blocking complete",
     ""]

/-! ## Expiry and control -/

/-- Sends a message at each of the given times, which tells that time. -/
def sendAt (p : Pipe) : List Nat → Except PipeError Pipe
  | [] => .ok p
  | t :: ts =>
    match p.trySend alice (Bytes.ofText s!"t={t}") (UInt64.ofNat t) with
    | (.ok _, p) => sendAt p ts
    | (.error e, _) => .error e

def expiry : Except PipeError (List String) := do
  let p ← Pipe.create ⟨⟨8, 32⟩, .ofMillis 100⟩
  let p ← sendAt p [0, 40, 80, 120]
  let (removed, p) := p.sweep 170
  return ["--- Demo 4: Message Expiry ---",
    "  Queued 4 messages at t=0,40,80,120",
    s!"  At t=170 (cutoff {Pipe.cutoff 170 100}): expired {removed}, {p.ring.count} left",
    "  ✓ Expiry complete",
    ""]

def controlOperations : Except PipeError (List String) := do
  let p ← Pipe.create .default
  let (sent, p) := p.trySend alice (Bytes.ofText "one") 0
  let _ ← sent
  let (sent, p) := p.trySend bob (Bytes.ofText "two") 0
  let _ ← sent
  let (refused, p) := p.clear alice
  let rejection :=
    match refused with
    | .error e => [s!"  Unprivileged clear rejected: {e.message}"]
    | .ok _ => []
  let (set, p) := p.setExpiry .root (.ofMillis 30000)
  set
  let (cleared, _) := p.clear .root
  let n ← cleared
  return ["--- Demo 5: Control Operations ---"] ++ rejection ++
    [p.stats.lines ++ s!"  Root cleared {n} messages",
     "  ✓ Control operations complete"]

/-! ## The tour -/

/-- The whole transcript. -/
def transcript : Except PipeError String := do
  let parts := [← lentRing, ← accessControl, ← blockingThreads, ← expiry, ← controlOperations]
  let lines := ["=== kmsgpipe Demo ===", ""] ++ parts.flatten ++
    ["", "=== All demos completed successfully! ==="]
  return String.join (lines.map (· ++ "\n"))

end MessagePipe.Walkthrough
