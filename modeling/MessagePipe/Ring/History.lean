import MessagePipe.Op
import MessagePipe.Ring.Basic

/-!
# MessagePipe.Ring.History

Rings under sequences of operations.  The rings that can come up are those
that a sequence of operations leads to from a ring that was just set up
(`Ring.Reachable`).
-/

namespace MessagePipe.Ring

/-- One operation. -/
def step (r : Ring) : Op → Op.Reply × Ring
  | .push data owner stamp => let (result, r) := r.push data owner stamp; (.pushed result, r)
  | .pop reader out => let (result, out, r) := r.pop reader out; (.popped result out, r)
  | .sweep cutoff => let (removed, r) := r.sweep cutoff; (.swept removed, r)
  | .clear => let (removed, r) := r.clear; (.cleared removed, r)

/-- A sequence of operations, with all that they return. -/
def run (r : Ring) : List Op → List Op.Reply × Ring
  | [] => ([], r)
  | op :: ops =>
    let (reply, r) := r.step op
    let (replies, r) := r.run ops
    (reply :: replies, r)

/-- A ring of a given geometry that can come up, whatever its storage held before. -/
def Reachable (g : Geometry) (r : Ring) : Prop :=
  ∃ s first ops, (init g s).1 = .ok first ∧ (first.run ops).2 = r

end MessagePipe.Ring
