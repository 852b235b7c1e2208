import Mathlib.Logic.Relation

/-!
# MessagePipe.Proofs.Newman

Where a relation leads to that comes to an end, if any two steps from one place
can be brought together again.  Both is asked only of a class `P` that the
relation does not leave.  This is Newman's lemma (`joined`); it gives that there
is only one end (`rest_unique`).
-/

namespace MessagePipe

open Relation

variable {α : Type} {r : α → α → Prop} {P : α → Prop} {a b c : α}

/-- Nothing is reached from an end but itself. -/
theorem eq_of_rest (ha : ∀ x, ¬ r a x) (hab : ReflTransGen r a b) : a = b := by
  rcases hab.cases_head with heq | ⟨x, hax, -⟩
  · exact heq
  · exact absurd hax (ha x)

/-- Whatever was reached in two ways can be brought together again. -/
theorem joined (keeps : ∀ a b, P a → r a b → P b)
    (join : ∀ a b c, P a → r a b → r a c → Join (ReflTransGen r) b c) (hacc : Acc (flip r) a)
    (ha : P a) (hab : ReflTransGen r a b) (hac : ReflTransGen r a c) :
    Join (ReflTransGen r) b c := by
  induction hacc generalizing b c with
  | intro a _ ih =>
      rcases hab.cases_head with rfl | ⟨b', hab', hb'⟩
      · exact ⟨c, hac, .refl⟩
      rcases hac.cases_head with rfl | ⟨c', hac', hc'⟩
      · exact ⟨b, .refl, hab⟩
      obtain ⟨d, hbd, hcd⟩ := join a b' c' ha hab' hac'
      obtain ⟨e, hbe, hde⟩ := ih b' hab' (keeps a b' ha hab') hb' hbd
      obtain ⟨f, hef, hcf⟩ := ih c' hac' (keeps a c' ha hac') (hcd.trans hde) hc'
      exact ⟨f, hbe.trans hef, hcf⟩

/-- There is only one end. -/
theorem rest_unique (keeps : ∀ a b, P a → r a b → P b)
    (join : ∀ a b c, P a → r a b → r a c → Join (ReflTransGen r) b c) (hacc : Acc (flip r) a)
    (ha : P a) (hab : ReflTransGen r a b) (hac : ReflTransGen r a c)
    (hb : ∀ x, ¬ r b x) (hc : ∀ x, ¬ r c x) : b = c := by
  obtain ⟨d, hbd, hcd⟩ := joined keeps join hacc ha hab hac
  exact (eq_of_rest hb hbd).trans (eq_of_rest hc hcd).symm

end MessagePipe
