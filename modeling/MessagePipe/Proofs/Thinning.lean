/-!
# MessagePipe.Proofs.Thinning

Runs from which some steps are left out.  If certain steps change nothing
(`drop`), then they may be left out of any run, as many of them as one likes,
and the rest is a run from the same start to the same end
(`Steps.of_thinned`).
-/

namespace MessagePipe

variable {σ α : Type} {R : σ → α → σ → Prop} {drop : α → Prop}

/-- A run, step by step, with all that each step tells. -/
inductive Steps (R : σ → α → σ → Prop) : σ → List α → σ → Prop
  | nil (s : σ) : Steps R s [] s
  | cons {s t u : σ} {a : α} {l : List α} (first : R s a t) (rest : Steps R t l u) :
      Steps R s (a :: l) u

/-- A list from which some of the elements were left out that may be dropped. -/
inductive Thinned (drop : α → Prop) : List α → List α → Prop
  | nil : Thinned drop [] []
  | keep (a : α) {l kept : List α} (h : Thinned drop l kept) : Thinned drop (a :: l) (a :: kept)
  | leave {a : α} (ha : drop a) {l kept : List α} (h : Thinned drop l kept) :
      Thinned drop (a :: l) kept

/-- Steps that change nothing may be left out. -/
theorem Steps.of_thinned (hdrop : ∀ s a t, drop a → R s a t → t = s) {s u : σ} {l kept : List α}
    (h : Steps R s l u) (ht : Thinned drop l kept) : Steps R s kept u := by
  induction ht generalizing s with
  | nil => exact h
  | keep a _ ih =>
      cases h with
      | cons first rest => exact .cons first (ih rest)
  | leave ha _ ih =>
      cases h with
      | cons first rest =>
          obtain rfl := hdrop _ _ _ ha first
          exact ih rest

end MessagePipe
