/-!
# MessagePipe.Total

A measure summed over a list: how much is left to do for all threads, or how
many messages all calls took.
-/

namespace MessagePipe

variable {α β : Type}

/-- The sum of a measure over a list. -/
def total (f : α → Nat) : List α → Nat
  | [] => 0
  | a :: l => f a + total f l

theorem total_append (f : α → Nat) (l l' : List α) : total f (l ++ l') = total f l + total f l' := by
  induction l with
  | nil => simp only [List.nil_append, total, Nat.zero_add]
  | cons a l ih => simp only [List.cons_append, total, ih, Nat.add_assoc]

theorem total_map (f : β → Nat) (g : α → β) (l : List α) :
    total f (l.map g) = total (f ∘ g) l := by
  induction l with
  | nil => rfl
  | cons a l ih => simp only [List.map_cons, total, ih, Function.comp]

/-- The order of a list does not matter. -/
theorem total_perm (f : α → Nat) {l l' : List α} (h : l.Perm l') : total f l = total f l' := by
  induction h with
  | nil => rfl
  | cons a _ ih => simp only [total, ih]
  | swap a b l => simp only [total]; omega
  | trans _ _ ih ih' => exact ih.trans ih'

/-- One entry of the list is replaced. -/
theorem total_set (f : α → Nat) {l : List α} {i : Nat} {a : α} (h : l[i]? = some a) (b : α) :
    total f (l.set i b) + f a = total f l + f b := by
  induction l generalizing i with
  | nil => simp at h
  | cons x xs ih =>
      cases i with
      | zero =>
          simp only [List.getElem?_cons_zero, Option.some.injEq] at h
          subst h
          simp only [List.set_cons_zero, total]; omega
      | succ i =>
          simp only [List.getElem?_cons_succ] at h
          have hrest := ih h
          simp only [List.set_cons_succ, total]; omega

end MessagePipe
