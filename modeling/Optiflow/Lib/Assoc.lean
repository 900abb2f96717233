import Mathlib.Data.List.Basic

/-!
# Association lists

Looking up a key after the entries of a key have been removed.
-/

namespace Assoc

variable {α β : Type} [BEq α] [LawfulBEq α] [DecidableEq α] {l : List (α × β)} {k k' : α}

/-- A removed key is not found. -/
theorem lookup_filter_self : (l.filter fun e => e.1 ≠ k).lookup k = none := by
  rw [List.lookup_eq_none_iff]
  intro e he
  have hne := of_decide_eq_true (List.mem_filter.1 he).2
  simpa using Ne.symm hne

/-- Other keys are found as before. -/
theorem lookup_filter_ne (h : k' ≠ k) : (l.filter fun e => e.1 ≠ k).lookup k' = l.lookup k' := by
  have hne : (k' == k) = false := by simpa using h
  induction l with
  | nil => rfl
  | cons e l ih =>
    obtain ⟨k₁, v⟩ := e
    by_cases hk : k₁ = k
    · subst hk
      rw [List.filter_cons_of_neg (by simp), ih, List.lookup_cons, hne]
    · rw [List.filter_cons_of_pos (by simpa using hk), List.lookup_cons, List.lookup_cons, ih]

/-- What is not found is not found after a removal. -/
theorem lookup_filter_none (h : l.lookup k = none) :
    (l.filter fun e => e.1 ≠ k').lookup k = none := by
  by_cases hk : k = k'
  · rw [hk, lookup_filter_self]
  · rw [lookup_filter_ne hk, h]

end Assoc
