import Mathlib.Data.Int.Notation
import Mathlib.Tactic.Ring
import Mathlib.Tactic.Linarith

/-!
# Exact results of 64-bit arithmetic

A sum or a product of machine integers is exact if and only if the exact result fits into 64 bits; a
sum that is too large comes out negative.
-/

namespace Int64

variable {x y : Int64}

/-- A result of a wrapping operation is the exact one if and only if that fits. -/
theorem bmod_eq_self_iff {z : ℤ} : z.bmod (2 ^ 64) = z ↔ -2 ^ 63 ≤ z ∧ z < 2 ^ 63 := by
  have hlt := Int.bmod_lt (x := z) (m := 2 ^ 64) (by decide)
  have hle := Int.le_bmod (x := z) (m := 2 ^ 64) (by decide)
  constructor
  · intro h
    rw [h] at hlt hle
    exact ⟨by omega, by omega⟩
  · rintro ⟨h, h'⟩
    exact Int.bmod_eq_of_le (by omega) (by omega)

theorem toInt_add_eq_iff :
    (x + y).toInt = x.toInt + y.toInt ↔ -2 ^ 63 ≤ x.toInt + y.toInt ∧ x.toInt + y.toInt < 2 ^ 63 := by
  rw [toInt_add, bmod_eq_self_iff]

theorem toInt_mul_eq_iff :
    (x * y).toInt = x.toInt * y.toInt ↔ -2 ^ 63 ≤ x.toInt * y.toInt ∧ x.toInt * y.toInt < 2 ^ 63 := by
  rw [toInt_mul, bmod_eq_self_iff]

/-- A sum that is too large is negative. -/
theorem toInt_add_neg (h : 2 ^ 63 ≤ x.toInt + y.toInt) : (x + y).toInt < 0 := by
  have hx := Int64.toInt_lt x
  have hy := Int64.toInt_lt y
  rw [toInt_add, Int.bmod_def]
  split
  · omega
  · omega

/-- Of non-negative numbers, the sum stays below a non-negative bound exactly when it does without
wrapping, unless it wraps. -/
theorem add_le_iff {b : Int64} (hx : 0 ≤ x.toInt) (hy : 0 ≤ y.toInt) (hb : 0 ≤ b.toInt) :
    (x + y ≤ b ↔ x.toInt + y.toInt ≤ b.toInt) ↔ x.toInt + y.toInt < 2 ^ 63 := by
  have hlt := Int64.toInt_lt b
  rw [Int64.le_iff_toInt_le]
  by_cases h : x.toInt + y.toInt < 2 ^ 63
  · rw [toInt_add_eq_iff.2 ⟨by omega, h⟩]
    exact iff_of_true Iff.rfl h
  · have hneg := toInt_add_neg (not_lt.1 h)
    refine iff_of_false (fun hiff => ?_) h
    have hle := hiff.1 (by omega)
    omega

end Int64
