import Mathlib.Algebra.CharP.Two
import Mathlib.Algebra.BigOperators.Ring.Finset
import Mathlib.Algebra.BigOperators.Intervals
import Mathlib.Data.Nat.Size

/-!
# Polynomials packed into words

The bits of a number are the coefficients of a polynomial over the field of two
elements. It can be read at any point of a ring of characteristic two: exclusive or
is addition there, and a shift is multiplication by the point.
-/

namespace Atoman.Lib
open Finset

section
variable {R : Type*} [CommRing R] (x : R)

/-- The polynomial packed into `n`, read at `x`. -/
def packedEval (n : ℕ) : R := ∑ i ∈ range n.size, if n.testBit i then x ^ i else 0

theorem packedEval_eq_sum {n w : ℕ} (h : n < 2 ^ w) :
    packedEval x n = ∑ i ∈ range w, if n.testBit i then x ^ i else 0 := by
  refine sum_subset (range_mono (Nat.size_le.mpr h)) fun i _ hi => ?_
  have hle : n.size ≤ i := by simpa using hi
  have hlt : n < 2 ^ i := Nat.size_le.mp hle
  simp [Nat.testBit_lt_two_pow hlt]

@[simp] theorem packedEval_zero : packedEval x 0 = 0 := by simp [packedEval]

@[simp] theorem packedEval_one : packedEval x 1 = 1 := by
  rw [packedEval_eq_sum x (show 1 < 2 ^ 1 by decide)]
  simp

/-- The lowest coefficient, and the rest shifted down. -/
theorem packedEval_bit (n : ℕ) :
    packedEval x n = (if n.testBit 0 then 1 else 0) + x * packedEval x (n / 2) := by
  have hlt : n < 2 ^ (n.size + 1) :=
    (Nat.lt_size_self n).trans (Nat.pow_lt_pow_right (by decide) (Nat.lt_succ_self _))
  have hhalf : n / 2 < 2 ^ n.size := by
    rw [pow_succ] at hlt
    omega
  rw [packedEval_eq_sum x hlt, packedEval_eq_sum x hhalf, sum_range_succ', add_comm, mul_sum]
  refine congrArg₂ (· + ·) (by simp) (sum_congr rfl fun i _ => ?_)
  rw [Nat.testBit_succ, mul_ite, mul_zero, pow_succ']

/-- A shift multiplies. -/
theorem packedEval_double (n : ℕ) : packedEval x (2 * n) = x * packedEval x n := by
  rw [packedEval_bit, Nat.mul_div_cancel_left n (by decide)]
  simp

variable [CharP R 2]

/-- Exclusive or adds. -/
theorem packedEval_xor (a b : ℕ) :
    packedEval x (a ^^^ b) = packedEval x a + packedEval x b := by
  have ha : a < 2 ^ max a.size b.size :=
    (Nat.lt_size_self a).trans_le (Nat.pow_le_pow_right (by decide) (le_max_left _ _))
  have hb : b < 2 ^ max a.size b.size :=
    (Nat.lt_size_self b).trans_le (Nat.pow_le_pow_right (by decide) (le_max_right _ _))
  rw [packedEval_eq_sum x ha, packedEval_eq_sum x hb,
    packedEval_eq_sum x (Nat.xor_lt_two_pow ha hb), ← sum_add_distrib]
  refine sum_congr rfl fun i _ => ?_
  rw [Nat.testBit_xor]
  cases a.testBit i <;> cases b.testBit i <;> simp [CharTwo.add_self_eq_zero]

end

end Atoman.Lib
