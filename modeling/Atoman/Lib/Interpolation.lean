import Mathlib.Algebra.Order.Ring.Int
import Mathlib.Tactic.Ring

/-!
# Tables read between their entries

A table has an entry at every `s`-th place. Between two entries it is read along the line through
them, rounded down. If neighbouring entries rise by no more than `s`, the values rise by no more
than one from place to place.
-/

namespace Atoman.Lib

/-- The table `t` read at `x`. -/
def interpolate (t : ℕ → ℤ) (s x : ℕ) : ℤ :=
  t (x / s) + (t (x / s + 1) - t (x / s)) * (x % s : ℕ) / s

/-- The first `n + 1` entries rise, no faster than the places. -/
structure Gentle (t : ℕ → ℤ) (s n : ℕ) : Prop where
  rises : ∀ i < n, t i ≤ t (i + 1)
  slow : ∀ i < n, t (i + 1) - t i ≤ s

namespace Gentle
variable {t : ℕ → ℤ} {s n x y : ℕ}

/-- The line through two entries may be used at both of them. -/
theorem interpolate_cell (hs : 0 < s) {i f : ℕ} (hf : f ≤ s) :
    interpolate t s (i * s + f) = t i + (t (i + 1) - t i) * f / s := by
  rcases Nat.lt_or_eq_of_le hf with hlt | rfl
  · have hdiv : (i * s + f) / s = i := by
      rw [Nat.add_comm, Nat.add_mul_div_right _ _ hs, Nat.div_eq_of_lt hlt, Nat.zero_add]
    have hmod : (i * s + f) % s = f := by
      rw [Nat.add_comm, Nat.add_mul_mod_self_right, Nat.mod_eq_of_lt hlt]
    rw [interpolate, hdiv, hmod]
  · have hne : (f : ℤ) ≠ 0 := by omega
    have hdiv : (i * f + f) / f = i + 1 := by
      rw [← Nat.succ_mul, Nat.mul_div_cancel _ hs]
    have hmod : (i * f + f) % f = 0 := by rw [← Nat.succ_mul, Nat.mul_mod_left]
    rw [interpolate, hdiv, hmod, Int.mul_ediv_cancel _ hne]
    simp

/-- The values at the entries. -/
theorem interpolate_entry (hs : 0 < s) (i : ℕ) : interpolate t s (i * s) = t i := by
  have := interpolate_cell (t := t) hs (i := i) (Nat.zero_le s)
  simpa using this

/-- **One place on** the value rises by at most one. -/
theorem step (h : Gentle t s n) (hs : 0 < s) (hx : x < n * s) :
    interpolate t s x ≤ interpolate t s (x + 1) ∧
      interpolate t s (x + 1) ≤ interpolate t s x + 1 := by
  have hi : x / s < n := (Nat.div_lt_iff_lt_mul hs).mpr hx
  have hf : x % s < s := Nat.mod_lt x hs
  have hsplit : x / s * s + x % s = x := Nat.div_add_mod' x s
  have hat := interpolate_cell (t := t) hs (i := x / s) hf.le
  have hnext := interpolate_cell (t := t) hs (i := x / s) (show x % s + 1 ≤ s from hf)
  rw [← Nat.add_assoc, hsplit] at hnext
  rw [hsplit] at hat
  have hpos : (0 : ℤ) < s := by exact_mod_cast hs
  have hrises := h.rises _ hi
  have hslow := h.slow _ hi
  have hadd : (t (x / s + 1) - t (x / s)) * ((x % s + 1 : ℕ) : ℤ) =
      (t (x / s + 1) - t (x / s)) * (x % s : ℕ) + (t (x / s + 1) - t (x / s)) := by
    push_cast
    ring
  have hlow := Int.ediv_le_ediv hpos (show (t (x / s + 1) - t (x / s)) * (x % s : ℕ) ≤
    (t (x / s + 1) - t (x / s)) * ((x % s + 1 : ℕ) : ℤ) by omega)
  have hhigh := Int.ediv_le_ediv hpos (show (t (x / s + 1) - t (x / s)) * ((x % s + 1 : ℕ) : ℤ) ≤
    (t (x / s + 1) - t (x / s)) * (x % s : ℕ) + 1 * s by omega)
  rw [Int.add_mul_ediv_right _ _ hpos.ne'] at hhigh
  omega

/-- The values rise. -/
theorem mono (h : Gentle t s n) (hs : 0 < s) (hxy : x ≤ y) (hy : y ≤ n * s) :
    interpolate t s x ≤ interpolate t s y := by
  induction y, hxy using Nat.le_induction with
  | base => exact le_rfl
  | succ y _ ih => exact (ih (by omega)).trans (h.step hs (by omega)).1

end Gentle
end Atoman.Lib
