import Mathlib.Algebra.Order.Ring.Nat
import Mathlib.Data.Nat.ModEq

/-!
# Periods in a counter that wraps

A clock counts ticks without bound, and a program sees them modulo `2 ^ 32`. An event
recurs every `p` ticks from tick `e` on. As long as the program looks before a whole turn of
the counter has gone by, its arithmetic on wrapped ticks finds the last recurrence.
-/

namespace Atoman.Lib

/-- The last of the ticks `e`, `e + p`, `e + 2 * p`, ... up to `t`. -/
def recurrence (e p t : ℕ) : ℕ := e + (t - e) / p * p

namespace ModularTime
variable {e p r c t : ℕ}

/-! ## Recurrences -/

theorem recurrence_self (e p : ℕ) : recurrence e p e = e := by
  simp [recurrence]

theorem recurrence_le (h : e ≤ t) : recurrence e p t ≤ t := by
  have := Nat.div_mul_le_self (t - e) p
  unfold recurrence
  omega

theorem lt_recurrence (hp : 0 < p) (h : e ≤ t) : t < recurrence e p t + p := by
  have := Nat.lt_div_mul_add hp (a := t - e)
  unfold recurrence
  omega

/-- Counting on from a recurrence. -/
theorem recurrence_recurrence (hct : c ≤ t) :
    recurrence (recurrence e p c) p t = recurrence e p t := by
  have hle : (c - e) / p * p ≤ t - e :=
    (Nat.div_mul_le_self _ _).trans (Nat.sub_le_sub_right hct e)
  have hsplit : t - recurrence e p c = t - e - p * ((c - e) / p) := by
    rw [recurrence, Nat.mul_comm p]
    omega
  have hdiv : (t - recurrence e p c) / p = (t - e) / p - (c - e) / p := by
    rw [hsplit, Nat.sub_mul_div]
  have hmono : (c - e) / p ≤ (t - e) / p := Nat.div_le_div_right (Nat.sub_le_sub_right hct e)
  have hmul : (c - e) / p * p ≤ (t - e) / p * p := Nat.mul_le_mul_right p hmono
  rw [recurrence, hdiv, Nat.sub_mul, recurrence, recurrence]
  omega

/-- A recurrence comes between two ticks if the later one is a period behind the last one. -/
theorem div_lt_div_iff (hp : 0 < p) (hec : e ≤ c) (hct : c ≤ t) :
    (c - e) / p < (t - e) / p ↔ recurrence e p c + p ≤ t := by
  rw [Nat.lt_iff_add_one_le, Nat.le_div_iff_mul_le hp, Nat.add_mul, Nat.one_mul, recurrence]
  omega

/-! ## Wrapped ticks -/

/-- The distance of two ticks less than a turn apart. -/
theorem toNat_sub (hle : r ≤ t) (hlt : t < r + 2 ^ 32) :
    (UInt32.ofNat t - UInt32.ofNat r).toNat = t - r := by
  have hr : (UInt32.ofNat r).toNat = r % 2 ^ 32 := UInt32.toNat_ofNat'
  have ht : (UInt32.ofNat t).toNat = t % 2 ^ 32 := UInt32.toNat_ofNat'
  rw [UInt32.toNat_sub, hr, ht]
  omega

/-- The last recurrence, from one that was seen less than a turn ago. -/
theorem advance {period : UInt32} (hle : r ≤ t) (hlt : t < r + 2 ^ 32) :
    UInt32.ofNat r + (UInt32.ofNat t - UInt32.ofNat r) / period * period =
      UInt32.ofNat (recurrence r period.toNat t) := by
  rw [← UInt32.toNat_inj, UInt32.toNat_add, UInt32.toNat_mul, UInt32.toNat_div, toNat_sub hle hlt,
    UInt32.toNat_ofNat', UInt32.toNat_ofNat', recurrence]
  simp only [Nat.add_mod_mod, Nat.mod_add_mod]

/-- The distance of two ticks, as far as the counter can tell. -/
theorem toNat_sub_mod (hle : r ≤ t) :
    (UInt32.ofNat t - UInt32.ofNat r).toNat = (t - r) % 2 ^ 32 := by
  have hr : (UInt32.ofNat r).toNat = r % 2 ^ 32 := UInt32.toNat_ofNat'
  have ht : (UInt32.ofNat t).toNat = t % 2 ^ 32 := UInt32.toNat_ofNat'
  rw [UInt32.toNat_sub, hr, ht]
  omega

end ModularTime

end Atoman.Lib
