import Mathlib.Data.Nat.Basic
import Mathlib.Tactic.IntervalCases
import Mathlib.Tactic.Ring

/-!
# Integers of some bytes

The least significant byte comes first. Storing an integer in `k` bytes keeps it modulo
`256 ^ k`; reading is unsigned, or balanced about zero.
-/

namespace Atoman.Lib.ByteInteger

/-- The number of the bytes. -/
def ofBytes : List UInt8 → ℕ
  | [] => 0
  | b :: bytes => b.toNat + 256 * ofBytes bytes

/-- The last `k` bytes of a number. -/
def toBytes : ℕ → ℕ → List UInt8
  | 0, _ => []
  | k + 1, n => UInt8.ofNat n :: toBytes k (n / 256)

@[simp] theorem length_toBytes (k n : ℕ) : (toBytes k n).length = k := by
  induction k generalizing n with
  | zero => rfl
  | succ k ih => rw [toBytes, List.length_cons, ih]

/-- What is read back is the number modulo the width. -/
theorem ofBytes_toBytes (k n : ℕ) : ofBytes (toBytes k n) = n % 256 ^ k := by
  induction k generalizing n with
  | zero => exact (Nat.mod_one n).symm
  | succ k ih =>
    have hbyte : (UInt8.ofNat n).toNat = n % 256 := rfl
    rw [toBytes, ofBytes, ih, hbyte, pow_succ, Nat.mul_comm (256 ^ k) 256, Nat.mod_mul]

/-- The first bytes are the number modulo their width. -/
theorem ofBytes_take (k : ℕ) (bytes : List UInt8) :
    ofBytes (bytes.take k) = ofBytes bytes % 256 ^ k := by
  induction k generalizing bytes with
  | zero => exact (Nat.mod_one _).symm
  | succ k ih =>
    cases bytes with
    | nil => exact (Nat.zero_mod _).symm
    | cons b bytes =>
      have hbyte : (b.toNat + 256 * ofBytes bytes) % 256 = b.toNat := by
        have := b.toNat_lt
        omega
      have hrest : (b.toNat + 256 * ofBytes bytes) / 256 = ofBytes bytes := by
        have := b.toNat_lt
        omega
      rw [List.take_succ_cons, ofBytes, ofBytes, ih, pow_succ, Nat.mul_comm (256 ^ k) 256,
        Nat.mod_mul, hbyte, hrest]

/-- The reading of `k` bytes, signed or not. -/
def wrap (signed : Bool) (k : ℕ) (n : ℤ) : ℤ :=
  if signed = true then n.bmod (256 ^ k) else n % (256 ^ k : ℕ)

/-- The bytes of an integer. -/
def store (k : ℕ) (n : ℤ) : List UInt8 := toBytes k (n % (256 ^ k : ℕ)).toNat

/-- The integer of some bytes. -/
def load (signed : Bool) (bytes : List UInt8) : ℤ := wrap signed bytes.length (ofBytes bytes)

@[simp] theorem length_store (k : ℕ) (n : ℤ) : (store k n).length = k := length_toBytes k _

theorem load_store (signed : Bool) (k : ℕ) (n : ℤ) : load signed (store k n) = wrap signed k n := by
  have hpos : (0 : ℤ) < (256 ^ k : ℕ) := by exact_mod_cast Nat.pow_pos (by decide : 0 < 256)
  have hlo := Int.emod_nonneg n hpos.ne'
  have hhi := Int.emod_lt_of_pos n hpos
  have hread : ((ofBytes (store k n) : ℕ) : ℤ) = n % (256 ^ k : ℕ) := by
    unfold store
    rw [ofBytes_toBytes, Nat.mod_eq_of_lt (by omega), Int.toNat_of_nonneg hlo]
  unfold load
  rw [length_store, hread]
  unfold wrap
  split
  · exact Int.emod_bmod n _
  · exact Int.emod_emod_of_dvd n (Int.dvd_refl _)

/-- A narrower reading of a wider one. -/
theorem wrap_wrap (signed : Bool) {j k : ℕ} (h : j ≤ k) (n : ℤ) :
    wrap signed j (wrap signed k n) = wrap signed j n := by
  have hdvd : 256 ^ j ∣ 256 ^ k := pow_dvd_pow 256 h
  unfold wrap
  split
  · exact Int.bmod_bmod_of_dvd hdvd
  · exact Int.emod_emod_of_dvd n (Int.natCast_dvd_natCast.mpr hdvd)

/-- The integer of the first bytes. -/
theorem load_take (signed : Bool) {k : ℕ} {bytes : List UInt8} (h : k ≤ bytes.length) :
    load signed (bytes.take k) = wrap signed k (load signed bytes) := by
  unfold load
  rw [wrap_wrap signed h, List.length_take, Nat.min_eq_left h, ofBytes_take, Int.natCast_emod]
  unfold wrap
  split
  · exact Int.emod_bmod _ _
  · exact Int.emod_emod_of_dvd _ (Int.dvd_refl _)

/-- The least integer of the width. -/
def least (signed : Bool) (k : ℕ) : ℤ := if signed = true then -(256 ^ k / 2 : ℕ) else 0

/-- One more than the greatest integer of the width. -/
def bound (signed : Bool) (k : ℕ) : ℤ :=
  if signed = true then ((256 ^ k + 1) / 2 : ℕ) else (256 ^ k : ℕ)

/-- An integer of the width is kept. -/
theorem wrap_of_fits {signed : Bool} {k : ℕ} {n : ℤ} (hlo : least signed k ≤ n)
    (hhi : n < bound signed k) :
    wrap signed k n = n := by
  unfold least at hlo
  unfold bound at hhi
  unfold wrap
  split
  · next hsigned =>
    rw [if_pos hsigned] at hlo hhi
    exact Int.bmod_eq_of_le (by omega) (by omega)
  · next hsigned =>
    rw [if_neg hsigned] at hlo hhi
    exact Int.emod_eq_of_lt hlo hhi

/-- What is read is an integer of the width. -/
theorem wrap_fits (signed : Bool) (k : ℕ) (n : ℤ) :
    least signed k ≤ wrap signed k n ∧ wrap signed k n < bound signed k := by
  have hpos : 0 < 256 ^ k := Nat.pow_pos (by decide)
  have hpos' : (0 : ℤ) < (256 ^ k : ℕ) := by exact_mod_cast hpos
  unfold least bound wrap
  split
  · have hlo := Int.le_bmod (x := n) hpos
    have hhi := Int.bmod_lt (x := n) hpos
    constructor <;> omega
  · exact ⟨Int.emod_nonneg n hpos'.ne', Int.emod_lt_of_pos n hpos'⟩

end Atoman.Lib.ByteInteger
