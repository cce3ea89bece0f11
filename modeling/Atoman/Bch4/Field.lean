import Atoman.Lib.Loops
import Atoman.Lib.PackedPolynomial
import Mathlib.Algebra.Field.ZMod
import Mathlib.Data.Nat.Bitwise
import Mathlib.GroupTheory.OrderOfElement
import Mathlib.FieldTheory.IsAlgClosed.AlgebraicClosure
import Mathlib.Tactic.NormNum.Prime
import Mathlib.Tactic.ComputeDegree
import Mathlib.Tactic.Ring

/-!
# The field of the code

The code computes in the field of `2^13` elements, each a word of thirteen bits: a
polynomial modulo the primitive one. A word stands for its value at a root of that
polynomial, in any field that has one. Every nonzero word is a power of the root, of
order 8191, so that a word is determined by its value.
-/

namespace Atoman.Bch4
open Lib

/-! ## The functions on words -/

/-- `BCH4_POLY`: `x^13 + x^4 + x^3 + x + 1`. -/
def bch4Poly : UInt32 := 0x201B

/-- `x <<= 1; if ((x & 0x2000) != 0) x ^= BCH4_POLY` -/
def shiftReduce (x : UInt32) : UInt32 :=
  if x <<< 1 &&& 0x2000 ≠ 0 then x <<< 1 ^^^ bch4Poly else x <<< 1

/-- `if ((term & 1) != 0) term ^= BCH4_POLY; term >> 1` -/
def shiftBack (term : UInt32) : UInt32 :=
  (if term &&& 1 ≠ 0 then term ^^^ bch4Poly else term) >>> 1

structure Product where
  left : UInt32
  right : UInt32
  result : UInt32

def Product.next (p : Product) : Product where
  left := shiftReduce p.left
  right := p.right >>> 1
  result := if p.right &&& 1 ≠ 0 then p.result ^^^ p.left else p.result

def multiply (a b : UInt16) : UInt16 :=
  (loop 13 (fun _ => Product.next) ⟨a.toUInt32, b.toUInt32, 0⟩).result.toUInt16

structure Power where
  result : UInt16
  factor : UInt16
  exponent : UInt32

def Power.next (p : Power) : Power where
  result := if p.exponent &&& 1 ≠ 0 then multiply p.result p.factor else p.result
  factor := multiply p.factor p.factor
  exponent := p.exponent >>> 1

def inverse (value : UInt16) : UInt16 :=
  (loop 13 (fun _ => Power.next) ⟨1, value, 8190⟩).result

/-! ## Words and numbers -/

theorem and_two_pow_ne_zero_iff (n k : ℕ) : n &&& 2 ^ k ≠ 0 ↔ n.testBit k = true := by
  rw [Nat.and_two_pow]
  cases n.testBit k <;> simp

theorem and_ne_zero_iff (x m : UInt32) {k : ℕ} (hm : m.toNat = 2 ^ k) :
    x &&& m ≠ 0 ↔ x.toNat.testBit k = true := by
  rw [← and_two_pow_ne_zero_iff, ← hm, ← UInt32.toNat_and]
  exact not_congr UInt32.toNat_inj.symm

theorem toNat_shiftLeft_one {x : UInt32} (h : x.toNat < 2 ^ 13) :
    (x <<< 1).toNat = 2 * x.toNat := by
  have hshift : (x <<< 1).toNat = x.toNat <<< 1 % 2 ^ 32 := UInt32.toNat_shiftLeft x 1
  rw [hshift, Nat.shiftLeft_eq]
  omega

theorem toNat_shiftRight_one (x : UInt32) : (x >>> 1).toNat = x.toNat / 2 := by
  have hshift : (x >>> 1).toNat = x.toNat >>> 1 := UInt32.toNat_shiftRight x 1
  rw [hshift, Nat.shiftRight_eq_div_pow]

/-- Two words of `k + 1` bits that both have the highest bit. -/
theorem xor_lt_of_testBit {a b k : ℕ} (ha : a < 2 ^ (k + 1)) (hb : b < 2 ^ (k + 1))
    (hak : a.testBit k = true) (hbk : b.testBit k = true) : a ^^^ b < 2 ^ k := by
  refine Nat.lt_pow_two_of_testBit _ fun i hi => ?_
  rw [Nat.testBit_xor]
  rcases Nat.lt_or_eq_of_le hi with hlt | rfl
  · have hle : 2 ^ (k + 1) ≤ 2 ^ i := Nat.pow_le_pow_right (by decide) hlt
    rw [Nat.testBit_lt_two_pow (ha.trans_le hle), Nat.testBit_lt_two_pow (hb.trans_le hle)]
    rfl
  · rw [hak, hbk]
    rfl

/-! ## What a word stands for -/

section value
variable {K : Type*} [Field K]

/-- A root of the primitive polynomial. -/
def IsRoot (α : K) : Prop := packedEval α bch4Poly.toNat = 0

/-- A reduced word and its value. -/
structure Represents (α : K) (n : ℕ) (v : K) : Prop where
  lt : n < 2 ^ 13
  eval : packedEval α n = v

variable {α : K}

theorem Represents.zero : Represents α 0 0 := ⟨by decide, packedEval_zero α⟩

theorem Represents.one : Represents α 1 1 := ⟨by decide, packedEval_one α⟩

theorem packedEval_bch4Poly (x : K) :
    packedEval x bch4Poly.toNat = 1 + (x + (x ^ 3 + (x ^ 4 + x ^ 13))) := by
  have hbits : {i ∈ Finset.range 14 | bch4Poly.toNat.testBit i} = {0, 1, 3, 4, 13} := by decide
  rw [packedEval_eq_sum x (show bch4Poly.toNat < 2 ^ 14 by decide), ← Finset.sum_filter, hbits]
  simp

theorem IsRoot.ne_zero (hα : IsRoot α) : α ≠ 0 := by
  rintro rfl
  rw [IsRoot, packedEval_bch4Poly] at hα
  simp at hα

variable [CharP K 2]

theorem Represents.xor {a b : ℕ} {v w : K} (ha : Represents α a v) (hb : Represents α b w) :
    Represents α (a ^^^ b) (v + w) :=
  ⟨Nat.xor_lt_two_pow ha.lt hb.lt, by rw [packedEval_xor, ha.eval, hb.eval]⟩

variable (hα : IsRoot α)
include hα

theorem IsRoot.ne_one : α ≠ 1 := by
  rintro rfl
  rw [IsRoot, packedEval_bch4Poly] at hα
  simp [CharTwo.add_self_eq_zero] at hα

/-- **A shift** is multiplication by the root. -/
theorem Represents.shiftReduce {x : UInt32} {v : K} (h : Represents α x.toNat v) :
    Represents α (shiftReduce x).toNat (α * v) := by
  have hdouble : packedEval α (2 * x.toNat) = α * v := by rw [packedEval_double, h.eval]
  have hlt : 2 * x.toNat < 2 ^ 14 := by have := h.lt; omega
  unfold Bch4.shiftReduce
  split
  · next hbit =>
    rw [and_ne_zero_iff _ _ (show UInt32.toNat 0x2000 = 2 ^ 13 by decide),
      toNat_shiftLeft_one h.lt] at hbit
    rw [UInt32.toNat_xor, toNat_shiftLeft_one h.lt]
    exact ⟨xor_lt_of_testBit hlt (by decide) hbit (by decide),
      by rw [packedEval_xor, hdouble, hα, add_zero]⟩
  · next hbit =>
    rw [and_ne_zero_iff _ _ (show UInt32.toNat 0x2000 = 2 ^ 13 by decide),
      toNat_shiftLeft_one h.lt] at hbit
    rw [toNat_shiftLeft_one h.lt]
    refine ⟨Nat.lt_of_not_le fun hle => hbit ?_, hdouble⟩
    exact Nat.testBit_of_two_pow_le_and_two_pow_add_one_gt hle hlt

/-- **A shift back** is division by it. -/
theorem Represents.shiftBack {x : UInt32} {v : K} (h : Represents α x.toNat v) :
    Represents α (shiftBack x).toNat (α⁻¹ * v) := by
  have hhalf {n : ℕ} (hlt : n < 2 ^ 14) (heval : packedEval α n = v)
      (hbit : n.testBit 0 = false) : Represents α (n / 2) (α⁻¹ * v) := by
    refine ⟨by omega, ?_⟩
    rw [packedEval_bit, hbit] at heval
    rw [← heval]
    simp [hα.ne_zero]
  have hlt := h.lt
  unfold Bch4.shiftBack
  rw [toNat_shiftRight_one]
  split
  · next hbit =>
    rw [and_ne_zero_iff _ _ (show UInt32.toNat 1 = 2 ^ 0 by decide)] at hbit
    rw [UInt32.toNat_xor]
    refine hhalf (Nat.xor_lt_two_pow (by omega) (by decide)) ?_ ?_
    · rw [packedEval_xor, h.eval, hα, add_zero]
    · rw [Nat.testBit_xor, hbit]
      rfl
  · next hbit =>
    rw [and_ne_zero_iff _ _ (show UInt32.toNat 1 = 2 ^ 0 by decide)] at hbit
    exact hhalf (by omega) h.eval (by simpa using hbit)

/-- What holds in the loop of a product `v`, after `i` bits of the multiplier. -/
structure Product.Inv (α v : K) (b i : ℕ) (p : Product) : Prop where
  left_lt : p.left.toNat < 2 ^ 13
  result_lt : p.result.toNat < 2 ^ 13
  right_eq : p.right.toNat = b / 2 ^ i
  total : packedEval α p.result.toNat + packedEval α p.left.toNat * packedEval α p.right.toNat = v

theorem Product.Inv.next {v : K} {b i : ℕ} {p : Product} (h : p.Inv α v b i) :
    p.next.Inv α v b (i + 1) := by
  have hleft : Represents α (Bch4.shiftReduce p.left).toNat (α * packedEval α p.left.toNat) :=
    Represents.shiftReduce hα ⟨h.left_lt, rfl⟩
  have hright : p.next.right.toNat = b / 2 ^ (i + 1) := by
    rw [pow_succ, ← Nat.div_div_eq_div_mul, ← h.right_eq]
    exact toNat_shiftRight_one _
  have htotal := h.total
  rw [packedEval_bit α p.right.toNat] at htotal
  have hshift : packedEval α p.next.right.toNat = packedEval α (p.right.toNat / 2) :=
    congrArg _ (toNat_shiftRight_one _)
  by_cases hbit : p.right &&& 1 ≠ 0
  · have hresult : p.next.result = p.result ^^^ p.left := if_pos hbit
    rw [and_ne_zero_iff _ _ (show UInt32.toNat 1 = 2 ^ 0 by decide)] at hbit
    refine ⟨hleft.lt, ?_, hright, ?_⟩
    · rw [hresult, UInt32.toNat_xor]
      exact Nat.xor_lt_two_pow h.result_lt h.left_lt
    · rw [hresult, UInt32.toNat_xor, packedEval_xor, hshift]
      change _ + packedEval α (Bch4.shiftReduce p.left).toNat * _ = v
      rw [hleft.eval, ← htotal, if_pos hbit]
      ring
  · have hresult : p.next.result = p.result := if_neg hbit
    rw [and_ne_zero_iff _ _ (show UInt32.toNat 1 = 2 ^ 0 by decide)] at hbit
    refine ⟨hleft.lt, hresult ▸ h.result_lt, hright, ?_⟩
    rw [hresult, hshift]
    change _ + packedEval α (Bch4.shiftReduce p.left).toNat * _ = v
    rw [hleft.eval, ← htotal, if_neg hbit]
    ring

/-- **The product** of two words stands for the product of their values. -/
theorem Represents.multiply {a b : UInt16} {v w : K} (ha : Represents α a.toNat v)
    (hb : Represents α b.toNat w) : Represents α (multiply a b).toNat (v * w) := by
  have hstart : (Product.mk a.toUInt32 b.toUInt32 0).Inv α (v * w) b.toNat 0 := by
    refine ⟨ha.lt, show 0 < 2 ^ 13 by decide, (Nat.div_one _).symm, ?_⟩
    change packedEval α 0 + packedEval α a.toNat * packedEval α b.toNat = _
    rw [packedEval_zero, zero_add, ha.eval, hb.eval]
  have hend := loop_invariant (n := 13) (P := fun i p => Product.Inv α (v * w) b.toNat i p)
    (f := fun _ => Product.next) hstart fun i p _ h => h.next hα
  have hright := hend.right_eq
  rw [Nat.div_eq_of_lt hb.lt] at hright
  have htotal := hend.total
  rw [hright, packedEval_zero, mul_zero, add_zero] at htotal
  have hlt := hend.result_lt
  have hnarrow : (Bch4.multiply a b).toNat = _ % 2 ^ 16 := UInt32.toNat_toUInt16 _
  rw [Nat.mod_eq_of_lt (by omega)] at hnarrow
  exact ⟨hnarrow ▸ hlt, hnarrow ▸ htotal⟩

/-! ## The powers of the root -/

/-- `α^k`, as a word. -/
def alphaPow (k : ℕ) : UInt32 := loop k (fun _ => shiftReduce) 1

theorem represents_alphaPow (k : ℕ) : Represents α (alphaPow k).toNat (α ^ k) := by
  induction k with
  | zero => simpa [alphaPow] using Represents.one
  | succ k ih =>
    rw [pow_succ']
    exact ih.shiftReduce hα

/-- Squared thirteen times, the root is itself again. -/
theorem IsRoot.pow_eq : α ^ 2 ^ 13 = α := by
  have htwo : Represents α (2 : UInt16).toNat α := by
    refine ⟨by decide, ?_⟩
    exact (packedEval_double α 1).trans (by rw [packedEval_one, mul_one])
  have hsquares := loop_invariant (n := 13) (s := (2 : UInt16)) (f := fun _ v => multiply v v)
    (P := fun i v => Represents α v.toNat (α ^ 2 ^ i)) (by simpa using htwo) fun i v _ h => by
      rw [pow_succ, pow_mul, sq]
      exact h.multiply hα h
  have hagain : loop 13 (fun _ v => multiply v v) (2 : UInt16) = 2 := by decide +kernel
  rw [hagain] at hsquares
  exact hsquares.eval.symm.trans htwo.eval

theorem IsRoot.pow_eq_one : α ^ 8191 = 1 := by
  refine mul_right_cancel₀ hα.ne_zero ?_
  rw [one_mul, ← pow_succ]
  exact hα.pow_eq

/-- **The root is primitive.** -/
theorem IsRoot.orderOf_eq : orderOf α = 8191 := by
  have hprime : Fact (Nat.Prime 8191) := ⟨by norm_num⟩
  exact orderOf_eq_prime hα.pow_eq_one hα.ne_one

theorem IsRoot.pow_inj {j k : ℕ} (hj : j < 8191) (hk : k < 8191) (h : α ^ j = α ^ k) : j = k :=
  pow_injOn_Iio_orderOf (by rwa [Set.mem_Iio, hα.orderOf_eq])
    (by rwa [Set.mem_Iio, hα.orderOf_eq]) h

/-- Every nonzero word is a power of the root: there are as many of either. -/
theorem IsRoot.exists_alphaPow {n : ℕ} (hn : n ≠ 0) (hlt : n < 2 ^ 13) :
    ∃ k, (alphaPow k).toNat = n := by
  have hinjective : Set.InjOn (fun k => (alphaPow k).toNat) (Finset.range 8191) := by
    intro j hj k hk h
    refine hα.pow_inj (by simpa using hj) (by simpa using hk) ?_
    rw [← (represents_alphaPow hα j).eval, ← (represents_alphaPow hα k).eval]
    exact congrArg (packedEval α) h
  have hsubset :
      (Finset.range 8191).image (fun k => (alphaPow k).toNat) ⊆ Finset.Ico 1 (2 ^ 13) := by
    intro m hm
    obtain ⟨k, -, rfl⟩ := Finset.mem_image.mp hm
    have hpower := represents_alphaPow hα k
    refine Finset.mem_Ico.mpr ⟨Nat.pos_of_ne_zero fun hzero => ?_, hpower.lt⟩
    refine pow_ne_zero k hα.ne_zero (hpower.eval.symm.trans ?_)
    rw [hzero, packedEval_zero]
  have hall := Finset.eq_of_subset_of_card_le hsubset (by
    rw [Finset.card_image_of_injOn hinjective, Nat.card_Ico, Finset.card_range]
    decide)
  have hmem : n ∈ Finset.Ico 1 (2 ^ 13) := Finset.mem_Ico.mpr ⟨Nat.pos_of_ne_zero hn, hlt⟩
  rw [← hall] at hmem
  obtain ⟨k, -, hk⟩ := Finset.mem_image.mp hmem
  exact ⟨k, hk⟩

theorem Represents.exists_pow {n : ℕ} {v : K} (h : Represents α n v) (hn : n ≠ 0) :
    ∃ k, v = α ^ k := by
  obtain ⟨k, rfl⟩ := hα.exists_alphaPow hn h.lt
  exact ⟨k, h.eval.symm.trans (represents_alphaPow hα k).eval⟩

/-- A word is zero exactly if its value is. -/
theorem Represents.eq_zero_iff {n : ℕ} {v : K} (h : Represents α n v) : n = 0 ↔ v = 0 := by
  constructor
  · rintro rfl
    rw [← h.eval, packedEval_zero]
  · intro hv
    by_contra hn
    obtain ⟨k, rfl⟩ := h.exists_pow hα hn
    exact pow_ne_zero k hα.ne_zero hv

/-! ## The inverse -/

/-- What holds in the loop of a power `v`, after `i` bits of the exponent. -/
structure Power.Inv (α v : K) (i : ℕ) (p : Power) : Prop where
  result_lt : p.result.toNat < 2 ^ 13
  factor_lt : p.factor.toNat < 2 ^ 13
  exponent_eq : p.exponent.toNat = 8190 / 2 ^ i
  total : packedEval α p.result.toNat * packedEval α p.factor.toNat ^ p.exponent.toNat = v

theorem Power.Inv.next {v : K} {i : ℕ} {p : Power} (h : p.Inv α v i) : p.next.Inv α v (i + 1) := by
  have hresult : Represents α p.result.toNat _ := ⟨h.result_lt, rfl⟩
  have hfactor : Represents α p.factor.toNat _ := ⟨h.factor_lt, rfl⟩
  have hsquare := hfactor.multiply hα hfactor
  have hexponent : p.next.exponent.toNat = p.exponent.toNat / 2 := toNat_shiftRight_one _
  have hnext : p.next.exponent.toNat = 8190 / 2 ^ (i + 1) := by
    rw [hexponent, h.exponent_eq, pow_succ, Nat.div_div_eq_div_mul]
  have htotal := h.total
  have hpower : packedEval α p.next.factor.toNat ^ p.next.exponent.toNat =
      packedEval α p.factor.toNat ^ (2 * (p.exponent.toNat / 2)) := by
    rw [hexponent, pow_mul, sq]
    exact congrArg (· ^ _) hsquare.eval
  by_cases hbit : p.exponent &&& 1 ≠ 0
  · have hproduct := hresult.multiply hα hfactor
    have heq : p.next.result = Bch4.multiply p.result p.factor := if_pos hbit
    rw [and_ne_zero_iff _ _ (show UInt32.toNat 1 = 2 ^ 0 by decide), Nat.testBit_zero,
      decide_eq_true_eq] at hbit
    have hodd : p.exponent.toNat = 2 * (p.exponent.toNat / 2) + 1 := by omega
    refine ⟨heq ▸ hproduct.lt, hsquare.lt, hnext, ?_⟩
    rw [hpower, heq, hproduct.eval, ← htotal, mul_assoc, ← pow_succ', ← hodd]
  · have heq : p.next.result = p.result := if_neg hbit
    rw [and_ne_zero_iff _ _ (show UInt32.toNat 1 = 2 ^ 0 by decide), Nat.testBit_zero,
      decide_eq_true_eq] at hbit
    have heven : p.exponent.toNat = 2 * (p.exponent.toNat / 2) := by omega
    refine ⟨heq ▸ h.result_lt, hsquare.lt, hnext, ?_⟩
    rw [hpower, heq, ← heven, htotal]

/-- **The inverse** of a nonzero word stands for the inverse of its value. -/
theorem Represents.inverse {a : UInt16} {v : K} (h : Represents α a.toNat v) (hv : v ≠ 0) :
    Represents α (inverse a).toNat v⁻¹ := by
  have hstart : (Power.mk 1 a 8190).Inv α (v ^ 8190) 0 := by
    refine ⟨show 1 < 2 ^ 13 by decide, h.lt, rfl, ?_⟩
    change packedEval α 1 * packedEval α a.toNat ^ 8190 = _
    rw [packedEval_one, one_mul, h.eval]
  have hend := loop_invariant (n := 13) (P := fun i p => Power.Inv α (v ^ 8190) i p)
    (f := fun _ => Power.next) hstart fun i p _ h => h.next hα
  have htotal := hend.total
  rw [hend.exponent_eq, show 8190 / 2 ^ 13 = 0 by decide, pow_zero, mul_one] at htotal
  refine ⟨hend.result_lt, htotal.trans ?_⟩
  have hn : a.toNat ≠ 0 := fun hzero => hv ((h.eq_zero_iff hα).mp hzero)
  obtain ⟨k, rfl⟩ := h.exists_pow hα hn
  refine eq_inv_of_mul_eq_one_left ?_
  rw [← pow_succ, ← pow_mul, mul_comm, pow_mul]
  exact (congrArg (· ^ k) hα.pow_eq_one).trans (one_pow k)

end value

open Polynomial in
/-- There is a field with a root. -/
theorem exists_isRoot : ∃ (K : Type) (_ : Field K) (_ : CharP K 2) (α : K), IsRoot α := by
  have hdegree : (X ^ 13 + X ^ 4 + X ^ 3 + X + 1 : (AlgebraicClosure (ZMod 2))[X]).degree = 13 := by
    compute_degree!
  obtain ⟨α, hα⟩ := IsAlgClosed.exists_root _ (hdegree.trans_ne (by decide))
  refine ⟨AlgebraicClosure (ZMod 2), inferInstance,
    charP_of_injective_algebraMap (algebraMap (ZMod 2) _).injective 2, α, ?_⟩
  have hzero := hα.eq_zero
  simp only [eval_add, eval_pow, eval_X, eval_one] at hzero
  rw [IsRoot, packedEval_bch4Poly, ← hzero]
  ring

end Atoman.Bch4
