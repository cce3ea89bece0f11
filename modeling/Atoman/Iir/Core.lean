import Mathlib.Algebra.Order.Ring.Abs
import Mathlib.Algebra.Order.Ring.Int
import Mathlib.Tactic.NormNum
import Mathlib.Tactic.Ring

/-!
# The 3P3Z core

One sample in one clock: seven products of 64 bits, an adder tree of 70 bits, a shift and the
limits. No product and no sum wraps.
-/

namespace Atoman.Iir

/-- The coefficients and limits, as written by the PS. -/
structure Parameters where
  b0 : BitVec 32
  b1 : BitVec 32
  b2 : BitVec 32
  b3 : BitVec 32
  a1 : BitVec 32
  a2 : BitVec 32
  a3 : BitVec 32
  limit_lower : BitVec 32
  limit_upper : BitVec 32
deriving DecidableEq

/-- The three inputs and limited outputs before. -/
structure History where
  x1 : BitVec 32
  x2 : BitVec 32
  x3 : BitVec 32
  y1 : BitVec 32
  y2 : BitVec 32
  y3 : BitVec 32

/-! ## The datapath -/

section datapath

/-- `product_*`: both factors are signed, so they are extended to the width of the product. -/
def product (sample coeff : BitVec 32) : BitVec 64 := sample.signExtend 64 * coeff.signExtend 64

/-- `product_*_extended` -/
def productExtended (sample coeff : BitVec 32) : BitVec 70 := (product sample coeff).signExtend 70

variable (p : Parameters) (h : History) (sample_in : BitVec 32)

def feedforwardSum01 : BitVec 70 := productExtended sample_in p.b0 + productExtended h.x1 p.b1

def feedforwardSum23 : BitVec 70 := productExtended h.x2 p.b2 + productExtended h.x3 p.b3

def feedbackSum12 : BitVec 70 := productExtended h.y1 p.a1 + productExtended h.y2 p.a2

def feedforwardSum : BitVec 70 := feedforwardSum01 p h sample_in + feedforwardSum23 p h

def feedbackSum : BitVec 70 := feedbackSum12 p h + productExtended h.y3 p.a3

def accumulator : BitVec 70 := feedforwardSum p h sample_in - feedbackSum p h

/-- COEFF_FRAC_BITS is 30. -/
def scaledResult : BitVec 70 := (accumulator p h sample_in).sshiftRight 30

def clampUpper : Bool := (p.limit_upper.signExtend 70).slt (scaledResult p h sample_in)

def clampLower : Bool := (scaledResult p h sample_in).slt (p.limit_lower.signExtend 70)

def limitedSample : BitVec 32 :=
  if clampUpper p h sample_in then p.limit_upper
  else if clampLower p h sample_in then p.limit_lower
  else (scaledResult p h sample_in).setWidth 32

end datapath

/-! ## The registers of the core -/

structure Core where
  history : History
  done : Bool
  saturated : Bool
  sample_out : BitVec 32
  sample_count : BitVec 32

namespace Core

/-- Reset, and what `clear_state` leaves. -/
def reset : Core := ⟨⟨0, 0, 0, 0, 0, 0⟩, false, false, 0, 0⟩

/-- One clock out of reset. -/
def clock (c : Core) (start clear_state : Bool) (sample_in : BitVec 32) (p : Parameters) : Core :=
  if clear_state then reset
  else if start then
    let limited_sample := limitedSample p c.history sample_in
    { history := ⟨sample_in, c.history.x1, c.history.x2, limited_sample, c.history.y1, c.history.y2⟩
      done := true
      saturated := clampUpper p c.history sample_in || clampLower p c.history sample_in
      sample_out := limited_sample
      sample_count := c.sample_count + 1 }
  else { c with done := false }

end Core

/-! ## The recurrence over unbounded integers -/

/-- The seven products. -/
def recurrence (p : Parameters) (h : History) (x : BitVec 32) : ℤ :=
  p.b0.toInt * x.toInt + p.b1.toInt * h.x1.toInt + p.b2.toInt * h.x2.toInt +
    p.b3.toInt * h.x3.toInt - p.a1.toInt * h.y1.toInt - p.a2.toInt * h.y2.toInt -
    p.a3.toInt * h.y3.toInt

/-- The upper limit first. -/
def clamp (lower upper z : ℤ) : ℤ := if upper < z then upper else if z < lower then lower else z

theorem clamp_eq_max_min {lower upper : ℤ} (h : lower ≤ upper) (z : ℤ) :
    clamp lower upper z = max lower (min upper z) := by
  rw [clamp]
  split
  · omega
  · split <;> omega

/-- What no width of the datapath changes. -/
structure Exact (p : Parameters) (h : History) (x : BitVec 32) : Prop where
  product : ∀ a b, (product a b).toInt = a.toInt * b.toInt
  feedforwardSum01 : (feedforwardSum01 p h x).toInt =
    x.toInt * p.b0.toInt + h.x1.toInt * p.b1.toInt
  feedforwardSum23 : (feedforwardSum23 p h).toInt =
    h.x2.toInt * p.b2.toInt + h.x3.toInt * p.b3.toInt
  feedbackSum12 : (feedbackSum12 p h).toInt = h.y1.toInt * p.a1.toInt + h.y2.toInt * p.a2.toInt
  feedforwardSum : (feedforwardSum p h x).toInt =
    x.toInt * p.b0.toInt + h.x1.toInt * p.b1.toInt +
      (h.x2.toInt * p.b2.toInt + h.x3.toInt * p.b3.toInt)
  feedbackSum : (feedbackSum p h).toInt =
    h.y1.toInt * p.a1.toInt + h.y2.toInt * p.a2.toInt + h.y3.toInt * p.a3.toInt
  accumulator : (accumulator p h x).toInt = recurrence p h x

section exactness
variable {p : Parameters} {h : History} {x : BitVec 32}

theorem toInt_bounds (a : BitVec 32) : -2147483648 ≤ a.toInt ∧ a.toInt ≤ 2147483647 := by
  have hlow := a.le_two_mul_toInt
  have hhigh := a.two_mul_toInt_lt
  omega

theorem abs_toInt_mul_le (a b : BitVec 32) : |a.toInt * b.toInt| ≤ 4611686018427387904 := by
  have ha : |a.toInt| ≤ 2147483648 := abs_le.mpr (by have := toInt_bounds a; omega)
  have hb : |b.toInt| ≤ 2147483648 := abs_le.mpr (by have := toInt_bounds b; omega)
  rw [abs_mul]
  exact mul_le_mul ha hb (abs_nonneg _) (by norm_num)

theorem toInt_product (a b : BitVec 32) : (product a b).toInt = a.toInt * b.toInt := by
  have hbounds := abs_le.mp (abs_toInt_mul_le a b)
  rw [product, BitVec.toInt_mul, BitVec.toInt_signExtend_of_le (by decide),
    BitVec.toInt_signExtend_of_le (by decide)]
  exact Int.bmod_eq_of_le (by norm_num; omega) (by norm_num; omega)

theorem toInt_productExtended (a b : BitVec 32) :
    (productExtended a b).toInt = a.toInt * b.toInt := by
  rw [productExtended, BitVec.toInt_signExtend_of_le (by decide), toInt_product]

/-- A sum of 70 bits, far from its bounds. -/
theorem toInt_add_of_small {a b : BitVec 70} (h : |a.toInt + b.toInt| ≤ 2 ^ 68) :
    (a + b).toInt = a.toInt + b.toInt := by
  have hbounds := abs_le.mp h
  rw [BitVec.toInt_add]
  exact Int.bmod_eq_of_le (by norm_num at *; omega) (by norm_num at *; omega)

theorem toInt_sub_of_small {a b : BitVec 70} (h : |a.toInt - b.toInt| ≤ 2 ^ 68) :
    (a - b).toInt = a.toInt - b.toInt := by
  have hbounds := abs_le.mp h
  rw [BitVec.toInt_sub]
  exact Int.bmod_eq_of_le (by norm_num at *; omega) (by norm_num at *; omega)

/-- The sum of two products. -/
theorem toInt_pair (a b c d : BitVec 32) : (productExtended a b + productExtended c d).toInt =
    a.toInt * b.toInt + c.toInt * d.toInt := by
  have hab := abs_le.mp (abs_toInt_mul_le a b)
  have hcd := abs_le.mp (abs_toInt_mul_le c d)
  have hsmall : |(productExtended a b).toInt + (productExtended c d).toInt| ≤ 2 ^ 68 := by
    rw [toInt_productExtended, toInt_productExtended]
    exact abs_le.mpr (by norm_num; omega)
  rw [toInt_add_of_small hsmall, toInt_productExtended, toInt_productExtended]

theorem exact_datapath (p : Parameters) (h : History) (x : BitVec 32) : Exact p h x := by
  have hx0 := abs_le.mp (abs_toInt_mul_le x p.b0)
  have hx1 := abs_le.mp (abs_toInt_mul_le h.x1 p.b1)
  have hx2 := abs_le.mp (abs_toInt_mul_le h.x2 p.b2)
  have hx3 := abs_le.mp (abs_toInt_mul_le h.x3 p.b3)
  have hy1 := abs_le.mp (abs_toInt_mul_le h.y1 p.a1)
  have hy2 := abs_le.mp (abs_toInt_mul_le h.y2 p.a2)
  have hy3 := abs_le.mp (abs_toInt_mul_le h.y3 p.a3)
  have h01 : (feedforwardSum01 p h x).toInt = _ := toInt_pair x p.b0 h.x1 p.b1
  have h23 : (feedforwardSum23 p h).toInt = _ := toInt_pair h.x2 p.b2 h.x3 p.b3
  have h12 : (feedbackSum12 p h).toInt = _ := toInt_pair h.y1 p.a1 h.y2 p.a2
  have h3 := toInt_productExtended h.y3 p.a3
  have hforward : (feedforwardSum p h x).toInt = _ :=
    toInt_add_of_small (by rw [h01, h23]; exact abs_le.mpr (by norm_num; omega))
  have hback : (feedbackSum p h).toInt = _ :=
    toInt_add_of_small (by rw [h12, h3]; exact abs_le.mpr (by norm_num; omega))
  rw [h01, h23] at hforward
  rw [h12, h3] at hback
  have hacc : (accumulator p h x).toInt = _ :=
    toInt_sub_of_small (by rw [hforward, hback]; exact abs_le.mpr (by norm_num; omega))
  refine ⟨toInt_product, h01, h23, h12, hforward, hback, ?_⟩
  rw [hacc, hforward, hback, recurrence]
  ring

/-- **The limited sample is the recurrence, floored and clamped.** -/
theorem toInt_limitedSample (p : Parameters) (h : History) (x : BitVec 32) :
    (limitedSample p h x).toInt =
      clamp p.limit_lower.toInt p.limit_upper.toInt (recurrence p h x / 2 ^ 30) := by
  have hscaled : (scaledResult p h x).toInt = recurrence p h x / 2 ^ 30 := by
    rw [scaledResult, BitVec.toInt_sshiftRight, (exact_datapath p h x).accumulator,
      Int.shiftRight_eq_div_pow]
    norm_num
  have hupper : clampUpper p h x = true ↔ p.limit_upper.toInt < recurrence p h x / 2 ^ 30 := by
    rw [clampUpper, BitVec.slt_iff_toInt_lt, BitVec.toInt_signExtend_of_le (by decide), hscaled]
  have hlower : clampLower p h x = true ↔ recurrence p h x / 2 ^ 30 < p.limit_lower.toInt := by
    rw [clampLower, BitVec.slt_iff_toInt_lt, BitVec.toInt_signExtend_of_le (by decide), hscaled]
  rw [limitedSample, clamp]
  simp only [hupper, hlower]
  split
  · rfl
  split
  · rfl
  · have hl := toInt_bounds p.limit_lower
    have hu := toInt_bounds p.limit_upper
    rw [← BitVec.signExtend_eq_setWidth_of_le _ (by decide),
      BitVec.toInt_signExtend_eq_toInt_bmod_of_le _ (by decide), hscaled]
    exact Int.bmod_eq_of_le (by norm_num; omega) (by norm_num; omega)

end exactness
end Atoman.Iir
