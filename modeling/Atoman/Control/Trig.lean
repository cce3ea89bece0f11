import Atoman.Lib.Interpolation
import Mathlib.Algebra.Order.Group.Unbundled.Abs
import Mathlib.Algebra.Order.Group.Abs
import Mathlib.Data.List.Chain

/-!
# The integer sine

A quarter of a wave is a table of 257 entries in Q15, read along the lines between them. The four
quadrants of a 32-bit phase are folded onto it.
-/

namespace Atoman.Control
open Lib

/-- `sin_quarter_q15` -/
def sinQuarterQ15 : List ℤ := [
  0, 201, 402, 603, 804, 1005, 1206, 1407,
  1608, 1809, 2009, 2210, 2410, 2611, 2811, 3012,
  3212, 3412, 3612, 3811, 4011, 4210, 4410, 4609,
  4808, 5007, 5205, 5404, 5602, 5800, 5998, 6195,
  6393, 6590, 6786, 6983, 7179, 7375, 7571, 7767,
  7962, 8157, 8351, 8545, 8739, 8933, 9126, 9319,
  9512, 9704, 9896, 10087, 10278, 10469, 10659, 10849,
  11039, 11228, 11417, 11605, 11793, 11980, 12167, 12353,
  12539, 12725, 12910, 13094, 13279, 13462, 13645, 13828,
  14010, 14191, 14372, 14553, 14732, 14912, 15090, 15269,
  15446, 15623, 15800, 15976, 16151, 16325, 16499, 16673,
  16846, 17018, 17189, 17360, 17530, 17700, 17869, 18037,
  18204, 18371, 18537, 18703, 18868, 19032, 19195, 19357,
  19519, 19680, 19841, 20000, 20159, 20317, 20475, 20631,
  20787, 20942, 21096, 21250, 21403, 21554, 21705, 21856,
  22005, 22154, 22301, 22448, 22594, 22739, 22884, 23027,
  23170, 23311, 23452, 23592, 23731, 23870, 24007, 24143,
  24279, 24413, 24547, 24680, 24811, 24942, 25072, 25201,
  25329, 25456, 25582, 25708, 25832, 25955, 26077, 26198,
  26319, 26438, 26556, 26674, 26790, 26905, 27019, 27133,
  27245, 27356, 27466, 27575, 27683, 27790, 27896, 28001,
  28105, 28208, 28310, 28411, 28510, 28609, 28706, 28803,
  28898, 28992, 29085, 29177, 29268, 29358, 29447, 29534,
  29621, 29706, 29791, 29874, 29956, 30037, 30117, 30195,
  30273, 30349, 30424, 30498, 30571, 30643, 30714, 30783,
  30852, 30919, 30985, 31050, 31113, 31176, 31237, 31297,
  31356, 31414, 31470, 31526, 31580, 31633, 31685, 31736,
  31785, 31833, 31880, 31926, 31971, 32014, 32057, 32098,
  32137, 32176, 32213, 32250, 32285, 32318, 32351, 32382,
  32412, 32441, 32469, 32495, 32521, 32545, 32567, 32589,
  32609, 32628, 32646, 32663, 32678, 32692, 32705, 32717,
  32728, 32737, 32745, 32752, 32757, 32761, 32765, 32766,
  32767]

/-- `TRIG_I32_Q15_ONE` -/
def q15One : ℤ := 32767

/-- `TRIG_I32_QUARTER_PHASE` -/
def quarterPhase : UInt32 := 0x40000000

/-- `quarter_sin_q15` -/
def quarterSinQ15 (quarter_phase : UInt32) : ℤ :=
  if quarterPhase ≤ quarter_phase then q15One
  else
    let index := (quarter_phase >>> 22).toNat
    let fraction := (quarter_phase &&& 0x3FFFFF).toNat
    let base := sinQuarterQ15[index]!
    let delta := sinQuarterQ15[index + 1]! - base
    base + (delta * fraction) >>> (22 : ℕ)

/-- `sin_q15` -/
def sinQ15 (phase_q32 : UInt32) : ℤ :=
  let quadrant := phase_q32 >>> 30
  let offset := phase_q32 &&& 0x3FFFFFFF
  match quadrant with
  | 0 => quarterSinQ15 offset
  | 1 => quarterSinQ15 (quarterPhase - offset)
  | 2 => -quarterSinQ15 offset
  | _ => -quarterSinQ15 (quarterPhase - offset)

/-- `trig_i32_sin_cos_q15`: the sine and the cosine -/
def trigI32SinCosQ15 (phase_q32 : UInt32) : ℤ × ℤ :=
  (sinQ15 phase_q32, sinQ15 (phase_q32 + quarterPhase))

/-! ## A quarter of the wave -/

/-- The entries of the table by number. -/
def sinEntry (i : ℕ) : ℤ := sinQuarterQ15[i]!

/-- The table in one pass, which the kernel is quick at. -/
theorem sinQuarterQ15_checked :
    (sinQuarterQ15.IsChain fun a b => a ≤ b ∧ b - a ≤ ((2 ^ 22 : ℕ) : ℤ)) ∧
      sinQuarterQ15.length = 257 ∧ sinEntry 0 = 0 ∧ sinEntry 256 = q15One := by
  decide +kernel

theorem sinEntry_next {i : ℕ} (hi : i < 256) :
    sinEntry i ≤ sinEntry (i + 1) ∧ sinEntry (i + 1) - sinEntry i ≤ ((2 ^ 22 : ℕ) : ℤ) := by
  have hlen : i + 1 < sinQuarterQ15.length := by
    rw [sinQuarterQ15_checked.2.1]
    omega
  rw [sinEntry, sinEntry, getElem!_pos _ i (by omega), getElem!_pos _ (i + 1) hlen]
  exact sinQuarterQ15_checked.1.getElem i hlen

theorem sinEntry_gentle : Gentle sinEntry (2 ^ 22) 256 where
  rises _ hi := (sinEntry_next hi).1
  slow _ hi := (sinEntry_next hi).2

/-- The quarter wave at `x`, up to its end at `2 ^ 30`. -/
def quarterWave (x : ℕ) : ℤ := interpolate sinEntry (2 ^ 22) x

theorem quarterWave_zero : quarterWave 0 = 0 :=
  (Gentle.interpolate_entry (by decide) 0).trans sinQuarterQ15_checked.2.2.1

theorem quarterWave_end : quarterWave (2 ^ 30) = q15One :=
  (Gentle.interpolate_entry (by decide) 256).trans sinQuarterQ15_checked.2.2.2

theorem quarterWave_step {x : ℕ} (hx : x < 2 ^ 30) :
    quarterWave x ≤ quarterWave (x + 1) ∧ quarterWave (x + 1) ≤ quarterWave x + 1 :=
  sinEntry_gentle.step (by decide) hx

theorem quarterWave_mono {x y : ℕ} (hxy : x ≤ y) (hy : y ≤ 2 ^ 30) :
    quarterWave x ≤ quarterWave y :=
  sinEntry_gentle.mono (by decide) hxy hy

theorem quarterWave_bounds {x : ℕ} (hx : x ≤ 2 ^ 30) :
    0 ≤ quarterWave x ∧ quarterWave x ≤ q15One := by
  have hlow := quarterWave_mono (Nat.zero_le x) hx
  have hhigh := quarterWave_mono hx (Nat.le_refl _)
  rw [quarterWave_zero] at hlow
  rw [quarterWave_end] at hhigh
  exact ⟨hlow, hhigh⟩

theorem quarterSinQ15_eq {p : UInt32} (hp : p.toNat ≤ 2 ^ 30) :
    quarterSinQ15 p = quarterWave p.toNat := by
  unfold quarterSinQ15
  split
  · next hle =>
    have hle : 2 ^ 30 ≤ p.toNat := UInt32.le_iff_toNat_le.mp hle
    rw [Nat.le_antisymm hp hle, quarterWave_end]
  · have hindex : (p >>> 22).toNat = p.toNat / 2 ^ 22 := by
      rw [UInt32.toNat_shiftRight, Nat.shiftRight_eq_div_pow]
      rfl
    have hfraction : (p &&& 0x3FFFFF).toNat = p.toNat % 2 ^ 22 := by
      rw [UInt32.toNat_and]
      exact Nat.and_two_pow_sub_one_eq_mod p.toNat 22
    simp only [hindex, hfraction, Int.shiftRight_eq_div_pow]
    rfl

/-! ## The four quadrants -/

section quadrants
variable {p : UInt32}

theorem quadrant_eq {k : UInt32} (h : p.toNat / 2 ^ 30 = k.toNat) : p >>> 30 = k := by
  rw [← UInt32.toNat_inj, ← h, UInt32.toNat_shiftRight, Nat.shiftRight_eq_div_pow]
  rfl

/-- The position inside the quadrant. -/
theorem offset_toNat : (p &&& 0x3FFFFFFF).toNat = p.toNat % 2 ^ 30 := by
  rw [UInt32.toNat_and]
  exact Nat.and_two_pow_sub_one_eq_mod p.toNat 30

/-- What is left of the quadrant. -/
theorem rest_toNat : (quarterPhase - (p &&& 0x3FFFFFFF)).toNat = 2 ^ 30 - p.toNat % 2 ^ 30 := by
  have hlt : p.toNat % 2 ^ 30 < 2 ^ 30 := Nat.mod_lt _ (by decide)
  have hle : p &&& 0x3FFFFFFF ≤ quarterPhase := by
    rw [UInt32.le_iff_toNat_le, offset_toNat]
    exact hlt.le
  have hquarter : quarterPhase.toNat = 2 ^ 30 := by decide
  rw [UInt32.toNat_sub_of_le _ _ hle, offset_toNat, hquarter]

theorem quarter_offset : quarterSinQ15 (p &&& 0x3FFFFFFF) = quarterWave (p.toNat % 2 ^ 30) := by
  have hlt : p.toNat % 2 ^ 30 < 2 ^ 30 := Nat.mod_lt _ (by decide)
  rw [quarterSinQ15_eq (by rw [offset_toNat]; exact hlt.le), offset_toNat]

theorem quarter_rest : quarterSinQ15 (quarterPhase - (p &&& 0x3FFFFFFF)) =
    quarterWave (2 ^ 30 - p.toNat % 2 ^ 30) := by
  rw [quarterSinQ15_eq (by rw [rest_toNat]; exact Nat.sub_le _ _), rest_toNat]

theorem sinQ15_quadrant0 (h : p.toNat / 2 ^ 30 = 0) :
    sinQ15 p = quarterWave (p.toNat % 2 ^ 30) := by
  have hq : p >>> 30 = 0 := quadrant_eq h
  rw [← quarter_offset]
  simp only [sinQ15, hq]

theorem sinQ15_quadrant1 (h : p.toNat / 2 ^ 30 = 1) :
    sinQ15 p = quarterWave (2 ^ 30 - p.toNat % 2 ^ 30) := by
  have hq : p >>> 30 = 1 := quadrant_eq h
  rw [← quarter_rest]
  simp only [sinQ15, hq]

theorem sinQ15_quadrant2 (h : p.toNat / 2 ^ 30 = 2) :
    sinQ15 p = -quarterWave (p.toNat % 2 ^ 30) := by
  have hq : p >>> 30 = 2 := quadrant_eq h
  rw [← quarter_offset]
  simp only [sinQ15, hq]

theorem sinQ15_quadrant3 (h : p.toNat / 2 ^ 30 = 3) :
    sinQ15 p = -quarterWave (2 ^ 30 - p.toNat % 2 ^ 30) := by
  have hq : p >>> 30 = 3 := quadrant_eq h
  have hne {k : UInt32} (hk : k ≠ 3) (h0 : p >>> 30 = k) : False := hk (h0.symm.trans hq)
  rw [← quarter_rest]
  simp only [sinQ15]
  split
  · next h0 => exact (hne (by decide) h0).elim
  · next h0 => exact (hne (by decide) h0).elim
  · next h0 => exact (hne (by decide) h0).elim
  · rfl

/-! Where two quadrants meet, both of their forms hold. -/

theorem sinQ15_first (h : p.toNat ≤ 2 ^ 30) : sinQ15 p = quarterWave p.toNat := by
  rcases Nat.lt_or_eq_of_le h with hlt | heq
  · rw [sinQ15_quadrant0 (by omega), Nat.mod_eq_of_lt hlt]
  · rw [sinQ15_quadrant1 (by omega), heq, Nat.mod_self, Nat.sub_zero]

theorem sinQ15_second (h : 2 ^ 30 ≤ p.toNat) (h' : p.toNat ≤ 2 ^ 31) :
    sinQ15 p = quarterWave (2 ^ 31 - p.toNat) := by
  rcases Nat.lt_or_eq_of_le h' with hlt | heq
  · rw [sinQ15_quadrant1 (by omega)]
    exact congrArg quarterWave (by omega)
  · rw [sinQ15_quadrant2 (by omega), heq, Nat.sub_self]
    exact congrArg Neg.neg quarterWave_zero

theorem sinQ15_third (h : 2 ^ 31 ≤ p.toNat) (h' : p.toNat ≤ 3 * 2 ^ 30) :
    sinQ15 p = -quarterWave (p.toNat - 2 ^ 31) := by
  rcases Nat.lt_or_eq_of_le h' with hlt | heq
  · rw [sinQ15_quadrant2 (by omega)]
    exact congrArg (-quarterWave ·) (by omega)
  · rw [sinQ15_quadrant3 (by omega), heq, Nat.mul_mod_left, Nat.sub_zero,
      show 3 * 2 ^ 30 - 2 ^ 31 = 2 ^ 30 by omega]

theorem sinQ15_fourth (h : 3 * 2 ^ 30 ≤ p.toNat) : sinQ15 p = -quarterWave (2 ^ 32 - p.toNat) := by
  have hlt := p.toNat_lt
  rw [sinQ15_quadrant3 (by omega)]
  exact congrArg (-quarterWave ·) (by omega)

/-- One of the four forms holds. -/
theorem quadrant_cases (p : UInt32) : p.toNat ≤ 2 ^ 30 ∨ (2 ^ 30 ≤ p.toNat ∧ p.toNat ≤ 2 ^ 31) ∨
    (2 ^ 31 ≤ p.toNat ∧ p.toNat ≤ 3 * 2 ^ 30) ∨ 3 * 2 ^ 30 ≤ p.toNat := by
  omega

end quadrants

/-! ## The whole wave -/

section wave
variable (p : UInt32)

theorem sinQ15_neg : sinQ15 (-p) = -sinQ15 p := by
  have hlt := p.toNat_lt
  have hneg : (-p).toNat = (2 ^ 32 - p.toNat) % 2 ^ 32 := UInt32.toNat_neg p
  rcases Nat.eq_zero_or_pos p.toNat with hzero | hpos
  · have hp : p = 0 := UInt32.toNat_inj.mp hzero
    rw [hp, sinQ15_first (by decide)]
    decide +kernel
  rw [Nat.mod_eq_of_lt (by omega)] at hneg
  rcases quadrant_cases p with h | ⟨h, h'⟩ | ⟨h, h'⟩ | h
  · rw [sinQ15_fourth (by omega), sinQ15_first h, hneg]
    exact congrArg (-quarterWave ·) (by omega)
  · rw [sinQ15_third (by omega) (by omega), sinQ15_second h h', hneg]
    exact congrArg (-quarterWave ·) (by omega)
  · rw [sinQ15_second (by omega) (by omega), sinQ15_third h h', hneg, Int.neg_neg]
    exact congrArg quarterWave (by omega)
  · rw [sinQ15_first (by omega), sinQ15_fourth h, hneg, Int.neg_neg]

theorem sinQ15_half : sinQ15 (p + 0x80000000) = -sinQ15 p := by
  have hlt := p.toNat_lt
  have hadd : (p + 0x80000000).toNat = (p.toNat + 2 ^ 31) % 2 ^ 32 := UInt32.toNat_add p _
  rcases quadrant_cases p with h | ⟨h, h'⟩ | ⟨h, h'⟩ | h
  · rw [sinQ15_third (by omega) (by omega), sinQ15_first h]
    exact congrArg (-quarterWave ·) (by omega)
  · rcases Nat.lt_or_eq_of_le h' with hlt' | heq
    · rw [sinQ15_fourth (by omega), sinQ15_second h h']
      exact congrArg (-quarterWave ·) (by omega)
    · rw [sinQ15_first (by omega), sinQ15_third (by omega) (by omega), hadd, heq]
      simp [quarterWave_zero]
  · rw [sinQ15_first (by omega), sinQ15_third h h', Int.neg_neg]
    exact congrArg quarterWave (by omega)
  · rw [sinQ15_second (by omega) (by omega), sinQ15_fourth h, Int.neg_neg]
    exact congrArg quarterWave (by omega)

theorem sinQ15_abs_le : |sinQ15 p| ≤ q15One := by
  have hlt := p.toNat_lt
  rcases quadrant_cases p with h | ⟨h, h'⟩ | ⟨h, h'⟩ | h
  · rw [sinQ15_first h, abs_of_nonneg (quarterWave_bounds h).1]
    exact (quarterWave_bounds h).2
  · have hx : 2 ^ 31 - p.toNat ≤ 2 ^ 30 := by omega
    rw [sinQ15_second h h', abs_of_nonneg (quarterWave_bounds hx).1]
    exact (quarterWave_bounds hx).2
  · have hx : p.toNat - 2 ^ 31 ≤ 2 ^ 30 := by omega
    rw [sinQ15_third h h', abs_neg, abs_of_nonneg (quarterWave_bounds hx).1]
    exact (quarterWave_bounds hx).2
  · have hx : 2 ^ 32 - p.toNat ≤ 2 ^ 30 := by omega
    rw [sinQ15_fourth h, abs_neg, abs_of_nonneg (quarterWave_bounds hx).1]
    exact (quarterWave_bounds hx).2

/-- From phase to phase the sine moves by at most one. -/
theorem sinQ15_step : |sinQ15 (p + 1) - sinQ15 p| ≤ 1 := by
  have hlt := p.toNat_lt
  have hadd : (p + 1).toNat = (p.toNat + 1) % 2 ^ 32 := UInt32.toNat_add p 1
  rw [abs_le]
  rcases Nat.lt_or_ge p.toNat (2 ^ 30) with h | h
  · have hstep := quarterWave_step h
    rw [sinQ15_first h.le, sinQ15_first (by omega), hadd, Nat.mod_eq_of_lt (by omega)]
    omega
  rcases Nat.lt_or_ge p.toNat (2 ^ 31) with h' | h'
  · have hstep := quarterWave_step (show 2 ^ 31 - (p.toNat + 1) < 2 ^ 30 by omega)
    rw [show 2 ^ 31 - (p.toNat + 1) + 1 = 2 ^ 31 - p.toNat by omega] at hstep
    rw [sinQ15_second h h'.le, sinQ15_second (by omega) (by omega), hadd,
      Nat.mod_eq_of_lt (by omega)]
    omega
  rcases Nat.lt_or_ge p.toNat (3 * 2 ^ 30) with h'' | h''
  · have hstep := quarterWave_step (show p.toNat - 2 ^ 31 < 2 ^ 30 by omega)
    rw [show p.toNat - 2 ^ 31 + 1 = p.toNat + 1 - 2 ^ 31 by omega] at hstep
    rw [sinQ15_third h' h''.le, sinQ15_third (by omega) (by omega), hadd,
      Nat.mod_eq_of_lt (by omega)]
    omega
  · have hstep := quarterWave_step (show 2 ^ 32 - (p.toNat + 1) < 2 ^ 30 by omega)
    rw [show 2 ^ 32 - (p.toNat + 1) + 1 = 2 ^ 32 - p.toNat by omega] at hstep
    rcases Nat.lt_or_eq_of_le (show p.toNat + 1 ≤ 2 ^ 32 from hlt) with hin | hwrap
    · rw [sinQ15_fourth h'', sinQ15_fourth (by omega), hadd, Nat.mod_eq_of_lt hin]
      omega
    · -- the phase wraps to zero
      have hzero : (p + 1).toNat = 0 := by omega
      rw [sinQ15_fourth h'', sinQ15_first (by omega), hzero, quarterWave_zero]
      rw [show 2 ^ 32 - (p.toNat + 1) = 0 by omega, quarterWave_zero] at hstep
      omega

variable {p} {q : UInt32}

theorem sinQ15_rising (hpq : p ≤ q) (hq : q ≤ quarterPhase) : sinQ15 p ≤ sinQ15 q := by
  have hle : p.toNat ≤ q.toNat := UInt32.le_iff_toNat_le.mp hpq
  have hq : q.toNat ≤ 2 ^ 30 := UInt32.le_iff_toNat_le.mp hq
  rw [sinQ15_first (hle.trans hq), sinQ15_first hq]
  exact quarterWave_mono hle hq

theorem sinQ15_falling (hp : quarterPhase ≤ p) (hpq : p ≤ q) (hq : q ≤ 0xC0000000) :
    sinQ15 q ≤ sinQ15 p := by
  have hp : 2 ^ 30 ≤ p.toNat := UInt32.le_iff_toNat_le.mp hp
  have hle : p.toNat ≤ q.toNat := UInt32.le_iff_toNat_le.mp hpq
  have hq : q.toNat ≤ 3 * 2 ^ 30 := UInt32.le_iff_toNat_le.mp hq
  rcases Nat.le_total q.toNat (2 ^ 31) with hq' | hq'
  · rw [sinQ15_second (by omega) hq', sinQ15_second hp (by omega)]
    exact quarterWave_mono (by omega) (by omega)
  rcases Nat.le_total p.toNat (2 ^ 31) with hp' | hp'
  · have hpos := (quarterWave_bounds (show 2 ^ 31 - p.toNat ≤ 2 ^ 30 by omega)).1
    have hneg := (quarterWave_bounds (show q.toNat - 2 ^ 31 ≤ 2 ^ 30 by omega)).1
    rw [sinQ15_second hp hp', sinQ15_third hq' hq]
    omega
  · rw [sinQ15_third hq' hq, sinQ15_third hp' (by omega)]
    exact Int.neg_le_neg (quarterWave_mono (by omega) (by omega))

end wave

/-- **The integer sine** is odd, changes its sign with half a turn, stays in Q15, moves by at most
one from phase to phase, rises to the first quarter and falls to the third; the cosine is the
sine a quarter further. -/
theorem sine_symmetric_smooth :
    (∀ p, (trigI32SinCosQ15 (-p)).1 = -(trigI32SinCosQ15 p).1 ∧
      (trigI32SinCosQ15 (p + 0x80000000)).1 = -(trigI32SinCosQ15 p).1 ∧
      |(trigI32SinCosQ15 p).1| ≤ 32767 ∧
      |(trigI32SinCosQ15 (p + 1)).1 - (trigI32SinCosQ15 p).1| ≤ 1 ∧
      (trigI32SinCosQ15 p).2 = (trigI32SinCosQ15 (p + 0x40000000)).1) ∧
    (∀ p q, p ≤ q → q ≤ 0x40000000 → (trigI32SinCosQ15 p).1 ≤ (trigI32SinCosQ15 q).1) ∧
    ∀ p q, 0x40000000 ≤ p → p ≤ q → q ≤ 0xC0000000 →
      (trigI32SinCosQ15 q).1 ≤ (trigI32SinCosQ15 p).1 :=
  ⟨fun p => ⟨sinQ15_neg p, sinQ15_half p, sinQ15_abs_le p, sinQ15_step p, rfl⟩,
    fun _ _ => sinQ15_rising, fun _ _ => sinQ15_falling⟩

/-- An eighth of a turn, forth and back. -/
theorem sine_symmetric_smooth_eighth :
    (trigI32SinCosQ15 0x20000000).1 = 23170 ∧ (trigI32SinCosQ15 0xE0000000).1 = -23170 ∧
      (trigI32SinCosQ15 0x20000000).1 ≤ (trigI32SinCosQ15 0x30000000).1 ∧
      (trigI32SinCosQ15 0xA0000000).1 ≤ (trigI32SinCosQ15 0x60000000).1 := by
  have heighth : (trigI32SinCosQ15 0x20000000).1 = 23170 := by decide
  obtain ⟨hphase, hrising, hfalling⟩ := sine_symmetric_smooth
  have hneg : (trigI32SinCosQ15 0xE0000000).1 = -(trigI32SinCosQ15 0x20000000).1 :=
    (hphase 0x20000000).1
  exact ⟨heighth, by rw [hneg, heighth], hrising _ _ (by decide) (by decide),
    hfalling _ _ (by decide) (by decide) (by decide)⟩

end Atoman.Control
