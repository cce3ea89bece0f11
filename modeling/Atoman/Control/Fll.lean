import Atoman.Lib.SignedInteger
import Mathlib.Algebra.Order.Ring.Abs
import Mathlib.Algebra.Order.Ring.Int
import Mathlib.Algebra.Ring.Parity
import Mathlib.Tactic.Linarith
import Mathlib.Tactic.NormNum
import Mathlib.Tactic.Positivity
import Mathlib.Tactic.Ring

/-!
# The integer frequency-locked loop

`fll_i32`: a step multiplies, divides and shifts 64-bit products and feeds its limited outputs
back. Every signed operation is checked; a step in which one overflows is undefined. It is
compared with the same formula over unbounded integers.
-/

namespace Atoman.Control.Fll
open Lib

/-! ## The program -/

/-- `fll_i32_t.inter`, as `fll_i32_init` accepts it. -/
structure Inter where
  omega_init_mradps : SInt 32
  omega_max_mradps : SInt 32
  omega_min_mradps : SInt 32
  i_err_max_mradps : SInt 32
  i_err_min_mradps : SInt 32
  gain_q : SInt 32
  gain_q_shift : ℕ
  omega_ordered : omega_min_mradps.val ≤ omega_max_mradps.val
  i_err_ordered : i_err_min_mradps.val ≤ i_err_max_mradps.val
  shift_lt : gain_q_shift < 30

/-- What the three input pointers show. -/
structure Input where
  v : SInt 32
  qv : SInt 32
  epsilon : SInt 32

/-- `fll_i32_t.output` -/
@[ext] structure Output where
  omega_mradps : SInt 32
  i_err_mradps : SInt 32

/-- `fll_i32_reset` -/
def reset (c : Inter) : Output := ⟨c.omega_init_mradps, ⟨0, fits32_zero⟩⟩

/-- `fll_i32_limit_i32` -/
def limitI32 (val up_lmt dn_lmt : SInt 32) : SInt 32 := SInt.limit dn_lmt up_lmt val

/-- `fll_i32_sat_i64_to_i32` -/
def satI64ToI32 (val : SInt 64) : SInt 32 := SInt.sat val

/-- `fll_i32_cal`: the outputs and the value returned. -/
def cal (c : Inter) (s : Output) (i : Input) : Option (Output × Bool) := do
  let vv ← checked 64 (i.v.val * i.v)
  let qq ← checked 64 (i.qv.val * i.qv)
  let qvv ← checked 64 (vv.val + qq)
  if qvv.val ≤ 0 then return (s, false)
  let gain_q : ℤ := 2 ^ c.gain_q_shift
  let err ← checked 64 (i.epsilon.val * i.qv)
  let err_q ← checked 64 (err.val * gain_q)
  let err_qv_q ← checkedDiv err_q qvv
  let gained ← checked 64 (s.omega_mradps.val * c.gain_q)
  let omega_gain := gained.val >>> c.gain_q_shift
  let product ← checked 64 (omega_gain * err_qv_q)
  let delta ← checked 64 (-(product.val >>> c.gain_q_shift))
  let sum ← checked 64 (s.i_err_mradps.val + delta)
  let i_err := limitI32 (satI64ToI32 sum) c.i_err_max_mradps c.i_err_min_mradps
  let omega ← checked 32 (c.omega_init_mradps.val + i_err)
  return (⟨limitI32 omega c.omega_max_mradps c.omega_min_mradps, i_err⟩, true)

/-! ## The formula -/

/-- The square of the amplitude. -/
def amplitude (i : Input) : ℤ := i.v.val ^ 2 + i.qv.val ^ 2

/-- `err_qv_q * omega_gain` over unbounded integers. -/
def drive (c : Inter) (s : Output) (i : Input) : ℤ :=
  ((s.omega_mradps.val * c.gain_q) >>> c.gain_q_shift) *
    (i.epsilon.val * i.qv * 2 ^ c.gain_q_shift).tdiv (amplitude i)

/-- The integral before its limits. -/
def integral (c : Inter) (s : Output) (i : Input) : ℤ :=
  s.i_err_mradps.val + -(drive c s i >>> c.gain_q_shift)

/-- The integral within its limits. -/
def integralLimited (c : Inter) (s : Output) (i : Input) : SInt 32 :=
  SInt.limit c.i_err_min_mradps c.i_err_max_mradps (integral c s i)

/-- A step over unbounded integers: without an amplitude nothing moves. -/
def exact (c : Inter) (s : Output) (i : Input) : Output × Bool :=
  if amplitude i = 0 then (s, false)
  else (⟨SInt.limit c.omega_min_mradps c.omega_max_mradps
    (c.omega_init_mradps.val + integralLimited c s i), integralLimited c s i⟩, true)

/-- Both outputs are within their limits. -/
def InLimits (c : Inter) (s : Output) : Prop :=
  (c.omega_min_mradps.val ≤ s.omega_mradps.val ∧ s.omega_mradps.val ≤ c.omega_max_mradps.val) ∧
    c.i_err_min_mradps.val ≤ s.i_err_mradps.val ∧ s.i_err_mradps.val ≤ c.i_err_max_mradps.val

/-- The inputs and the outputs before a step allow it. -/
def Allows (c : Inter) (s : Output) (i : Input) : Prop :=
  ¬(i.v.val = -2 ^ 31 ∧ i.qv.val = -2 ^ 31) ∧
    if amplitude i = 0 then InLimits c s
    else FitsSigned 64 (i.epsilon.val * i.qv * 2 ^ c.gain_q_shift) ∧
      FitsSigned 64 (drive c s i) ∧ FitsSigned 64 (-(drive c s i >>> c.gain_q_shift)) ∧
      FitsSigned 64 (integral c s i) ∧
      FitsSigned 32 (c.omega_init_mradps.val + integralLimited c s i)

instance (c : Inter) (s : Output) : Decidable (InLimits c s) := inferInstanceAs (Decidable (_ ∧ _))

instance (c : Inter) (s : Output) (i : Input) : Decidable (Allows c s i) :=
  inferInstanceAs (Decidable (¬_ ∧ if amplitude i = 0 then InLimits c s else _))

/-! ## One step -/

section step
variable {c : Inter} {s : Output} {i : Input}

theorem amplitude_nonneg (i : Input) : 0 ≤ amplitude i := by
  unfold amplitude
  positivity

/-- Only the two least inputs together have too great an amplitude. -/
theorem amplitude_fits_iff :
    FitsSigned 64 (amplitude i) ↔ ¬(i.v.val = -2 ^ 31 ∧ i.qv.val = -2 ^ 31) := by
  have hle (a : SInt 32) : a.val ^ 2 ≤ 4611686018427387904 := by
    rw [sq]
    exact (abs_le.mp (SInt.abs_mul_le a a)).2
  have hlt (a : SInt 32) (ha : a.val ≠ -2 ^ 31) : a.val ^ 2 ≤ 4611686014132420609 := by
    have := a.bounds
    rw [show (4611686014132420609 : ℤ) = 2147483647 ^ 2 by norm_num]
    exact sq_le_sq' (by omega) (by omega)
  rw [fits64_iff]
  constructor
  · rintro ⟨-, h⟩ ⟨hv, hqv⟩
    rw [amplitude, hv, hqv] at h
    norm_num at h
  · intro h
    have hpos := amplitude_nonneg i
    refine ⟨by omega, ?_⟩
    have hv := hle i.v
    have hqv := hle i.qv
    by_cases hmin : i.v.val = -2 ^ 31
    · have := hlt i.qv fun hq => h ⟨hmin, hq⟩
      unfold amplitude
      omega
    · have := hlt i.v hmin
      unfold amplitude
      omega

/-- A step that is defined: the outputs stay, or everything fits. -/
theorem cal_eq_some {r : Output × Bool} : cal c s i = some r ↔
    FitsSigned 64 (amplitude i) ∧ r = exact c s i ∧ (amplitude i ≠ 0 →
      FitsSigned 64 (i.epsilon.val * i.qv * 2 ^ c.gain_q_shift) ∧
      FitsSigned 64 (drive c s i) ∧ FitsSigned 64 (-(drive c s i >>> c.gain_q_shift)) ∧
      FitsSigned 64 (integral c s i) ∧
      FitsSigned 32 (c.omega_init_mradps.val + integralLimited c s i)) := by
  unfold cal
  rw [checked_bind (i.v.fits_mul i.v), checked_bind (i.qv.fits_mul i.qv)]
  have hamp : i.v.val * i.v.val + i.qv.val * i.qv.val = amplitude i := by
    rw [amplitude, sq, sq]
  simp only [hamp]
  by_cases hfit : FitsSigned 64 (amplitude i)
  swap
  · simp [checked, hfit]
  have hnonneg := amplitude_nonneg i
  rw [checked_bind hfit]
  by_cases hzero : amplitude i = 0
  · have hfit0 : FitsSigned 64 0 := hzero ▸ hfit
    simp [hzero, hfit0, exact, eq_comm]
  · have hpos : 0 < amplitude i := by omega
    have hgain := s.omega_mradps.fits_mul c.gain_q
    simp only [if_neg (Int.not_le.mpr hpos), checked_bind (i.epsilon.fits_mul i.qv),
      checked_bind hgain, checked_bind_eq_some,
      checkedDiv_bind_of_pos (b := ⟨amplitude i, hfit⟩) hpos]
    have hlimited (h : FitsSigned 64 (integral c s i)) :
        limitI32 (satI64ToI32 ⟨integral c s i, h⟩) c.i_err_max_mradps c.i_err_min_mradps =
          integralLimited c s i := SInt.limit_sat c.i_err_ordered _
    rw [exact, if_neg hzero]
    constructor
    · rintro ⟨hscaled, hdrive, hdelta, hsum, homega, hr⟩
      refine ⟨hfit, ?_, fun _ => ⟨hscaled, hdrive, hdelta, hsum, ?_⟩⟩
      · rw [← hlimited hsum]
        exact (Option.some.inj hr).symm
      · rw [← hlimited hsum]
        exact homega
    · rintro ⟨-, hr, hfits⟩
      obtain ⟨hscaled, hdrive, hdelta, hsum, homega⟩ := hfits hzero
      rw [← hlimited hsum] at homega hr
      exact ⟨hscaled, hdrive, hdelta, hsum, homega, congrArg some hr.symm⟩

/-- A step over unbounded integers that moves ends within the limits. -/
theorem inLimits_exact (h : amplitude i = 0 → InLimits c s) : InLimits c (exact c s i).1 := by
  rw [exact]
  split
  · next hzero => exact h hzero
  · exact ⟨⟨SInt.le_limit c.omega_ordered _, SInt.limit_le c.omega_ordered _⟩,
      SInt.le_limit c.i_err_ordered _, SInt.limit_le c.i_err_ordered _⟩

/-- What a step promises: the formula's outputs, within their limits. -/
def Right (c : Inter) (s : Output) (i : Input) (r : Output × Bool) : Prop :=
  r = exact c s i ∧ InLimits c r.1

theorem right_iff_allows : (∃ r, cal c s i = some r ∧ Right c s i r) ↔ Allows c s i := by
  have hstill (hzero : amplitude i = 0) : exact c s i = (s, false) := if_pos hzero
  rw [Allows, ← amplitude_fits_iff]
  constructor
  · rintro ⟨r, hcal, -, hin⟩
    obtain ⟨hfit, hr, hfits⟩ := cal_eq_some.mp hcal
    refine ⟨hfit, ?_⟩
    split
    · next hzero => rwa [hr, hstill hzero] at hin
    · next hzero => exact hfits hzero
  · rintro ⟨hfit, h⟩
    split at h
    · next hzero =>
      exact ⟨_, cal_eq_some.mpr ⟨hfit, rfl, fun hne => (hne hzero).elim⟩, rfl,
        inLimits_exact fun _ => h⟩
    · next hzero =>
      exact ⟨_, cal_eq_some.mpr ⟨hfit, rfl, fun _ => h⟩, rfl,
        inLimits_exact fun h0 => (hzero h0).elim⟩

end step

/-! ## Runs -/

/-- **The loop over unbounded integers**, exactly in the runs whose steps are allowed. -/
theorem loop_exact_iff (c : Inter) (is : List Input) :
    Succeeds (cal c) (Right c) (reset c) is ↔
      Transition.Admits (fun s i => (exact c s i).1) (Allows c) (reset c) is :=
  succeeds_iff (J := fun _ => True) (fun _ _ _ => right_iff_allows)
    (fun _ _ _ _ hcal => congrArg Prod.fst (cal_eq_some.mp hcal).2.1) (fun _ _ _ _ _ _ => trivial)
    trivial is

/-! ### Plain bounds -/

theorem abs_shiftRight_le {z b : ℤ} {n : ℕ} (h : |z| ≤ b * 2 ^ n) : |z >>> n| ≤ b := by
  have hpos : (0 : ℤ) < 2 ^ n := by positivity
  obtain ⟨hlo, hhi⟩ := abs_le.mp h
  rw [Int.shiftRight_eq_div_pow]
  push_cast
  refine abs_le.mpr ⟨?_, Int.ediv_le_of_le_mul hpos hhi⟩
  rw [Int.le_ediv_iff_mul_le hpos]
  linarith

theorem abs_tdiv_le {z b d : ℤ} (hd : 0 < d) (h : |z| ≤ b * d) : |z.tdiv d| ≤ b := by
  obtain ⟨hlo, hhi⟩ := abs_le.mp h
  rcases Int.le_total 0 z with hz | hz
  · rw [Int.tdiv_eq_ediv_of_nonneg hz, abs_of_nonneg (Int.ediv_nonneg hz hd.le)]
    exact Int.ediv_le_of_le_mul hd hhi
  · have hneg : 0 ≤ -z := by omega
    rw [← abs_neg, ← Int.neg_tdiv, Int.tdiv_eq_ediv_of_nonneg hneg,
      abs_of_nonneg (Int.ediv_nonneg hneg hd.le)]
    exact Int.ediv_le_of_le_mul hd (by omega)

/-- The gain is at most one, and the limits contain what the loop starts from and fit together. -/
structure Inter.Plain (c : Inter) : Prop where
  gain_le : |c.gain_q.val| ≤ 2 ^ c.gain_q_shift
  omega_init : c.omega_min_mradps.val ≤ c.omega_init_mradps.val ∧
    c.omega_init_mradps.val ≤ c.omega_max_mradps.val
  i_err_zero : c.i_err_min_mradps.val ≤ 0 ∧ 0 ≤ c.i_err_max_mradps.val
  omega_least : -2 ^ 31 ≤ c.omega_init_mradps.val + c.i_err_min_mradps
  omega_greatest : c.omega_init_mradps.val + c.i_err_max_mradps < 2 ^ 31

/-- The error keeps its size when it is scaled, and the amplitude fits. -/
def Input.Plain (c : Inter) (i : Input) : Prop :=
  |i.epsilon.val| * 2 ^ c.gain_q_shift ≤ 2 ^ 31 ∧ ¬(i.v.val = -2 ^ 31 ∧ i.qv.val = -2 ^ 31)

section plain
variable {c : Inter} {s : Output} {i : Input}

theorem abs_val_le (a : SInt 32) : |a.val| ≤ 2 ^ 31 := by
  have hbounds := a.bounds
  exact abs_le.mpr (by omega)

/-- The scaled error. -/
theorem Input.Plain.abs_scaled_le (h : i.Plain c) :
    |i.epsilon.val * i.qv.val * 2 ^ c.gain_q_shift| ≤ 2 ^ 31 * |i.qv.val| := by
  have hpow : |(2 : ℤ) ^ c.gain_q_shift| = 2 ^ c.gain_q_shift := abs_of_pos (by positivity)
  calc |i.epsilon.val * i.qv.val * 2 ^ c.gain_q_shift|
      = |i.epsilon.val| * 2 ^ c.gain_q_shift * |i.qv.val| := by
        rw [abs_mul, abs_mul, hpow, mul_right_comm]
    _ ≤ 2 ^ 31 * |i.qv.val| := mul_le_mul_of_nonneg_right h.1 (abs_nonneg _)

/-- Over the square of the amplitude it is no greater than without the amplitude. -/
theorem Input.Plain.abs_quotient_le (h : i.Plain c) (hne : amplitude i ≠ 0) :
    |(i.epsilon.val * i.qv.val * 2 ^ c.gain_q_shift).tdiv (amplitude i)| ≤ 2 ^ 31 := by
  have hnonneg := amplitude_nonneg i
  refine abs_tdiv_le (by omega) (h.abs_scaled_le.trans (mul_le_mul_of_nonneg_left ?_ (by norm_num)))
  have hself : |i.qv.val| ≤ |i.qv.val| * |i.qv.val| := by
    rcases (abs_nonneg i.qv.val).eq_or_lt with hzero | hpos
    · rw [← hzero, zero_mul]
    · exact le_mul_of_one_le_left hpos.le hpos
  have hsquare := sq_nonneg i.v.val
  rw [abs_mul_abs_self, ← sq] at hself
  unfold amplitude
  omega

theorem abs_drive_le (hc : c.Plain) (h : i.Plain c) (hne : amplitude i ≠ 0) :
    |drive c s i| ≤ 2 ^ 31 * 2 ^ 31 := by
  have hgained : |s.omega_mradps.val * c.gain_q.val| ≤ 2 ^ 31 * 2 ^ c.gain_q_shift := by
    rw [abs_mul]
    exact mul_le_mul (abs_val_le _) hc.gain_le (abs_nonneg _) (by norm_num)
  rw [drive, abs_mul]
  exact mul_le_mul (abs_shiftRight_le hgained) (h.abs_quotient_le hne) (abs_nonneg _) (by norm_num)

/-- Inputs within these bounds allow every step. -/
theorem allows_of_plain (hc : c.Plain) (hs : InLimits c s) (h : i.Plain c) : Allows c s i := by
  refine ⟨h.2, ?_⟩
  split
  · exact hs
  · next hne =>
    have hscaled := h.abs_scaled_le
    have hqv := abs_val_le i.qv
    have hdrive := abs_drive_le (s := s) hc h hne
    have hdelta : |drive c s i >>> c.gain_q_shift| ≤ 2 ^ 31 * 2 ^ 31 :=
      abs_shiftRight_le (hdrive.trans (le_mul_of_one_le_right (by norm_num)
        (one_le_pow₀ (by norm_num))))
    have hlow := SInt.le_limit c.i_err_ordered (integral c s i)
    have hhigh := SInt.limit_le c.i_err_ordered (integral c s i)
    have hleast := hc.omega_least
    have hgreatest := hc.omega_greatest
    obtain ⟨hscaled₁, hscaled₂⟩ := abs_le.mp hscaled
    obtain ⟨hdrive₁, hdrive₂⟩ := abs_le.mp hdrive
    obtain ⟨hdelta₁, hdelta₂⟩ := abs_le.mp hdelta
    have hi_err := s.i_err_mradps.bounds
    refine ⟨fits64_iff.mpr (by omega), fits64_iff.mpr (by omega), fits64_iff.mpr (by omega), ?_,
      fits32_iff.mpr ?_⟩
    · rw [integral]
      exact fits64_iff.mpr (by omega)
    · rw [integralLimited]
      omega

/-- So the loop is right on every run of such inputs. -/
theorem succeeds_of_plain (hc : c.Plain) {is : List Input} (his : ∀ i ∈ is, i.Plain c) :
    Succeeds (cal c) (Right c) (reset c) is := by
  refine succeeds_of_steps (J := InLimits c) (fun s i hs hi => ?_)
    ⟨hc.omega_init, hc.i_err_zero⟩ his
  obtain ⟨r, hcal, hright⟩ := right_iff_allows.mpr (allows_of_plain hc hs hi)
  exact ⟨r, hcal, hright, hright.2⟩

end plain

/-! ### Runs -/

/-- A loop around 314.159 rad/s. -/
def mains : Inter where
  omega_init_mradps := ⟨314159, by decide⟩
  omega_max_mradps := ⟨377000, by decide⟩
  omega_min_mradps := ⟨251000, by decide⟩
  i_err_max_mradps := ⟨62800, by decide⟩
  i_err_min_mradps := ⟨-62800, by decide⟩
  gain_q := ⟨579, by decide⟩
  gain_q_shift := 13
  omega_ordered := by decide
  i_err_ordered := by decide
  shift_lt := by decide

example : mains.Plain := ⟨by decide, by decide, by decide, by decide, by decide⟩

/-- A sample, and one without an amplitude. -/
def demoInputs : List Input :=
  [⟨⟨10000, by decide⟩, ⟨2000, by decide⟩, ⟨300, by decide⟩⟩,
    ⟨⟨0, fits32_zero⟩, ⟨0, fits32_zero⟩, ⟨300, by decide⟩⟩]

theorem loop_exact_demo : Succeeds (cal mains) (Right mains) (reset mains) demoInputs ∧
    (demoInputs.foldl (fun s i => (exact mains s i).1) (reset mains)).omega_mradps.val = 314032 :=
  ⟨(loop_exact_iff mains demoInputs).mpr (by decide), by decide⟩

/-- **The amplitude of the two least inputs overflows.** -/
theorem loop_not_exact :
    ¬Succeeds (cal mains) (Right mains) (reset mains) [⟨.least 32, .least 32, ⟨0, by decide⟩⟩] := by
  rintro ⟨r, hcal, -⟩
  exact amplitude_fits_iff.mp (cal_eq_some.mp hcal).1 ⟨rfl, rfl⟩

end Atoman.Control.Fll
