import Atoman.Lib.SignedInteger
import Mathlib.Algebra.Order.Ring.Abs
import Mathlib.Algebra.Order.Ring.Int
import Mathlib.Tactic.NormNum

/-!
# The integer PI controller

`pi_tustin_i32`: the coefficients stored for integer gain terms, the calculation with its
anti-windup back-calculation, and the fast routine for `a1 = -1`. Every signed operation is
checked, and the calculation is compared with the recurrence over unbounded integers.
-/

namespace Atoman.Control.PiTustin
open Lib

/-! ## The program -/

/-- `PI_TUSTIN_STATUS_E` as the calculation returns it -/
inductive Status
  | normal
  | posSaturation
  | negSaturation
deriving DecidableEq

/-- The coefficients. -/
structure Coeff where
  a1 : SInt 32
  b0 : SInt 32
  b1 : SInt 32

/-- The limits, as `pi_tustin_i32_init` accepts them. -/
structure Limits where
  up_lmt : SInt 32
  dn_lmt : SInt 32
  ordered : dn_lmt.val ≤ up_lmt.val

/-- `inter.e`, `inter.u` and `output.val` -/
@[ext] structure State where
  e0 : SInt 32
  e1 : SInt 32
  u0 : SInt 32
  u1 : SInt 32
  val : SInt 32
deriving DecidableEq

/-- `*input.p_ref` and `*input.p_act` -/
structure Input where
  ref : SInt 32
  act : SInt 32

/-- `pi_tustin_i32_sat_i64_to_i32` -/
def satI64ToI32 (val : SInt 64) : SInt 32 := SInt.sat val

/-- `pi_tustin_i32_div_i64_sat_i32` -/
def divI64SatI32 (numerator : SInt 64) (denominator : SInt 32) : Option (SInt 32) :=
  if denominator.val = 0 then some (satI64ToI32 numerator)
  else checkedDiv (satI64ToI32 numerator) denominator

/-- `pi_tustin_i32_div2_i64_to_i32` -/
def div2I64ToI32 (val : SInt 64) : Option (SInt 32) :=
  if val = .least 64 then some (.least 32)
  else if val.val < 0 then do
    let negated ← checked 64 (-val.val)
    let half ← checked 64 (-(negated.val >>> (1 : ℕ)))
    return satI64ToI32 half
  else do
    let half ← checked 64 (val.val >>> (1 : ℕ))
    return satI64ToI32 half

/-- `pi_tustin_i32_update` from the gain terms on; `none` is a coefficient set that is refused. -/
def update (kp_term ki_ts_term : SInt 64) : Option Coeff :=
  if kp_term.val ≤ ki_ts_term.val then none
  else do
    let n0 ← checked 64 (ki_ts_term.val + kp_term)
    let n1 ← checked 64 (ki_ts_term.val - kp_term)
    let b0 ← div2I64ToI32 n0
    let b1 ← div2I64ToI32 n1
    return ⟨⟨-1, by decide⟩, b0, b1⟩

/-- `pi_tustin_i32_reset` -/
def reset : State :=
  let zero : SInt 32 := ⟨0, fits32_zero⟩
  ⟨zero, zero, zero, zero, zero⟩

section cal
variable (k : Coeff) (l : Limits)

/-- The value within the limits, and how it got there. -/
def saturate (val : SInt 64) : SInt 64 × Status :=
  if l.up_lmt.val < val.val then (l.up_lmt.widen, .posSaturation)
  else if val.val < l.dn_lmt.val then (l.dn_lmt.widen, .negSaturation)
  else (val, .normal)

/-- `pi_tustin_i32_cal_inline` -/
def calInline (s : State) (i : Input) : Option (State × Status) := do
  let error ← checked 64 (i.ref.val - i.act)
  let e0 := satI64ToI32 error
  let u1 := s.u0
  let p0 ← checked 64 (k.b0.val * e0)
  let p1 ← checked 64 (k.b1.val * s.e1)
  let sum ← checked 64 (p0.val + p1)
  let feedback ← checked 64 (k.a1.val * u1)
  let raw ← checked 64 (sum.val - feedback)
  let (val, status) := saturate l raw
  let e1 ←
    if val.val = l.up_lmt ∨ val.val = l.dn_lmt then
      if k.b1.val = 0 then pure e0
      else do
        let part ← checked 64 (val.val - p0)
        let anti_windup ← checked 64 (part.val + feedback)
        divI64SatI32 anti_windup k.b1
    else pure e0
  let u0 ← checked 32 val
  return (⟨e0, e1, u0, u1, u0⟩, status)

/-- `pi_tustin_i32_cal_a1_neg1_inline` -/
def calA1Neg1Inline (s : State) (i : Input) : Option (State × Status) := do
  let error ← checked 64 (i.ref.val - i.act)
  let e0 := satI64ToI32 error
  let u1 := s.u0
  let p0 ← checked 64 (k.b0.val * e0)
  let p1 ← checked 64 (k.b1.val * s.e1)
  let sum ← checked 64 (p0.val + p1)
  let raw ← checked 64 (sum.val + u1)
  let (val, status) := saturate l raw
  let e1 ←
    if val.val = l.up_lmt ∨ val.val = l.dn_lmt then
      if k.b1.val = 0 then pure e0
      else do
        let part ← checked 64 (val.val - p0)
        let anti_windup ← checked 64 (part.val - u1)
        divI64SatI32 anti_windup k.b1
    else pure e0
  let u0 ← checked 32 val
  return (⟨e0, e1, u0, u1, u0⟩, status)

end cal

/-! ## The recurrence -/

section exact
variable (k : Coeff) (l : Limits) (s : State) (i : Input)

/-- The error, limited to 32 bits. -/
def error (i : Input) : SInt 32 := SInt.sat (i.ref.val - i.act)

/-- The output over unbounded integers, before its limits. -/
def unlimited : ℤ := k.b0.val * error i + k.b1.val * s.e1 + s.u0

/-- The output within its limits. -/
def limited : SInt 32 := SInt.limit l.dn_lmt l.up_lmt (unlimited k s i)

/-- The output is at a limit. -/
def AtLimit : Prop := limited k l s i = l.up_lmt ∨ limited k l s i = l.dn_lmt

instance : Decidable (AtLimit k l s i) := inferInstanceAs (Decidable (_ ∨ _))

/-- What the past error is worth if the output is taken as right. -/
def windup : ℤ := (limited k l s i).val - k.b0.val * error i - s.u0

/-- The error that is remembered. -/
def remembered : SInt 32 :=
  if AtLimit k l s i ∧ k.b1.val ≠ 0 then
    SInt.sat ((SInt.sat (windup k l s i) : SInt 32).val.tdiv k.b1)
  else error i

/-- Whether the output was limited. -/
def statusOf : Status :=
  if l.up_lmt.val < unlimited k s i then .posSaturation
  else if unlimited k s i < l.dn_lmt.val then .negSaturation
  else .normal

/-- A step over unbounded integers. -/
def exact : State × Status :=
  (⟨error i, remembered k l s i, limited k l s i, s.u0, limited k l s i⟩, statusOf k l s i)

/-- The one quotient that does not fit, INT32_MIN by `-1`, is not asked for. -/
def Allows : Prop :=
  ¬(k.b1.val = -1 ∧ AtLimit k l s i ∧ windup k l s i ≤ -2 ^ 31)

instance : Decidable (Allows k l s i) := inferInstanceAs (Decidable (¬_))

end exact
/-! ## The stored coefficients -/

/-- What `pi_tustin_i32_update` leaves. -/
structure Stored (k : Coeff) : Prop where
  a1 : k.a1.val = -1
  b0 : 0 ≤ k.b0.val

theorem half_eq (z : ℤ) : z >>> (1 : ℕ) = z / 2 := by
  rw [Int.shiftRight_eq_div_pow]
  rfl

/-- The half of a sum of gain terms, saturated. -/
theorem div2I64ToI32_of_nonneg {val : SInt 64} (h : 0 ≤ val.val) :
    div2I64ToI32 val = some (SInt.sat (val.val / 2)) := by
  have hmin : val ≠ .least 64 := by
    rintro rfl
    exact absurd h (by decide)
  have hval := fits64_iff.mp val.fits
  have hhalf : FitsSigned 64 (val.val / 2) := fits64_iff.mpr (by omega)
  rw [div2I64ToI32, if_neg hmin, if_neg (Int.not_lt.mpr h)]
  simp only [half_eq, checked_bind hhalf]
  rfl

/-- The half of a difference, rounded to zero. -/
theorem div2I64ToI32_of_neg {val : SInt 64} (h : val.val < 0) (hmin : -2 ^ 63 < val.val) :
    div2I64ToI32 val = some (SInt.sat (-(-val.val / 2))) := by
  have hmin : val ≠ .least 64 := by
    rintro rfl
    exact absurd hmin (by decide)
  have hval := fits64_iff.mp val.fits
  have hneg : FitsSigned 64 (-val.val) := fits64_iff.mpr (by omega)
  have hhalf : FitsSigned 64 (-(-val.val / 2)) := fits64_iff.mpr (by omega)
  rw [div2I64ToI32, if_neg hmin, if_pos h]
  simp only [half_eq, checked_bind hneg, checked_bind hhalf]
  rfl

section update
variable {kp_term ki_ts_term : SInt 64} (hki : 0 ≤ ki_ts_term.val)
  (hlt : ki_ts_term.val < kp_term.val) (hkp : kp_term.val < 2 ^ 62)
include hki hlt hkp

/-- The saturated halves of the sum and the difference of the gain terms. -/
theorem update_eq : update kp_term ki_ts_term = some ⟨⟨-1, by decide⟩,
    SInt.sat ((ki_ts_term.val + kp_term) / 2), SInt.sat (-((kp_term.val - ki_ts_term) / 2))⟩ := by
  have hsum : FitsSigned 64 (ki_ts_term.val + kp_term) := fits64_iff.mpr (by omega)
  have hdiff : FitsSigned 64 (ki_ts_term.val - kp_term) := fits64_iff.mpr (by omega)
  rw [update, if_neg (Int.not_le.mpr hlt), checked_bind hsum, checked_bind hdiff,
    div2I64ToI32_of_nonneg (show 0 ≤ ki_ts_term.val + kp_term.val by omega),
    div2I64ToI32_of_neg (show ki_ts_term.val - kp_term.val < 0 by omega)
      (show -2 ^ 63 < ki_ts_term.val - kp_term.val by omega)]
  simp only [Int.neg_sub]
  rfl

theorem stored_of_update {k : Coeff} (h : update kp_term ki_ts_term = some k) : Stored k := by
  rw [update_eq hki hlt hkp] at h
  obtain rfl := Option.some.inj h
  refine ⟨rfl, ?_⟩
  have hcases := SInt.limit_cases (.least 32) (.greatest 32) ((ki_ts_term.val + kp_term.val) / 2)
  have hmin : (SInt.least 32).val = -2 ^ 31 := rfl
  have hmax : (SInt.greatest 32).val = 2 ^ 31 - 1 := rfl
  show 0 ≤ (SInt.limit _ _ _).val
  omega

end update

/-! ## One step -/

section step
variable {k : Coeff} {l : Limits} {s : State} {i : Input}

/-- The largest sum of products and output comes within one of the 64-bit limits. -/
theorem sums_fit (h : Stored k) (s : State) (i : Input) :
    FitsSigned 64 (k.b0.val * error i + k.b1.val * s.e1) ∧
      FitsSigned 64 (k.b0.val * error i + k.b1.val * s.e1 - k.a1.val * s.u0) ∧
      ∀ a : SInt 32, FitsSigned 64 (a.val - k.b0.val * error i) ∧
        FitsSigned 64 (a.val - k.b0.val * error i + k.a1.val * s.u0) := by
  have hb := k.b0.bounds
  have he := (error i).bounds
  have hp0 : |k.b0.val * (error i).val| ≤ 4611686016279904256 := by
    have hb0 : |k.b0.val| ≤ 2147483647 := abs_le.mpr (by have := h.b0; omega)
    have he0 : |(error i).val| ≤ 2147483648 := abs_le.mpr (by omega)
    rw [abs_mul]
    exact mul_le_mul hb0 he0 (abs_nonneg _) (by norm_num)
  have hp0 := abs_le.mp hp0
  have hp1 := abs_le.mp (SInt.abs_mul_le k.b1 s.e1)
  have hu := s.u0.bounds
  rw [h.a1]
  refine ⟨fits64_iff.mpr (by omega), fits64_iff.mpr (by omega), fun a => ?_⟩
  have ha := a.bounds
  exact ⟨fits64_iff.mpr (by omega), fits64_iff.mpr (by omega)⟩

theorem saturate_eq (raw : SInt 64) : saturate l raw =
    ((SInt.limit l.dn_lmt l.up_lmt raw.val).widen,
      if l.up_lmt.val < raw.val then .posSaturation
      else if raw.val < l.dn_lmt.val then .negSaturation else .normal) := by
  unfold saturate
  split
  · next hgt => rw [SInt.limit_of_gt hgt]
  · next hle =>
    split
    · next hlt => rw [SInt.limit_of_lt (Int.not_lt.mp hle) hlt]
    · next hge =>
      congr 1
      exact SInt.ext (SInt.limit_val (Int.not_lt.mp hle) (Int.not_lt.mp hge)).symm

/-- The fast routine takes the same products apart from the one by `a1`. -/
theorem calA1Neg1Inline_eq (h : k.a1.val = -1) : calA1Neg1Inline k l s i = calInline k l s i := by
  have hfeedback : FitsSigned 64 (-s.u0.val) := by
    have := k.a1.fits_mul s.u0
    rwa [h, neg_one_mul] at this
  unfold calA1Neg1Inline calInline
  simp only [h, neg_one_mul, checked_bind hfeedback, sub_neg_eq_add, ← sub_eq_add_neg]

/-- The checked difference of reference and actual value, saturated, is the error. -/
theorem error_eq (h : FitsSigned 64 (i.ref.val - i.act.val)) :
    satI64ToI32 ⟨i.ref.val - i.act.val, h⟩ = error i := rfl

theorem cal_eq_some (h : Stored k) {r : State × Status} :
    calInline k l s i = some r ↔ Allows k l s i ∧ r = exact k l s i := by
  have herror : FitsSigned 64 (i.ref.val - i.act.val) := by
    have hr := i.ref.bounds
    have ha := i.act.bounds
    exact fits64_iff.mpr (by omega)
  obtain ⟨hsum, hraw, hanti⟩ := sums_fit h s i
  have hval : k.b0.val * error i + k.b1.val * s.e1 - k.a1.val * s.u0 = unlimited k s i := by
    simp only [unlimited, h.a1]
    omega
  rw [hval] at hraw
  have hlimited : SInt.limit l.dn_lmt l.up_lmt (unlimited k s i) = limited k l s i := rfl
  have hat : (limited k l s i).val = l.up_lmt.val ∨ (limited k l s i).val = l.dn_lmt.val ↔
      AtLimit k l s i := by
    rw [AtLimit, SInt.ext_iff, SInt.ext_iff]
  unfold calInline
  simp only [checked_bind herror, error_eq, checked_bind (k.b0.fits_mul (error i)),
    checked_bind (k.b1.fits_mul s.e1), checked_bind hsum, checked_bind (k.a1.fits_mul s.u0),
    checked_bind hraw, saturate_eq, hval, hlimited, SInt.widen_val, hat, pure_bind,
    checked_bind (limited k l s i).fits]
  have hresult {e1 : SInt 32} (he : remembered k l s i = e1) :
      some ((⟨error i, e1, limited k l s i, s.u0, limited k l s i⟩ : State),
        statusOf k l s i) = some r ↔ r = exact k l s i := by
    rw [exact, he, Option.some.injEq, eq_comm]
  by_cases hlimit : AtLimit k l s i
  · rw [if_pos hlimit]
    by_cases hb : k.b1.val = 0
    · have hallows : Allows k l s i := fun hbad => by omega
      rw [if_pos hb]
      exact (hresult (if_neg fun hboth => hboth.2 hb)).trans (iff_and_self.mpr fun _ => hallows)
    · obtain ⟨hpart, hwindup⟩ := hanti (limited k l s i)
      have heq : (limited k l s i).val - k.b0.val * error i + k.a1.val * s.u0 =
          windup k l s i := by
        simp only [windup, h.a1]
        omega
      rw [heq] at hwindup
      have hquotient : divI64SatI32 ⟨windup k l s i, hwindup⟩ k.b1 =
          checked 32 ((SInt.sat (windup k l s i) : SInt 32).val.tdiv k.b1) := by
        rw [divI64SatI32, if_neg hb, checkedDiv, if_neg hb]
        rfl
      have hfits : FitsSigned 32 ((SInt.sat (windup k l s i) : SInt 32).val.tdiv k.b1) ↔
          Allows k l s i := by
        rw [SInt.fits_tdiv_iff, SInt.sat_eq_least_iff, Allows]
        exact not_congr ⟨fun hboth => ⟨hboth.2, hlimit, hboth.1⟩, fun hall => ⟨hall.2.2, hall.1⟩⟩
      simp only [if_neg hb, checked_bind hpart, heq, checked_bind hwindup, hquotient,
        checked_bind_eq_some, ← hfits]
      have hremembered (hq : FitsSigned 32 ((SInt.sat (windup k l s i) : SInt 32).val.tdiv k.b1)) :
          remembered k l s i = ⟨_, hq⟩ := by
        rw [remembered, if_pos ⟨hlimit, hb⟩]
        exact SInt.ext (SInt.sat_val hq)
      constructor
      · rintro ⟨hq, hr⟩
        exact ⟨hq, (hresult (hremembered hq)).mp hr⟩
      · rintro ⟨hq, hr⟩
        exact ⟨hq, (hresult (hremembered hq)).mpr hr⟩
  · have hallows : Allows k l s i := fun hbad => hlimit hbad.2.1
    rw [if_neg hlimit]
    exact (hresult (if_neg fun hboth => hlimit hboth.1)).trans (iff_and_self.mpr fun _ => hallows)

/-- What a step promises: the output of the recurrence, within the limits, the status, and the
same from the fast routine. -/
def Right (k : Coeff) (l : Limits) (s : State) (i : Input) (r : State × Status) : Prop :=
  r = exact k l s i ∧ (l.dn_lmt.val ≤ r.1.val.val ∧ r.1.val.val ≤ l.up_lmt.val) ∧
    calA1Neg1Inline k l s i = some r

theorem right_iff_allows (h : Stored k) :
    (∃ r, calInline k l s i = some r ∧ Right k l s i r) ↔ Allows k l s i := by
  constructor
  · rintro ⟨r, hcal, -⟩
    exact ((cal_eq_some h).mp hcal).1
  · intro hallows
    have hcal := (cal_eq_some h).mpr ⟨hallows, rfl⟩
    exact ⟨_, hcal, rfl, ⟨SInt.le_limit l.ordered _, SInt.limit_le l.ordered _⟩,
      (calA1Neg1Inline_eq h.a1).trans hcal⟩

end step

/-! ## Runs -/

/-- **The controller over unbounded integers**, exactly in the runs that never divide the least
numerator by `-1`. -/
theorem controller_exact_iff {kp_term ki_ts_term : SInt 64} {k : Coeff} (hki : 0 ≤ ki_ts_term.val)
    (hlt : ki_ts_term.val < kp_term.val) (hkp : kp_term.val < 2 ^ 62)
    (hk : update kp_term ki_ts_term = some k) (l : Limits) (is : List Input) :
    Succeeds (calInline k l) (Right k l) reset is ↔
      Transition.Admits (fun s i => (exact k l s i).1) (Allows k l) reset is := by
  have h := stored_of_update hki hlt hkp hk
  exact succeeds_iff (J := fun _ => True) (fun _ _ _ => right_iff_allows h)
    (fun _ _ _ _ hcal => congrArg Prod.fst ((cal_eq_some h).mp hcal).2) (fun _ _ _ _ _ _ => trivial)
    trivial is

/-- The gain terms 3 and 1: `b0 = 2` and `b1 = -1`. -/
def steep : Coeff := ⟨⟨-1, by decide⟩, ⟨2, by decide⟩, ⟨-1, by decide⟩⟩

theorem update_steep : update ⟨3, by decide⟩ ⟨1, by decide⟩ = some steep :=
  update_eq (by decide) (by decide) (by decide)

/-- Limits of one hundred. -/
def hundred : Limits := ⟨⟨100, by decide⟩, ⟨-100, by decide⟩, by decide⟩

/-- A small error, twice. -/
def smallErrors : List Input :=
  [⟨⟨10, by decide⟩, ⟨7, by decide⟩⟩, ⟨⟨10, by decide⟩, ⟨8, by decide⟩⟩]

theorem controller_exact_small : Succeeds (calInline steep hundred) (Right steep hundred) reset
    smallErrors :=
  (controller_exact_iff (by decide) (by decide) (by decide) update_steep hundred smallErrors).mpr
    (by decide)

/-- **The greatest error overflows the quotient.** -/
theorem controller_not_exact : update ⟨3, by decide⟩ ⟨1, by decide⟩ = some steep ∧
    ¬Succeeds (calInline steep hundred) (Right steep hundred) reset
      [⟨.greatest 32, ⟨0, by decide⟩⟩] := by
  refine ⟨update_steep, ?_⟩
  rintro ⟨r, hcal, -⟩
  exact ((cal_eq_some ⟨rfl, by decide⟩).mp hcal).1 (by decide)

end Atoman.Control.PiTustin
