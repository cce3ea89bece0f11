import Atoman.Lib.Transition
import Mathlib.Algebra.Order.Ring.Abs
import Mathlib.Algebra.Order.Ring.Int
import Mathlib.Tactic.NormNum

/-!
# Signed integers without overflow

A signed operation has a result only if the unbounded one fits the type. A step computed with such
operations is undefined, or it computes what the same formula gives over unbounded integers. A
condition on the steps that says when they are defined says so of whole runs.
-/

namespace Atoman.Lib
universe u v w'

/-- `z` is a value of the signed type of `w` bits. -/
def FitsSigned (w : ℕ) (z : ℤ) : Prop := -2 ^ (w - 1) ≤ z ∧ z < 2 ^ (w - 1)

instance (w : ℕ) (z : ℤ) : Decidable (FitsSigned w z) := inferInstanceAs (Decidable (_ ∧ _))

theorem fits32_iff {z : ℤ} : FitsSigned 32 z ↔ -2147483648 ≤ z ∧ z ≤ 2147483647 := by
  norm_num [FitsSigned]
  omega

theorem fits64_iff {z : ℤ} :
    FitsSigned 64 z ↔ -9223372036854775808 ≤ z ∧ z ≤ 9223372036854775807 := by
  norm_num [FitsSigned]
  omega

theorem fits32_zero : FitsSigned 32 0 := by decide

/-- A value of the signed type of `w` bits. -/
@[ext] structure SInt (w : ℕ) where
  val : ℤ
  fits : FitsSigned w val
deriving DecidableEq

namespace SInt
variable {w : ℕ}

instance : CoeOut (SInt w) ℤ := ⟨val⟩

/-! ## Limits -/

theorem two_pow_pos (w : ℕ) : (0 : ℤ) < 2 ^ (w - 1) := by positivity

/-- INT32_MIN and the like. -/
def least (w : ℕ) : SInt w := ⟨-2 ^ (w - 1), le_rfl, by have := two_pow_pos w; omega⟩

/-- INT32_MAX and the like. -/
def greatest (w : ℕ) : SInt w :=
  ⟨2 ^ (w - 1) - 1, by have := two_pow_pos w; omega, by omega⟩

/-- An unbounded value, limited. -/
def limit (lo hi : SInt w) (z : ℤ) : SInt w :=
  if _ : hi.val < z then hi
  else if _ : z < lo.val then lo
  else ⟨z, by have := lo.fits.1; omega, by have := hi.fits.2; omega⟩

/-- The nearest value of the type. -/
def sat (z : ℤ) : SInt w := limit (least w) (greatest w) z

section limit
variable {lo hi : SInt w} {z : ℤ}

theorem limit_of_gt (h : hi.val < z) : limit lo hi z = hi := dif_pos h

theorem limit_of_lt (h : z ≤ hi.val) (h' : z < lo.val) : limit lo hi z = lo := by
  rw [limit, dif_neg (Int.not_lt.mpr h), dif_pos h']

theorem limit_val (h : z ≤ hi.val) (h' : lo.val ≤ z) : (limit lo hi z).val = z := by
  rw [limit, dif_neg (Int.not_lt.mpr h), dif_neg (Int.not_lt.mpr h')]

theorem limit_cases (lo hi : SInt w) (z : ℤ) : (hi.val < z ∧ (limit lo hi z).val = hi.val) ∨
    (z ≤ hi.val ∧ z < lo.val ∧ (limit lo hi z).val = lo.val) ∨
    (z ≤ hi.val ∧ lo.val ≤ z ∧ (limit lo hi z).val = z) := by
  rcases lt_or_ge hi.val z with h | h
  · exact .inl ⟨h, by rw [limit_of_gt h]⟩
  rcases lt_or_ge z lo.val with h' | h'
  · exact .inr (.inl ⟨h, h', by rw [limit_of_lt h h']⟩)
  · exact .inr (.inr ⟨h, h', limit_val h h'⟩)

theorem le_limit (h : lo.val ≤ hi.val) (z : ℤ) : lo.val ≤ (limit lo hi z).val := by
  have := limit_cases lo hi z
  omega

theorem limit_le (h : lo.val ≤ hi.val) (z : ℤ) : (limit lo hi z).val ≤ hi.val := by
  have := limit_cases lo hi z
  omega

theorem sat_val (h : FitsSigned w z) : (sat z : SInt w).val = z :=
  limit_val (Int.le_sub_one_of_lt h.2) h.1

theorem sat_eq_least_iff : (sat z : SInt w) = least w ↔ z ≤ -2 ^ (w - 1) := by
  have hcases := limit_cases (least w) (greatest w) z
  have hmin : (least w).val = -2 ^ (w - 1) := rfl
  have hmax : (greatest w).val = 2 ^ (w - 1) - 1 := rfl
  have hpow := two_pow_pos w
  rw [SInt.ext_iff, sat]
  omega

/-- Saturation first makes no difference. -/
theorem limit_sat (h : lo.val ≤ hi.val) (z : ℤ) :
    limit lo hi (sat z : SInt w).val = limit lo hi z := by
  have hlo := lo.fits
  have hhi := hi.fits
  have hsat := limit_cases (least w) (greatest w) z
  have hleft := limit_cases lo hi (sat z : SInt w).val
  have hright := limit_cases lo hi z
  have hmin : (least w).val = -2 ^ (w - 1) := rfl
  have hmax : (greatest w).val = 2 ^ (w - 1) - 1 := rfl
  have hval : (sat z : SInt w) = limit (least w) (greatest w) z := rfl
  obtain ⟨hlo, hlo'⟩ := hlo
  obtain ⟨hhi, hhi'⟩ := hhi
  rw [SInt.ext_iff]
  rw [hval] at hleft ⊢
  omega

end limit
end SInt

/-! ## Products -/

theorem SInt.bounds (a : SInt 32) : -2147483648 ≤ a.val ∧ a.val ≤ 2147483647 := fits32_iff.mp a.fits

theorem SInt.fits64 (a : SInt 32) : FitsSigned 64 a.val := by
  have := a.bounds
  exact fits64_iff.mpr (by omega)

/-- The value as one of 64 bits. -/
def SInt.widen (a : SInt 32) : SInt 64 := ⟨a.val, a.fits64⟩

theorem SInt.widen_val (a : SInt 32) : a.widen.val = a.val := rfl

theorem SInt.abs_mul_le (a b : SInt 32) : |a.val * b.val| ≤ 4611686018427387904 := by
  have ha : |a.val| ≤ 2147483648 := abs_le.mpr (by have := a.bounds; omega)
  have hb : |b.val| ≤ 2147483648 := abs_le.mpr (by have := b.bounds; omega)
  rw [abs_mul]
  exact mul_le_mul ha hb (abs_nonneg _) (by norm_num)

/-- A product of two 32-bit values fits 64 bits. -/
theorem SInt.fits_mul (a b : SInt 32) : FitsSigned 64 (a.val * b.val) := by
  have := abs_le.mp (SInt.abs_mul_le a b)
  exact fits64_iff.mpr (by omega)

/-! ## Checked operations -/

section checked
variable {w : ℕ} {z : ℤ}

/-- The result of a signed operation whose unbounded result is `z`. -/
def checked (w : ℕ) (z : ℤ) : Option (SInt w) := if h : FitsSigned w z then some ⟨z, h⟩ else none

theorem checked_of_fits (h : FitsSigned w z) : checked w z = some ⟨z, h⟩ := dif_pos h

theorem checked_eq_some {r : SInt w} : checked w z = some r ↔ r.val = z := by
  constructor
  · intro h
    rw [checked] at h
    split at h
    · exact (congrArg SInt.val (Option.some.inj h)).symm
    · exact nomatch h
  · rintro rfl
    exact checked_of_fits r.fits

theorem checked_bind_eq_some {β : Type} {f : SInt w → Option β} {b : β} :
    (checked w z >>= f) = some b ↔ ∃ h : FitsSigned w z, f ⟨z, h⟩ = some b := by
  by_cases h : FitsSigned w z
  · rw [checked_of_fits h]
    exact ⟨fun hf => ⟨h, hf⟩, fun ⟨_, hf⟩ => hf⟩
  · rw [checked, dif_neg h]
    exact ⟨fun hf => (nomatch hf), fun ⟨h', _⟩ => (h h').elim⟩

theorem checked_bind {β : Type} {f : SInt w → Option β} (h : FitsSigned w z) :
    (checked w z >>= f) = f ⟨z, h⟩ := by
  rw [checked_of_fits h]
  rfl

/-- A quotient, rounded to zero. -/
def checkedDiv (a b : SInt w) : Option (SInt w) :=
  if b.val = 0 then none else checked w (a.val.tdiv b)

/-- By a positive value a quotient is defined. -/
theorem SInt.fits_tdiv (a : SInt w) {b : ℤ} (hb : 0 < b) : FitsSigned w (a.val.tdiv b) := by
  obtain ⟨hlo, hhi⟩ := a.fits
  rcases Int.le_total 0 a.val with hpos | hneg
  · have hle := Int.tdiv_le_self b hpos
    have hge := Int.tdiv_nonneg hpos hb.le
    exact ⟨by omega, by omega⟩
  · have hpos : 0 ≤ -a.val := by omega
    have hle := Int.tdiv_le_self b hpos
    have hge := Int.tdiv_nonneg hpos hb.le
    rw [Int.neg_tdiv] at hle hge
    exact ⟨by omega, by have := SInt.two_pow_pos w; omega⟩

/-- Only the least value by `-1` is too great. -/
theorem SInt.fits_tdiv_iff (a b : SInt w) :
    FitsSigned w (a.val.tdiv b.val) ↔ ¬(a = SInt.least w ∧ b.val = -1) := by
  have hmin : (SInt.least w).val = -2 ^ (w - 1) := rfl
  have hpow := SInt.two_pow_pos w
  obtain ⟨hlo, hhi⟩ := a.fits
  have hle := Int.natAbs_tdiv_le_natAbs a.val b.val
  rw [SInt.ext_iff, hmin]
  constructor
  · rintro ⟨-, h⟩ ⟨ha, hb⟩
    rw [ha, hb, Int.tdiv_neg, Int.tdiv_one] at h
    omega
  · intro h
    refine ⟨by omega, ?_⟩
    by_contra hge
    have ha : a.val = -2 ^ (w - 1) := by omega
    have hquotient : a.val.tdiv b.val = -a.val := by omega
    have habs : a.val.natAbs / b.val.natAbs = a.val.natAbs := by
      have := Int.natAbs_tdiv a.val b.val
      rw [hquotient, Int.natAbs_neg] at this
      exact this.symm
    rcases Nat.div_eq_self.mp habs with hzero | hone
    · omega
    · rcases Int.natAbs_eq_iff.mp hone with hb | hb
      · rw [hb, Int.natCast_one, Int.tdiv_one] at hquotient
        omega
      · exact h ⟨ha, hb⟩

theorem checkedDiv_bind_of_pos {β : Type} {f : SInt w → Option β} {a b : SInt w}
    (hb : 0 < b.val) : (checkedDiv a b >>= f) = f ⟨a.val.tdiv b, a.fits_tdiv hb⟩ := by
  rw [checkedDiv, if_neg hb.ne', checked_bind]

end checked

/-! ## Runs -/

section runs
variable {σ : Type u} {ι : Type v} {ο : Type w'}

/-- Every input is taken, and what it leads to is as `R` says. -/
def Succeeds (cal : σ → ι → Option (σ × ο)) (R : σ → ι → σ × ο → Prop) : σ → List ι → Prop
  | _, [] => True
  | s, i :: is => ∃ r, cal s i = some r ∧ R s i r ∧ Succeeds cal R r.1 is

variable {cal : σ → ι → Option (σ × ο)} {R : σ → ι → σ × ο → Prop} {exact : σ → ι → σ × ο}
  {P : σ → ι → Prop} {J : σ → Prop}

/-- **From a step to runs**: if `P` says which steps are taken as they should be, and these lead
where `exact` leads, then `P` of each step of the exact run says which runs are. -/
theorem succeeds_iff (hstep : ∀ s i, J s → ((∃ r, cal s i = some r ∧ R s i r) ↔ P s i))
    (hexact : ∀ s i r, J s → cal s i = some r → r.1 = (exact s i).1)
    (hkeeps : ∀ s i r, J s → cal s i = some r → R s i r → J r.1) {s : σ} (hs : J s)
    (is : List ι) :
    Succeeds cal R s is ↔ Transition.Admits (fun s i => (exact s i).1) P s is := by
  induction is generalizing s with
  | nil => exact Iff.rfl
  | cons i is ih =>
    constructor
    · rintro ⟨r, hcal, hr, hrest⟩
      refine ⟨(hstep s i hs).mp ⟨r, hcal, hr⟩, ?_⟩
      show Transition.Admits _ P (exact s i).1 is
      rw [← hexact s i r hs hcal]
      exact (ih (hkeeps s i r hs hcal hr)).mp hrest
    · rintro ⟨hp, hrest⟩
      obtain ⟨r, hcal, hr⟩ := (hstep s i hs).mpr hp
      refine ⟨r, hcal, hr, (ih (hkeeps s i r hs hcal hr)).mpr ?_⟩
      rw [hexact s i r hs hcal]
      exact hrest

/-- Where every step is taken as it should be, so is every run. -/
theorem succeeds_of_steps {I : ι → Prop}
    (hstep : ∀ s i, J s → I i → ∃ r, cal s i = some r ∧ R s i r ∧ J r.1) {s : σ} (hs : J s)
    {is : List ι} (his : ∀ i ∈ is, I i) : Succeeds cal R s is := by
  induction is generalizing s with
  | nil => trivial
  | cons i is ih =>
    obtain ⟨r, hcal, hr, hinv⟩ := hstep s i hs (his i List.mem_cons_self)
    exact ⟨r, hcal, hr, ih hinv fun j hj => his j (List.mem_cons_of_mem i hj)⟩

/-- What the steps of a run add up to. -/
def sumAlong (next : σ → ι → σ) (f : σ → ι → ℤ) : σ → List ι → ℤ
  | _, [] => 0
  | s, i :: is => f s i + sumAlong next f (next s i) is

/-- **A carry is not lost**: if each step gives out, times `m`, what it takes in and what was
carried before, less what it carries on, so does the run. -/
theorem sumAlong_carry {next : σ → ι → σ} {given taken : σ → ι → ℤ} (carried : σ → ℤ) {m : ℤ}
    (hstep : ∀ s i, P s i → given s i * m + carried (next s i) = taken s i + carried s) {s : σ}
    {is : List ι} (h : Transition.Admits next P s is) :
    sumAlong next given s is * m + carried (is.foldl next s) =
      sumAlong next taken s is + carried s := by
  induction is generalizing s with
  | nil => simp [sumAlong]
  | cons i is ih =>
    have hfirst := hstep s i h.1
    have hrest := ih h.2
    simp only [sumAlong, List.foldl_cons, add_mul]
    omega

end runs
end Atoman.Lib
