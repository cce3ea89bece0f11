import Atoman.Lib.SignedInteger
import Mathlib.Algebra.Order.BigOperators.Group.List
import Mathlib.Data.List.Induction

/-!
# The integer filters

The all-pass and the resonant filter keep what a shift leaves behind for the next sample; the notch
filter and the SOGI drop it. Every signed operation is checked. Over unbounded integers the output
is the accumulator, floored by the shift and limited to 32 bits.
-/

namespace Atoman.Control
open Lib

/-! ## Sums of products -/

/-- A product that is added to the sum, or subtracted. -/
structure Term where
  coeff : SInt 32
  sample : SInt 32
  negative : Bool := false

/-- One more product, in 64 bits. -/
def addTerm (sum : SInt 64) (t : Term) : Option (SInt 64) := do
  let product ← checked 64 (t.coeff.val * t.sample)
  checked 64 (if t.negative then sum.val - product else sum.val + product)

/-- The products one after the other. -/
def accumulate (terms : List Term) : Option (SInt 64) := terms.foldlM addTerm ⟨0, by decide⟩

def Term.value (t : Term) : ℤ :=
  if t.negative then -(t.coeff.val * t.sample) else t.coeff.val * t.sample

/-- The sum over unbounded integers. -/
def total (terms : List Term) : ℤ := (terms.map Term.value).sum

/-- The sum after each product fits 64 bits. -/
def PartialSumsFit (terms : List Term) : Prop :=
  ∀ n ≤ terms.length, FitsSigned 64 (total (terms.take n))

instance (terms : List Term) : Decidable (PartialSumsFit terms) :=
  inferInstanceAs (Decidable (∀ n ≤ _, _))

/-- No sum overflows, nor does that with what is left of the sample before. -/
def AccumulatorFits (terms : List Term) (residual : SInt 64) : Prop :=
  PartialSumsFit terms ∧ FitsSigned 64 (total terms + residual)

instance (terms : List Term) (residual : SInt 64) : Decidable (AccumulatorFits terms residual) :=
  inferInstanceAs (Decidable (_ ∧ _))

section accumulate
variable {terms : List Term} {r : SInt 64}

theorem addTerm_eq_some {a : SInt 64} {t : Term} :
    addTerm a t = some r ↔ r.val = a.val + t.value := by
  rw [addTerm, checked_bind (t.coeff.fits_mul t.sample), checked_eq_some, Term.value]
  split <;> rfl

theorem total_concat (terms : List Term) (t : Term) :
    total (terms ++ [t]) = total terms + t.value := by
  simp [total]

theorem partialSumsFit_concat (t : Term) : PartialSumsFit (terms ++ [t]) ↔
    PartialSumsFit terms ∧ FitsSigned 64 (total (terms ++ [t])) := by
  constructor
  · intro h
    refine ⟨fun n hn => ?_, ?_⟩
    · have := h n (by simp; omega)
      rwa [List.take_append_of_le_length hn] at this
    · have := h (terms ++ [t]).length (Nat.le_refl _)
      rwa [List.take_length] at this
  · rintro ⟨h, hlast⟩ n hn
    rcases Nat.lt_or_ge terms.length n with hlt | hle
    · rw [List.take_of_length_le (by simp; omega)]
      exact hlast
    · rw [List.take_append_of_le_length hle]
      exact h n hle

/-- The sum is defined exactly if every partial sum fits. -/
theorem accumulate_eq_some :
    accumulate terms = some r ↔ PartialSumsFit terms ∧ r.val = total terms := by
  induction terms using List.reverseRecOn generalizing r with
  | nil =>
    have hzero : PartialSumsFit [] := fun n _ => fits64_iff.mpr (by simp [total])
    simp [accumulate, hzero, total, SInt.ext_iff, eq_comm]
  | append_singleton terms t ih =>
    have hsplit : accumulate (terms ++ [t]) = some r ↔
        ∃ a, accumulate terms = some a ∧ r.val = a.val + t.value := by
      simp only [accumulate, List.foldlM_append, List.foldlM_cons, List.foldlM_nil, bind_pure,
        Option.bind_eq_bind, Option.bind_eq_some_iff, addTerm_eq_some]
    rw [hsplit, partialSumsFit_concat, total_concat]
    constructor
    · rintro ⟨a, ha, hr⟩
      obtain ⟨hfit, htotal⟩ := ih.mp ha
      rw [← htotal, ← hr]
      exact ⟨⟨hfit, r.fits⟩, rfl⟩
    · rintro ⟨⟨hfit, -⟩, hr⟩
      have hlast := hfit terms.length (Nat.le_refl _)
      rw [List.take_length] at hlast
      exact ⟨⟨total terms, hlast⟩, ih.mpr ⟨hfit, rfl⟩, hr⟩

theorem exists_accumulate (h : PartialSumsFit terms) :
    ∃ sum, accumulate terms = some sum ∧ sum.val = total terms := by
  have hlast := h terms.length (Nat.le_refl _)
  rw [List.take_length] at hlast
  exact ⟨⟨total terms, hlast⟩, accumulate_eq_some.mpr ⟨h, rfl⟩, rfl⟩

theorem abs_total_le (terms : List Term) : |total terms| ≤ (terms.map fun t => |t.value|).sum := by
  rw [total]
  induction terms with
  | nil => simp
  | cons t ts ih =>
    simp only [List.map_cons, List.sum_cons]
    exact (abs_add_le _ _).trans (add_le_add_right ih _)

/-- Sums of magnitudes that fit are enough. -/
theorem partialSumsFit_of_bound (h : (terms.map fun t => |t.value|).sum ≤ 9223372036854775807) :
    PartialSumsFit terms := by
  intro n _
  have habs := abs_total_le (terms.take n)
  have hle : ((terms.take n).map fun t => |t.value|).sum ≤ (terms.map fun t => |t.value|).sum :=
    ((List.take_sublist n terms).map _).sum_le_sum fun x hx => by
      obtain ⟨t, -, rfl⟩ := List.mem_map.mp hx
      exact abs_nonneg _
  have := abs_le.mp (habs.trans (hle.trans h))
  exact fits64_iff.mpr (by omega)

/-- No sum overflows if the magnitudes and the residual fit. -/
theorem accumulatorFits_of_bound {residual : SInt 64}
    (h : (terms.map fun t => |t.value|).sum + |residual.val| ≤ 9223372036854775807) :
    AccumulatorFits terms residual := by
  have hresidual := abs_nonneg residual.val
  have htotal := abs_total_le terms
  have hsum := abs_le.mp ((abs_add_le (total terms) residual.val).trans
    (show _ ≤ (9223372036854775807 : ℤ) by omega))
  exact ⟨partialSumsFit_of_bound (by omega), fits64_iff.mpr (by omega)⟩

theorem Term.abs_value_le (t : Term) {b : ℤ} (h : |t.coeff.val| ≤ b) :
    |t.value| ≤ b * 2147483648 := by
  have hsample : |t.sample.val| ≤ 2147483648 := abs_le.mpr (by have := t.sample.bounds; omega)
  have hproduct : |t.coeff.val * t.sample.val| ≤ b * 2147483648 := by
    rw [abs_mul]
    exact mul_le_mul h hsample (abs_nonneg _) ((abs_nonneg _).trans h)
  rw [Term.value]
  split
  · rwa [abs_neg]
  · exact hproduct

end accumulate

/-! ## Quantization with a residual -/

section quantize
variable (q : ℕ) (hq : q < 32)

/-- The output of an accumulator and what is left for the next sample. -/
def quantize (accumulator : SInt 64) : Option (SInt 32 × SInt 64) := do
  let scaled := accumulator.val >>> q
  let output : SInt 32 := SInt.sat scaled
  if scaled = output then
    let product ← checked 64 (output.val * 2 ^ q)
    let residual ← checked 64 (accumulator.val - product)
    return (output, residual)
  else return (output, ⟨0, by decide⟩)

/-- The accumulator, floored, fits the output. -/
def Unsaturated (accumulator : ℤ) : Prop := FitsSigned 32 (accumulator >>> q)

instance (accumulator : ℤ) : Decidable (Unsaturated q accumulator) :=
  inferInstanceAs (Decidable (FitsSigned _ _))

include hq in
theorem residue_fits (accumulator : ℤ) : FitsSigned 64 (accumulator % 2 ^ q) := by
  have hpow : (2 : ℤ) ^ q ≤ 2 ^ 31 := pow_le_pow_right₀ (by norm_num) (by omega)
  have hpos : (0 : ℤ) < 2 ^ q := by positivity
  have hlow := Int.emod_nonneg accumulator hpos.ne'
  have hhigh := Int.emod_lt_of_pos accumulator hpos
  exact fits64_iff.mpr (by omega)

/-- What an unsaturated output leaves. -/
def leftover (accumulator : ℤ) : SInt 64 :=
  if Unsaturated q accumulator then ⟨accumulator % 2 ^ q, residue_fits q hq accumulator⟩
  else ⟨0, by decide⟩

variable {q} {accumulator : SInt 64}

/-- Without saturation nothing is lost. -/
theorem output_add_leftover {accumulator : ℤ} (h : Unsaturated q accumulator) :
    (SInt.sat (accumulator >>> q) : SInt 32).val * 2 ^ q + (leftover q hq accumulator).val =
      accumulator := by
  rw [SInt.sat_val h, leftover, if_pos h, Int.shiftRight_eq_div_pow]
  have := Int.mul_ediv_add_emod accumulator (2 ^ q)
  push_cast
  rwa [Int.mul_comm]

theorem quantize_eq : quantize q accumulator =
    some (SInt.sat (accumulator.val >>> q), leftover q hq accumulator.val) := by
  have hsum := @output_add_leftover q hq accumulator.val
  unfold quantize
  generalize hout : (SInt.sat (accumulator.val >>> q) : SInt 32) = out at hsum ⊢
  by_cases h : Unsaturated q accumulator.val
  · have hsum := hsum h
    have hval : accumulator.val >>> q = out.val := by rw [← hout, SInt.sat_val h]
    have hproduct : FitsSigned 64 (out.val * 2 ^ q) := by
      have hbounds := out.bounds
      have hpow : |(2 : ℤ) ^ q| ≤ 2147483648 := by
        rw [abs_of_pos (by positivity)]
        exact pow_le_pow_right₀ (by norm_num) (show q ≤ 31 by omega)
      have habs : |out.val * 2 ^ q| ≤ 2147483648 * 2147483648 := by
        rw [abs_mul]
        exact mul_le_mul (abs_le.mpr (by omega)) hpow (abs_nonneg _) (by norm_num)
      have := abs_le.mp habs
      exact fits64_iff.mpr (by omega)
    have hrest : accumulator.val - out.val * 2 ^ q = (leftover q hq accumulator.val).val := by
      omega
    have hfits : FitsSigned 64 (accumulator.val - out.val * 2 ^ q) := by
      rw [hrest]
      exact (leftover q hq accumulator.val).fits
    have heq : (⟨_, hfits⟩ : SInt 64) = leftover q hq accumulator.val := SInt.ext hrest
    simp only [hout, if_pos hval, checked_bind hproduct, checked_bind hfits, heq]
    rfl
  · have hne : accumulator.val >>> q ≠ out.val := by
      intro hval
      exact h (show FitsSigned 32 _ by rw [hval]; exact out.fits)
    simp only [hout, if_neg hne, leftover, if_neg h]
    rfl

theorem leftover_bounds (accumulator : ℤ) : 0 ≤ (leftover q hq accumulator).val ∧
    (leftover q hq accumulator).val < 2 ^ q := by
  have hpos : (0 : ℤ) < 2 ^ q := by positivity
  rw [leftover]
  split
  · exact ⟨Int.emod_nonneg _ hpos.ne', Int.emod_lt_of_pos _ hpos⟩
  · exact ⟨le_rfl, hpos⟩

end quantize

/-! ## Filters with a residual -/

section filtered
variable {q : ℕ} (hq : q < 32) {terms : List Term} {residual : SInt 64}

/-- The accumulator with the residual added, its output and the next residual. -/
def filtered (q : ℕ) (terms : List Term) (residual : SInt 64) : Option (SInt 32 × SInt 64) := do
  let sum ← accumulate terms
  let accumulator ← checked 64 (sum.val + residual)
  quantize q accumulator

/-- The same over unbounded integers. -/
def filteredExact (q : ℕ) (hq : q < 32) (terms : List Term) (residual : SInt 64) :
    SInt 32 × SInt 64 :=
  (SInt.sat ((total terms + residual) >>> q), leftover q hq (total terms + residual))

theorem filtered_eq_some {r : SInt 32 × SInt 64} : filtered q terms residual = some r ↔
    AccumulatorFits terms residual ∧ r = filteredExact q hq terms residual := by
  rw [filtered, Option.bind_eq_bind, Option.bind_eq_some_iff]
  constructor
  · rintro ⟨sum, hterms, hrest⟩
    obtain ⟨hfit, htotal⟩ := accumulate_eq_some.mp hterms
    obtain ⟨hsum, hr⟩ := checked_bind_eq_some.mp hrest
    rw [quantize_eq hq, Option.some.injEq] at hr
    refine ⟨⟨hfit, htotal ▸ hsum⟩, ?_⟩
    rw [← hr, filteredExact, ← htotal]
  · rintro ⟨⟨hfit, hsum⟩, rfl⟩
    obtain ⟨sum, hterms, htotal⟩ := exists_accumulate hfit
    rw [← htotal] at hsum
    refine ⟨sum, hterms, checked_bind_eq_some.mpr ⟨hsum, ?_⟩⟩
    rw [filteredExact, ← htotal]
    exact quantize_eq hq

/-- What a sample promises of the residual: it is the rest of the shift, and with it nothing is
lost unless the output saturates. -/
def Keeps (q : ℕ) (terms : List Term) (residual : SInt 64) (output : SInt 32) (next : SInt 64) :
    Prop :=
  (0 ≤ next.val ∧ next.val < 2 ^ q) ∧ (Unsaturated q (total terms + residual) →
    output.val * 2 ^ q + next.val = total terms + residual)

/-- Over a stretch without saturation, of a filter whose steps are `filteredExact`, the outputs and
the last residual make up what went in. -/
theorem sum_outputs {σ : Type} {next : σ → SInt 32 → σ} {output : σ → SInt 32 → SInt 32}
    {terms : σ → SInt 32 → List Term} (residual : σ → SInt 64)
    (hstep : ∀ s i, (output s i, residual (next s i)) = filteredExact q hq (terms s i) (residual s))
    {s : σ} {is : List (SInt 32)}
    (h : Transition.Admits next (fun s i => Unsaturated q (total (terms s i) + residual s)) s is) :
    sumAlong next (fun s i => (output s i).val) s is * 2 ^ q + (residual (is.foldl next s)).val =
      sumAlong next (fun s i => total (terms s i)) s is + (residual s).val := by
  have hcarry (s : σ) (i : SInt 32) (h : Unsaturated q (total (terms s i) + residual s)) :
      (output s i).val * 2 ^ q + (residual (next s i)).val =
        total (terms s i) + (residual s).val := by
    obtain ⟨houtput, hresidual⟩ := Prod.mk.inj (hstep s i)
    rw [houtput, hresidual]
    exact output_add_leftover hq h
  exact sumAlong_carry (fun s => (residual s).val) hcarry h

theorem keeps_filteredExact : Keeps q terms residual (filteredExact q hq terms residual).1
    (filteredExact q hq terms residual).2 :=
  ⟨leftover_bounds hq _, output_add_leftover hq⟩

end filtered

/-! ### The all-pass filter -/

namespace Apf

/-- `apf_i32_coeff_t`, as `apf_i32_design_coeff` produces it. -/
structure Coeff where
  b0 : SInt 32
  b1 : SInt 32
  a1 : SInt 32
  b0_le : |b0.val| ≤ 2 ^ 30
  b1_eq : b1.val = 2 ^ 30
  a1_eq : a1 = b0

structure State where
  x1 : SInt 32
  y1 : SInt 32
  residual_q30 : SInt 64

/-- `apf_i32_reset` -/
def reset : State := ⟨⟨0, by decide⟩, ⟨0, by decide⟩, ⟨0, by decide⟩⟩

variable (c : Coeff) (s : State) (input : SInt 32)

def terms : List Term := [⟨c.b0, input, false⟩, ⟨c.b1, s.x1, false⟩, ⟨c.a1, s.y1, true⟩]

/-- `apf_i32_cal` -/
def cal : Option (State × SInt 32) := do
  let (output, residual) ← filtered 30 (terms c s input) s.residual_q30
  return (⟨input, output, residual⟩, output)

/-- The same over unbounded integers. -/
def exact : State × SInt 32 :=
  let r := filteredExact 30 (by decide) (terms c s input) s.residual_q30
  (⟨input, r.1, r.2⟩, r.1)

/-- What a sample promises. -/
def Right (r : State × SInt 32) : Prop :=
  r = exact c s input ∧ Keeps 30 (terms c s input) s.residual_q30 r.2 r.1.residual_q30

section
variable {c s input}

/-- Whatever the samples, the accumulator fits. -/
theorem fits (hr : 0 ≤ s.residual_q30.val ∧ s.residual_q30.val < 2 ^ 30) :
    AccumulatorFits (terms c s input) s.residual_q30 := by
  have hb0 := Term.abs_value_le ⟨c.b0, input, false⟩ c.b0_le
  have hb1 := Term.abs_value_le ⟨c.b1, s.x1, false⟩ (b := 2 ^ 30) (by rw [c.b1_eq]; norm_num)
  have ha1 := Term.abs_value_le ⟨c.a1, s.y1, true⟩ (b := 2 ^ 30) (by rw [c.a1_eq]; exact c.b0_le)
  have hresidual := abs_of_nonneg hr.1
  refine accumulatorFits_of_bound ?_
  simp only [terms, List.map_cons, List.map_nil, List.sum_cons, List.sum_nil]
  omega

theorem cal_eq : cal c s input = (filtered 30 (terms c s input) s.residual_q30).map
    fun r => (⟨input, r.1, r.2⟩, r.1) := by
  rw [cal]
  cases filtered 30 (terms c s input) s.residual_q30 <;> rfl

theorem right_step (hr : 0 ≤ s.residual_q30.val ∧ s.residual_q30.val < 2 ^ 30) :
    ∃ r, cal c s input = some r ∧ Right c s input r ∧
      0 ≤ r.1.residual_q30.val ∧ r.1.residual_q30.val < 2 ^ 30 := by
  have hcal : cal c s input = some (exact c s input) := by
    rw [cal_eq, (filtered_eq_some (by decide)).mpr ⟨fits hr, rfl⟩]
    rfl
  exact ⟨_, hcal, ⟨rfl, keeps_filteredExact (by decide)⟩, leftover_bounds (by decide) _⟩

end

/-- No sample overflows. -/
theorem succeeds (c : Coeff) (is : List (SInt 32)) : Succeeds (cal c) (Right c) reset is :=
  succeeds_of_steps (I := fun _ => True) (fun _ _ hr _ => right_step hr) (by decide)
    fun _ _ => trivial

/-- The samples whose output does not saturate. -/
def Linear : Prop := Unsaturated 30 (total (terms c s input) + s.residual_q30)

instance : Decidable (Linear c s input) := inferInstanceAs (Decidable (Unsaturated _ _))

/-- From `s` on, the outputs and the last residual make up the sums of the products. -/
def Lossless (is : List (SInt 32)) : Prop :=
  let next := fun s i => (exact c s i).1
  sumAlong next (fun s i => (exact c s i).2.val) s is * 2 ^ 30 +
      (is.foldl next s).residual_q30.val =
    sumAlong next (fun s i => total (terms c s i)) s is + s.residual_q30.val

theorem lossless {is : List (SInt 32)}
    (h : Transition.Admits (fun s i => (exact c s i).1) (Linear c) s is) : Lossless c s is := by
  have hstep (s : State) (i : SInt 32) : ((exact c s i).2, (exact c s i).1.residual_q30) =
      filteredExact 30 (by decide) (terms c s i) s.residual_q30 := rfl
  exact sum_outputs (by decide) State.residual_q30 hstep h

end Apf

/-! ### The resonant filter -/

namespace Resonant

/-- `resonant_i32_coeff_t`, as `resonant_i32_design_coeff` produces it. -/
structure Coeff where
  b0 : SInt 32
  b2 : SInt 32
  a1 : SInt 32
  a2 : SInt 32
  b0_nonneg : 0 ≤ b0.val
  b2_eq : b2.val = -b0.val
  a1_le : |a1.val| ≤ 2 ^ 30
  a2_eq : a2.val = 2 ^ 29

structure State where
  x1 : SInt 32
  x2 : SInt 32
  y1 : SInt 32
  y2 : SInt 32
  residual_q29 : SInt 64

/-- `resonant_i32_reset` -/
def reset : State :=
  ⟨⟨0, by decide⟩, ⟨0, by decide⟩, ⟨0, by decide⟩, ⟨0, by decide⟩, ⟨0, by decide⟩⟩

variable (c : Coeff) (s : State) (input : SInt 32)

def terms : List Term :=
  [⟨c.b0, input, false⟩, ⟨c.b2, s.x2, false⟩, ⟨c.a1, s.y1, true⟩, ⟨c.a2, s.y2, true⟩]

/-- `resonant_i32_cal` -/
def cal : Option (State × SInt 32) := do
  let (output, residual) ← filtered 29 (terms c s input) s.residual_q29
  return (⟨input, s.x1, output, s.y1, residual⟩, output)

/-- The same over unbounded integers. -/
def exact : State × SInt 32 :=
  let r := filteredExact 29 (by decide) (terms c s input) s.residual_q29
  (⟨input, s.x1, r.1, s.y1, r.2⟩, r.1)

/-- What a sample promises. -/
def Right (r : State × SInt 32) : Prop :=
  r = exact c s input ∧ Keeps 29 (terms c s input) s.residual_q29 r.2 r.1.residual_q29

/-- Every sum of the accumulator fits. -/
def Allows : Prop := AccumulatorFits (terms c s input) s.residual_q29

instance : Decidable (Allows c s input) := inferInstanceAs (Decidable (AccumulatorFits _ _))

section
variable {c s input} {r : State × SInt 32}

theorem cal_eq_some : cal c s input = some r ↔ Allows c s input ∧ r = exact c s input := by
  have hcal : cal c s input = (filtered 29 (terms c s input) s.residual_q29).map
      fun r => (⟨input, s.x1, r.1, s.y1, r.2⟩, r.1) := by
    rw [cal]
    cases filtered 29 (terms c s input) s.residual_q29 <;> rfl
  rw [hcal, Option.map_eq_some_iff]
  simp only [filtered_eq_some (show 29 < 32 by decide)]
  constructor
  · rintro ⟨_, ⟨hfit, rfl⟩, rfl⟩
    exact ⟨hfit, rfl⟩
  · rintro ⟨hfit, rfl⟩
    exact ⟨_, ⟨hfit, rfl⟩, rfl⟩

theorem right_iff_allows : (∃ r, cal c s input = some r ∧ Right c s input r) ↔
    Allows c s input := by
  constructor
  · rintro ⟨r, hcal, -⟩
    exact (cal_eq_some.mp hcal).1
  · intro h
    exact ⟨_, cal_eq_some.mpr ⟨h, rfl⟩, rfl, keeps_filteredExact (by decide)⟩

end

/-- Exactly the runs succeed whose accumulators fit. -/
theorem succeeds_iff_allows (c : Coeff) (is : List (SInt 32)) :
    Succeeds (cal c) (Right c) reset is ↔
    Transition.Admits (fun s i => (exact c s i).1) (Allows c) reset is :=
  succeeds_iff (J := fun _ => True) (fun _ _ _ => right_iff_allows)
    (fun _ _ _ _ hcal => congrArg Prod.fst (cal_eq_some.mp hcal).2) (fun _ _ _ _ _ _ => trivial)
    trivial is

/-- With a gain of at most two the accumulator fits, whatever the samples. -/
theorem allows_of_gain (hb0 : c.b0.val ≤ 2 ^ 30)
    (hr : 0 ≤ s.residual_q29.val ∧ s.residual_q29.val < 2 ^ 29) : Allows c s input := by
  have hgain : |c.b0.val| ≤ 2 ^ 30 := by rwa [abs_of_nonneg c.b0_nonneg]
  have hterm0 := Term.abs_value_le ⟨c.b0, input, false⟩ hgain
  have hterm2 := Term.abs_value_le ⟨c.b2, s.x2, false⟩ (b := 2 ^ 30)
    (by rw [c.b2_eq, abs_neg]; exact hgain)
  have ha1 := Term.abs_value_le ⟨c.a1, s.y1, true⟩ c.a1_le
  have ha2 := Term.abs_value_le ⟨c.a2, s.y2, true⟩ (b := 2 ^ 29) (by rw [c.a2_eq]; norm_num)
  have hresidual := abs_of_nonneg hr.1
  refine accumulatorFits_of_bound ?_
  simp only [terms, List.map_cons, List.map_nil, List.sum_cons, List.sum_nil]
  omega

/-- So every run succeeds. -/
theorem succeeds (c : Coeff) (hb0 : c.b0.val ≤ 2 ^ 30) (is : List (SInt 32)) :
    Succeeds (cal c) (Right c) reset is := by
  refine succeeds_of_steps (I := fun _ => True)
    (J := fun s => 0 ≤ s.residual_q29.val ∧ s.residual_q29.val < 2 ^ 29) ?_ (by decide)
    fun _ _ => trivial
  intro s i hr _
  exact ⟨_, cal_eq_some.mpr ⟨allows_of_gain c s i hb0 hr, rfl⟩,
    ⟨rfl, keeps_filteredExact (by decide)⟩, leftover_bounds (by decide) _⟩

/-- The samples whose output does not saturate. -/
def Linear : Prop := Unsaturated 29 (total (terms c s input) + s.residual_q29)

instance : Decidable (Linear c s input) := inferInstanceAs (Decidable (Unsaturated _ _))

/-- From `s` on, the outputs and the last residual make up the sums of the products. -/
def Lossless (is : List (SInt 32)) : Prop :=
  let next := fun s i => (exact c s i).1
  sumAlong next (fun s i => (exact c s i).2.val) s is * 2 ^ 29 +
      (is.foldl next s).residual_q29.val =
    sumAlong next (fun s i => total (terms c s i)) s is + s.residual_q29.val

theorem lossless {is : List (SInt 32)}
    (h : Transition.Admits (fun s i => (exact c s i).1) (Linear c) s is) : Lossless c s is := by
  have hstep (s : State) (i : SInt 32) : ((exact c s i).2, (exact c s i).1.residual_q29) =
      filteredExact 29 (by decide) (terms c s i) s.residual_q29 := rfl
  exact sum_outputs (by decide) State.residual_q29 hstep h

end Resonant

/-! ## Filters without a residual -/

/-- A sample and the two before it. -/
structure Window where
  now : SInt 32
  last : SInt 32
  before : SInt 32

def Window.zero : Window := ⟨⟨0, by decide⟩, ⟨0, by decide⟩, ⟨0, by decide⟩⟩

/-- `x[2] = x[1]; x[1] = x[0]; x[0] = v` -/
def Window.push (w : Window) (v : SInt 32) : Window := ⟨v, w.now, w.last⟩

/-- Three coefficients of the inputs. -/
structure Numerator where
  b0 : SInt 32
  b1 : SInt 32
  b2 : SInt 32

/-- Two coefficients of the outputs before. -/
structure Feedback where
  a0 : SInt 32
  a1 : SInt 32

/-- The five products, over the inputs with the new one and the outputs before it. -/
def biquad (b : Numerator) (a : Feedback) (x y : Window) : List Term :=
  [⟨b.b0, x.now, false⟩, ⟨b.b1, x.last, false⟩, ⟨b.b2, x.before, false⟩, ⟨a.a0, y.now, true⟩,
    ⟨a.a1, y.last, true⟩]

/-- The output over unbounded integers. -/
def biquadExact (q : ℕ) (b : Numerator) (a : Feedback) (x y : Window) : SInt 32 :=
  SInt.sat (total (biquad b a x y) >>> q)

theorem two_pow_shift_le {q : ℕ} (hq : q < 30) :
    (2 : ℤ) ^ q ≤ 2 ^ 29 ∧ (2 : ℤ) ^ (q + 1) ≤ 2 ^ 30 :=
  ⟨pow_le_pow_right₀ (by norm_num) (by omega), pow_le_pow_right₀ (by norm_num) (by omega)⟩

/-- The products fit, whatever the samples. -/
theorem biquad_fits {b : Numerator} {a : Feedback} {q : ℕ} (hq : q < 30)
    (hb : |b.b0.val| + |b.b1.val| + |b.b2.val| ≤ 2 ^ 31) (ha0 : |a.a0.val| ≤ 2 ^ (q + 1))
    (ha1 : |a.a1.val| ≤ 2 ^ q) (x y : Window) : PartialSumsFit (biquad b a x y) := by
  obtain ⟨hone, htwo⟩ := two_pow_shift_le hq
  have hb0 := Term.abs_value_le ⟨b.b0, x.now, false⟩ (le_refl |b.b0.val|)
  have hb1 := Term.abs_value_le ⟨b.b1, x.last, false⟩ (le_refl |b.b1.val|)
  have hb2 := Term.abs_value_le ⟨b.b2, x.before, false⟩ (le_refl |b.b2.val|)
  have ha0 := Term.abs_value_le ⟨a.a0, y.now, true⟩ (ha0.trans htwo)
  have ha1 := Term.abs_value_le ⟨a.a1, y.last, true⟩ (ha1.trans hone)
  refine partialSumsFit_of_bound ?_
  simp only [biquad, List.map_cons, List.map_nil, List.sum_cons, List.sum_nil]
  omega

/-! ### The notch filter -/

namespace Notch

/-- The coefficients `notch_i32_update` produces. -/
structure Coeff where
  coeff_q_shift : ℕ
  b : Numerator
  a : Feedback
  shift_lt : coeff_q_shift < 30
  b0_le : |b.b0.val| ≤ 2 ^ coeff_q_shift
  b1_le : |b.b1.val| ≤ 2 ^ (coeff_q_shift + 1)
  b2_le : |b.b2.val| ≤ 2 ^ coeff_q_shift
  a0_le : |a.a0.val| ≤ 2 ^ (coeff_q_shift + 1)
  a1_le : |a.a1.val| ≤ 2 ^ coeff_q_shift

/-- `inter.x`, `inter.y`, `output.val` -/
structure State where
  x : Window
  y : Window
  val : SInt 32

/-- `notch_i32_reset` -/
def reset : State := ⟨.zero, .zero, ⟨0, by decide⟩⟩

variable (c : Coeff) (s : State) (input : SInt 32)

/-- `notch_i32_cal` -/
def cal : Option (State × SInt 32) := do
  let x := s.x.push input
  let y ← accumulate (biquad c.b c.a x s.y)
  let val : SInt 32 := SInt.sat (y.val >>> c.coeff_q_shift)
  return (⟨x, s.y.push val, val⟩, val)

/-- The same over unbounded integers. -/
def exact : State × SInt 32 :=
  let x := s.x.push input
  let val := biquadExact c.coeff_q_shift c.b c.a x s.y
  (⟨x, s.y.push val, val⟩, val)

variable {c s input}

theorem fits (x y : Window) : PartialSumsFit (biquad c.b c.a x y) := by
  obtain ⟨hone, htwo⟩ := two_pow_shift_le c.shift_lt
  have hb0 := c.b0_le.trans hone
  have hb1 := c.b1_le.trans htwo
  have hb2 := c.b2_le.trans hone
  exact biquad_fits c.shift_lt (by omega) c.a0_le c.a1_le x y

theorem cal_eq : cal c s input = some (exact c s input) := by
  obtain ⟨y, hy, htotal⟩ := exists_accumulate (fits (c := c) (s.x.push input) s.y)
  simp only [cal, hy, exact, biquadExact, ← htotal]
  rfl

/-- No sample overflows. -/
theorem succeeds (c : Coeff) (is : List (SInt 32)) :
    Succeeds (cal c) (fun s i r => r = exact c s i) reset is :=
  succeeds_of_steps (R := fun s i r => r = exact c s i) (J := fun _ => True) (I := fun _ => True)
    (fun _ _ _ _ => ⟨_, cal_eq, rfl, trivial⟩) trivial fun _ _ => trivial

end Notch

/-! ### The second-order generalized integrator -/

namespace Sogi

/-- The coefficients `sogi_i32_update` produces; the numerators are any that fit. -/
structure Coeff where
  coeff_q_shift : ℕ
  b : Numerator
  qb : Numerator
  a : Feedback
  shift_lt : coeff_q_shift < 30
  a0_le : |a.a0.val| ≤ 2 ^ (coeff_q_shift + 1)
  a1_le : |a.a1.val| ≤ 2 ^ coeff_q_shift

/-- `inter.x`, `inter.y`, `inter.qy` -/
structure State where
  x : Window
  y : Window
  qy : Window

/-- `output`; `inter.err` is the same as `output.err`. -/
structure Output where
  u : SInt 32
  qu : SInt 32
  err : SInt 32

/-- `sogi_i32_reset` -/
def reset : State := ⟨.zero, .zero, .zero⟩

/-- SOGI_I32_NUM_GAIN -/
def numGain : SInt 32 := ⟨128, by decide⟩

variable (c : Coeff) (s : State) (input : SInt 32)

/-- `sogi_i32_cal` -/
def cal : Option (State × Output) := do
  let x := s.x.push input
  let y ← accumulate (biquad c.b c.a x s.y)
  let qy ← accumulate (biquad c.qb c.a x s.qy)
  let y0 : SInt 32 := SInt.sat (y.val >>> c.coeff_q_shift)
  let qy0 : SInt 32 := SInt.sat (qy.val >>> c.coeff_q_shift)
  let u ← checkedDiv y0 numGain
  let qu ← checkedDiv qy0 numGain
  let err ← checked 64 (x.now.val - u)
  return (⟨x, s.y.push y0, s.qy.push qy0⟩, ⟨u, qu, SInt.sat err.val⟩)

/-- The gain of the numerators taken out again. -/
def unscaled (y : SInt 32) : SInt 32 := ⟨y.val.tdiv numGain, y.fits_tdiv (by decide)⟩

/-- The same over unbounded integers. -/
def exact : State × Output :=
  let x := s.x.push input
  let y0 := biquadExact c.coeff_q_shift c.b c.a x s.y
  let qy0 := biquadExact c.coeff_q_shift c.qb c.a x s.qy
  (⟨x, s.y.push y0, s.qy.push qy0⟩,
    ⟨unscaled y0, unscaled qy0, SInt.sat (x.now.val - (unscaled y0).val)⟩)

/-- Every sum of both accumulators fits. -/
def Allows : Prop := PartialSumsFit (biquad c.b c.a (s.x.push input) s.y) ∧
  PartialSumsFit (biquad c.qb c.a (s.x.push input) s.qy)

instance : Decidable (Allows c s input) := inferInstanceAs (Decidable (_ ∧ _))

variable {c s input} {r : State × Output}

theorem cal_eq_some : cal c s input = some r ↔ Allows c s input ∧ r = exact c s input := by
  have hdiv (y : SInt 32) : checkedDiv y numGain = some (unscaled y) := by
    rw [checkedDiv, if_neg (by decide), checked_of_fits (y.fits_tdiv (by decide))]
    rfl
  have herr (a b : SInt 32) : FitsSigned 64 (a.val - b.val) := by
    have ha := a.bounds
    have hb := b.bounds
    exact fits64_iff.mpr (by omega)
  have hfinish {y qy : SInt 64} (hy : accumulate (biquad c.b c.a (s.x.push input) s.y) = some y)
      (hqy : accumulate (biquad c.qb c.a (s.x.push input) s.qy) = some qy) :
      cal c s input = some (exact c s input) := by
    simp only [cal, hy, hqy, hdiv, exact, biquadExact, ← (accumulate_eq_some.mp hy).2,
      ← (accumulate_eq_some.mp hqy).2, Option.bind_eq_bind, Option.bind_some,
      checked_of_fits (herr _ _)]
    rfl
  constructor
  · intro hcal
    have hcal' := hcal
    rw [cal, Option.bind_eq_bind, Option.bind_eq_some_iff] at hcal'
    obtain ⟨y, hy, hrest⟩ := hcal'
    obtain ⟨qy, hqy, -⟩ := Option.bind_eq_some_iff.mp hrest
    refine ⟨⟨(accumulate_eq_some.mp hy).1, (accumulate_eq_some.mp hqy).1⟩, ?_⟩
    exact Option.some.inj (hcal.symm.trans (hfinish hy hqy))
  · rintro ⟨⟨hfit, hqfit⟩, rfl⟩
    obtain ⟨y, hy, -⟩ := exists_accumulate hfit
    obtain ⟨qy, hqy, -⟩ := exists_accumulate hqfit
    exact hfinish hy hqy

/-- Exactly the runs succeed whose accumulators fit. -/
theorem succeeds_iff_allows (c : Coeff) (is : List (SInt 32)) :
    Succeeds (cal c) (fun s i r => r = exact c s i) reset is ↔
      Transition.Admits (fun s i => (exact c s i).1) (Allows c) reset is := by
  have hstep (s : State) (i : SInt 32) :
      (∃ r, cal c s i = some r ∧ r = exact c s i) ↔ Allows c s i :=
    ⟨fun ⟨r, hcal, _⟩ => (cal_eq_some.mp hcal).1,
      fun h => ⟨_, cal_eq_some.mpr ⟨h, rfl⟩, rfl⟩⟩
  exact succeeds_iff (J := fun _ => True) (fun s i _ => hstep s i)
    (fun _ _ _ _ hcal => congrArg Prod.fst (cal_eq_some.mp hcal).2) (fun _ _ _ _ _ _ => trivial)
    trivial is

/-- With numerators of at most `2 ^ 31` together, every run succeeds. -/
theorem succeeds (c : Coeff) (hb : |c.b.b0.val| + |c.b.b1.val| + |c.b.b2.val| ≤ 2 ^ 31)
    (hqb : |c.qb.b0.val| + |c.qb.b1.val| + |c.qb.b2.val| ≤ 2 ^ 31) (is : List (SInt 32)) :
    Succeeds (cal c) (fun s i r => r = exact c s i) reset is := by
  have hallows (s : State) (i : SInt 32) : Allows c s i :=
    ⟨biquad_fits c.shift_lt hb c.a0_le c.a1_le _ _, biquad_fits c.shift_lt hqb c.a0_le c.a1_le _ _⟩
  exact succeeds_of_steps (R := fun s i r => r = exact c s i) (J := fun _ => True)
    (I := fun _ => True) (fun s i _ _ => ⟨_, cal_eq_some.mpr ⟨hallows s i, rfl⟩, rfl, trivial⟩)
    trivial fun _ _ => trivial

end Sogi

/-- **The filters are exact as long as no accumulator overflows**: the all-pass and the notch filter
always, the resonant filter and the SOGI in exactly the runs whose sums fit 64 bits. Where the
output does not saturate, the residual loses nothing. -/
theorem filters_exact_iff (apf : Apf.Coeff) (resonant : Resonant.Coeff) (notch : Notch.Coeff)
    (sogi : Sogi.Coeff) (is : List (SInt 32)) :
    Succeeds (Apf.cal apf) (Apf.Right apf) Apf.reset is ∧
    (Succeeds (Resonant.cal resonant) (Resonant.Right resonant) Resonant.reset is ↔
      Transition.Admits (fun s i => (Resonant.exact resonant s i).1) (Resonant.Allows resonant)
        Resonant.reset is) ∧
    Succeeds (Notch.cal notch) (fun s i r => r = Notch.exact notch s i) Notch.reset is ∧
    (Succeeds (Sogi.cal sogi) (fun s i r => r = Sogi.exact sogi s i) Sogi.reset is ↔
      Transition.Admits (fun s i => (Sogi.exact sogi s i).1) (Sogi.Allows sogi) Sogi.reset is) ∧
    (∀ s, Transition.Admits (fun s i => (Apf.exact apf s i).1) (Apf.Linear apf) s is →
      Apf.Lossless apf s is) ∧
    (∀ s, Transition.Admits (fun s i => (Resonant.exact resonant s i).1) (Resonant.Linear resonant)
      s is → Resonant.Lossless resonant s is) :=
  ⟨Apf.succeeds apf is, Resonant.succeeds_iff_allows resonant is, Notch.succeeds notch is,
    Sogi.succeeds_iff_allows sogi is, fun _ => Apf.lossless apf _,
    fun _ => Resonant.lossless resonant _⟩

/-! ### Runs -/

/-- An all-pass filter whose coefficient is one half. -/
def demoApf : Apf.Coeff where
  b0 := ⟨2 ^ 29, by decide⟩
  b1 := ⟨2 ^ 30, by decide⟩
  a1 := ⟨2 ^ 29, by decide⟩
  b0_le := by decide
  b1_eq := rfl
  a1_eq := rfl

/-- A resonant filter of gain one. -/
def demoResonant : Resonant.Coeff where
  b0 := ⟨2 ^ 29, by decide⟩
  b2 := ⟨-2 ^ 29, by decide⟩
  a1 := ⟨-2 ^ 30, by decide⟩
  a2 := ⟨2 ^ 29, by decide⟩
  b0_nonneg := by decide
  b2_eq := by decide
  a1_le := by decide
  a2_eq := by decide

/-- A notch filter in Q14. -/
def demoNotch : Notch.Coeff where
  coeff_q_shift := 14
  b := ⟨⟨16000, by decide⟩, ⟨-31900, by decide⟩, ⟨16000, by decide⟩⟩
  a := ⟨⟨-31900, by decide⟩, ⟨15616, by decide⟩⟩
  shift_lt := by decide
  b0_le := by decide
  b1_le := by decide
  b2_le := by decide
  a0_le := by decide
  a1_le := by decide

/-- A SOGI in Q14, its numerators with the gain. -/
def demoSogi : Sogi.Coeff where
  coeff_q_shift := 14
  b := ⟨⟨46000, by decide⟩, ⟨0, by decide⟩, ⟨-46000, by decide⟩⟩
  qb := ⟨⟨1020, by decide⟩, ⟨2040, by decide⟩, ⟨1020, by decide⟩⟩
  a := ⟨⟨-31990, by decide⟩, ⟨15660, by decide⟩⟩
  shift_lt := by decide
  a0_le := by decide
  a1_le := by decide

def demoSamples : List (SInt 32) :=
  [⟨1000, by decide⟩, ⟨-700, by decide⟩, ⟨333, by decide⟩, ⟨1000000, by decide⟩]

theorem filters_exact_demo :
    (Succeeds (Apf.cal demoApf) (Apf.Right demoApf) Apf.reset demoSamples ∧
      Apf.Lossless demoApf Apf.reset demoSamples) ∧
    (Succeeds (Resonant.cal demoResonant) (Resonant.Right demoResonant) Resonant.reset
        demoSamples ∧ Resonant.Lossless demoResonant Resonant.reset demoSamples) ∧
    Succeeds (Notch.cal demoNotch) (fun s i r => r = Notch.exact demoNotch s i) Notch.reset
      demoSamples ∧
    Succeeds (Sogi.cal demoSogi) (fun s i r => r = Sogi.exact demoSogi s i) Sogi.reset
      demoSamples := by
  obtain ⟨hapf, hresonant, hnotch, hsogi, hapfLossless, hresonantLossless⟩ :=
    filters_exact_iff demoApf demoResonant demoNotch demoSogi demoSamples
  exact ⟨⟨hapf, hapfLossless _ (by decide)⟩,
    ⟨hresonant.mpr (by decide), hresonantLossless _ (by decide)⟩, hnotch, hsogi.mpr (by decide)⟩

/-- A resonant filter of the greatest gain, near zero frequency. -/
def resonantExtreme : Resonant.Coeff where
  b0 := SInt.greatest 32
  b2 := ⟨-2147483647, by decide⟩
  a1 := ⟨-1073741824, by decide⟩
  a2 := ⟨536870912, by decide⟩
  b0_nonneg := by decide
  b2_eq := by decide
  a1_le := by decide
  a2_eq := by decide

/-- The least sample and the greatest twice overflow the accumulator. -/
theorem filters_not_exact :
    ¬Succeeds (Resonant.cal resonantExtreme) (Resonant.Right resonantExtreme) Resonant.reset
      [SInt.least 32, SInt.greatest 32, SInt.greatest 32] := by
  rw [Resonant.succeeds_iff_allows]
  decide

end Atoman.Control
