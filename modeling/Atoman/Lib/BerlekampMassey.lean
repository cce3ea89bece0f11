import Mathlib.RingTheory.PowerSeries.Basic
import Mathlib.LinearAlgebra.Vandermonde
import Mathlib.Algebra.Polynomial.Roots

/-!
# The Berlekamp–Massey algorithm

A sequence is given as a power series `S`. A polynomial `p` with `p(0) = 1` is a
recurrence of length `L` for it, up to `n`, when the coefficients of `p * S` between
`L` and `n` vanish. The algorithm reads the sequence term by term and keeps a
recurrence that is right so far; it lengthens it only when nothing shorter can be
right. On the power sums of `v` elements that are not zero, `2 * v` terms suffice:
the recurrence has length `v` and its roots are the inverses of the elements.

The series starts with an artificial term, so that the terms read are those from
the first on, and the state before the first of them needs no case of its own.
-/

namespace Atoman.Lib.BerlekampMassey
open Polynomial

variable {K : Type*} [Field K]

/-! ## The algorithm -/

/-- Where the algorithm is: the recurrence and its length, the one from before the
last change of length, how many terms ago that was, and by what it failed then. -/
structure State (K : Type*) [Field K] where
  connection : K[X]
  length : ℕ
  previous : K[X]
  shift : ℕ
  scale : K

noncomputable section

def init : State K := ⟨1, 0, 1, 1, 1⟩

/-- By what a recurrence fails at term `n`. -/
def discrepancy (S : PowerSeries K) (p : K[X]) (n : ℕ) : K :=
  PowerSeries.coeff n ((p : PowerSeries K) * S)

/-- The recurrence that is right at the next term too. -/
def State.corrected (σ : State K) (d : K) : K[X] :=
  σ.connection - C (d / σ.scale) * (X ^ σ.shift * σ.previous)

open Classical in
/-- One term more: `n` terms have been read. -/
def step (S : PowerSeries K) (n : ℕ) (σ : State K) : State K :=
  let d := discrepancy S σ.connection (n + 1)
  if d = 0 then { σ with shift := σ.shift + 1 }
  else if 2 * σ.length ≤ n then
    { connection := σ.corrected d
      length := n + 1 - σ.length
      previous := σ.connection
      shift := 1
      scale := d }
  else { σ with connection := σ.corrected d, shift := σ.shift + 1 }

def run (S : PowerSeries K) (n : ℕ) : State K :=
  (List.range n).foldl (fun σ k => step S k σ) init

end

@[simp] theorem run_zero (S : PowerSeries K) : run S 0 = init := rfl

theorem run_succ (S : PowerSeries K) (n : ℕ) : run S (n + 1) = step S n (run S n) := by
  simp [run, List.range_succ]

/-! ## Recurrences -/

variable {S : PowerSeries K}

/-- A coefficient of a product, when all the terms but one vanish. -/
theorem coeff_mul_of_window {p : K[X]} {F : PowerSeries K} {v n : ℕ} (hp : p.natDegree ≤ v)
    (hF : ∀ j < n, n ≤ j + v → PowerSeries.coeff j F = 0) :
    PowerSeries.coeff n ((p : PowerSeries K) * F) = p.coeff 0 * PowerSeries.coeff n F := by
  rw [PowerSeries.coeff_mul, Finset.sum_eq_single (0, n)]
  · rw [Polynomial.coeff_coe]
  · rintro ⟨i, j⟩ hmem hne
    have hsum : i + j = n := Finset.HasAntidiagonal.mem_antidiagonal.mp hmem
    have hi : i ≠ 0 := by
      rintro rfl
      exact hne (Prod.ext rfl (by simpa using hsum))
    rw [Polynomial.coeff_coe]
    by_cases hv : i ≤ v
    · rw [hF j (by omega) (by omega), mul_zero]
    · rw [Polynomial.coeff_eq_zero_of_natDegree_lt (by omega), zero_mul]
  · intro hmem
    exact absurd (Finset.HasAntidiagonal.mem_antidiagonal.mpr (Nat.zero_add n)) hmem

/-- What the algorithm sums up: a polynomial has no coefficients past its degree. -/
theorem discrepancy_eq_sum (S : PowerSeries K) {p : K[X]} {L n : ℕ} (hp : p.natDegree ≤ L)
    (hL : L ≤ n) : discrepancy S p n =
      ∑ j ∈ Finset.range (L + 1), p.coeff j * PowerSeries.coeff (n - j) S := by
  rw [discrepancy, PowerSeries.coeff_mul, Finset.Nat.sum_antidiagonal_eq_sum_range_succ
    (fun j k => PowerSeries.coeff j (p : PowerSeries K) * PowerSeries.coeff k S)]
  simp only [Polynomial.coeff_coe]
  refine (Finset.sum_subset (Finset.range_mono (by omega)) fun j _ hj => ?_).symm
  have hlt : p.natDegree < j := by
    have := Finset.mem_range.not.mp hj
    omega
  rw [coeff_eq_zero_of_natDegree_lt hlt, zero_mul]

/-- `p` is a recurrence of length `L` for the terms up to `n`. -/
structure Recurrence (S : PowerSeries K) (p : K[X]) (L n : ℕ) : Prop where
  natDegree_le : p.natDegree ≤ L
  coeff_zero : p.coeff 0 = 1
  holds : ∀ i, L < i → i ≤ n → discrepancy S p i = 0

/-- **A recurrence that fails is too short.** If `p` is right up to `n` and not at
`n + 1`, then one that is right there too makes up for it in length. -/
theorem Recurrence.length_add {p q : K[X]} {L v n : ℕ} (hp : Recurrence S p L n)
    (hfails : discrepancy S p (n + 1) ≠ 0) (hq : Recurrence S q v (n + 1)) : n + 1 ≤ L + v := by
  by_contra hlt
  -- The coefficient of `q * p * S` at `n + 1`, once for each order of the factors.
  have hqp : PowerSeries.coeff (n + 1) ((q : PowerSeries K) * ((p : PowerSeries K) * S)) =
      discrepancy S p (n + 1) := by
    rw [coeff_mul_of_window hq.natDegree_le, hq.coeff_zero, one_mul, discrepancy]
    intro j hj hv
    exact hp.holds j (by omega) (by omega)
  have hpq : PowerSeries.coeff (n + 1) ((p : PowerSeries K) * ((q : PowerSeries K) * S)) = 0 := by
    rw [coeff_mul_of_window hp.natDegree_le]
    · exact mul_eq_zero_of_right _ (hq.holds (n + 1) (by omega) le_rfl)
    · intro j hj hL
      exact hq.holds j (by omega) (by omega)
  rw [mul_left_comm, hpq] at hqp
  exact hfails hqp.symm

/-! ## The invariant -/

/-- What holds after `n` terms. The earlier recurrence has length
`n + 1 - shift - length`; it failed `shift` terms ago, by `scale`. -/
structure Invariant (S : PowerSeries K) (n : ℕ) (σ : State K) : Prop where
  recurrence : Recurrence S σ.connection σ.length n
  shift_pos : 0 < σ.shift
  previous_natDegree : σ.previous.natDegree + σ.shift + σ.length ≤ n + 1
  previous_holds : ∀ i, n + 1 < i + σ.shift + σ.length → i + σ.shift < n + 1 →
    discrepancy S σ.previous i = 0
  previous_fails : discrepancy S σ.previous (n + 1 - σ.shift) = σ.scale
  scale_ne_zero : σ.scale ≠ 0

theorem discrepancy_corrected (σ : State K) (d : K) (i : ℕ) :
    discrepancy S (σ.corrected d) i = discrepancy S σ.connection i -
      d / σ.scale * if σ.shift ≤ i then discrepancy S σ.previous (i - σ.shift) else 0 := by
  have hproduct : (σ.corrected d : PowerSeries K) * S = (σ.connection : PowerSeries K) * S -
      PowerSeries.C (d / σ.scale) *
        (PowerSeries.X ^ σ.shift * ((σ.previous : PowerSeries K) * S)) := by
    rw [State.corrected, Polynomial.coe_sub, Polynomial.coe_mul, Polynomial.coe_mul,
      Polynomial.coe_pow, Polynomial.coe_X, Polynomial.coe_C]
    ring
  rw [discrepancy, hproduct, map_sub, PowerSeries.coeff_C_mul, PowerSeries.coeff_X_pow_mul']
  rfl

theorem coeff_corrected (σ : State K) (d : K) (i : ℕ) :
    (σ.corrected d).coeff i = σ.connection.coeff i -
      d / σ.scale * if σ.shift ≤ i then σ.previous.coeff (i - σ.shift) else 0 := by
  rw [State.corrected, coeff_sub, coeff_C_mul, coeff_X_pow_mul']

variable {n : ℕ} {σ : State K}

theorem Invariant.length_le (h : Invariant S n σ) : σ.length ≤ n := by
  have := h.shift_pos
  have := h.previous_natDegree
  omega

/-- **The correction** makes the recurrence right at the next term. -/
theorem Invariant.corrected (h : Invariant S n σ) :
    Recurrence S (σ.corrected (discrepancy S σ.connection (n + 1)))
      (max σ.length (n + 1 - σ.length)) (n + 1) where
  natDegree_le := by
    have hprevious := h.previous_natDegree
    refine (natDegree_sub_le _ _).trans (max_le_max h.recurrence.natDegree_le ?_)
    refine (natDegree_C_mul_le _ _).trans ((natDegree_mul_le).trans ?_)
    rw [natDegree_X_pow]
    omega
  coeff_zero := by
    have hshift := h.shift_pos
    rw [coeff_corrected, if_neg (by omega), mul_zero, sub_zero, h.recurrence.coeff_zero]
  holds := by
    intro i hi hn
    have hprevious := h.previous_natDegree
    rw [discrepancy_corrected, if_pos (by omega)]
    rcases Nat.lt_or_eq_of_le hn with hlt | rfl
    · rw [h.recurrence.holds i (by omega) (by omega),
        h.previous_holds (i - σ.shift) (by omega) (by omega), mul_zero, sub_zero]
    · rw [h.previous_fails, div_mul_cancel₀ _ h.scale_ne_zero, sub_self]

theorem Invariant.init (hS : PowerSeries.coeff 0 S = 1) : Invariant S 0 (init : State K) where
  recurrence := ⟨natDegree_one.le, coeff_one_zero, fun i hi hn => absurd hi (by omega)⟩
  shift_pos := Nat.one_pos
  previous_natDegree := by simp [BerlekampMassey.init]
  previous_holds := fun i _ hi => absurd hi (by simp [BerlekampMassey.init])
  previous_fails := by simpa [discrepancy, BerlekampMassey.init] using hS
  scale_ne_zero := one_ne_zero

/-- **One step** keeps the invariant. -/
theorem Invariant.step (h : Invariant S n σ) : Invariant S (n + 1) (step S n σ) := by
  have hlength := h.length_le
  have hprevious := h.previous_natDegree
  have hcorrected := h.corrected
  rw [BerlekampMassey.step]
  split_ifs with hd hshort
  · exact {
      recurrence := ⟨h.recurrence.natDegree_le, h.recurrence.coeff_zero, fun i hi hn => by
        rcases Nat.lt_or_eq_of_le hn with hlt | rfl
        · exact h.recurrence.holds i hi (by omega)
        · exact hd⟩
      shift_pos := Nat.succ_pos _
      previous_natDegree := by dsimp only; omega
      previous_holds := fun i hi hn => h.previous_holds i (by dsimp only at hi; omega)
        (by dsimp only at hn; omega)
      previous_fails := by
        rw [← h.previous_fails]
        exact congrArg _ (by dsimp only; omega)
      scale_ne_zero := h.scale_ne_zero }
  · rw [max_eq_right (by omega)] at hcorrected
    exact {
      recurrence := hcorrected
      shift_pos := Nat.one_pos
      previous_natDegree := by
        have := h.recurrence.natDegree_le
        dsimp only
        omega
      previous_holds := fun i hi hn => h.recurrence.holds i (by dsimp only at hi; omega)
        (by dsimp only at hn; omega)
      previous_fails := rfl
      scale_ne_zero := hd }
  · rw [max_eq_left (by omega)] at hcorrected
    exact {
      recurrence := hcorrected
      shift_pos := Nat.succ_pos _
      previous_natDegree := by dsimp only; omega
      previous_holds := fun i hi hn => h.previous_holds i (by dsimp only at hi; omega)
        (by dsimp only at hn; omega)
      previous_fails := by
        rw [← h.previous_fails]
        exact congrArg _ (by dsimp only; omega)
      scale_ne_zero := h.scale_ne_zero }

theorem run_invariant (hS : PowerSeries.coeff 0 S = 1) (n : ℕ) : Invariant S n (run S n) := by
  induction n with
  | zero => exact .init hS
  | succ n ih =>
    rw [run_succ]
    exact ih.step

/-- **No recurrence is shorter** than the one found. -/
theorem run_length_le (hS : PowerSeries.coeff 0 S = 1) {q : K[X]} {v : ℕ} (n : ℕ)
    (hq : Recurrence S q v n) : (run S n).length ≤ v := by
  induction n with
  | zero => exact Nat.zero_le v
  | succ n ih =>
    have hbefore := ih ⟨hq.natDegree_le, hq.coeff_zero, fun i hi hn => hq.holds i hi (by omega)⟩
    rw [run_succ, step]
    split_ifs with hd hshort
    · exact hbefore
    · have := (run_invariant hS n).recurrence.length_add hd hq
      dsimp only
      omega
    · exact hbefore

/-! ## Power sums -/

/-- The series of the sums of the powers of the elements of `E`, after a first term
that is `1`. -/
noncomputable def powerSums (E : Finset K) : PowerSeries K :=
  PowerSeries.mk fun k => if k = 0 then 1 else ∑ x ∈ E, x ^ k

variable {E : Finset K}

theorem coeff_powerSums {k : ℕ} (hk : k ≠ 0) :
    PowerSeries.coeff k (powerSums E) = ∑ x ∈ E, x ^ k := by
  rw [powerSums, PowerSeries.coeff_mk, if_neg hk]

theorem coeff_zero_powerSums : PowerSeries.coeff 0 (powerSums E) = 1 := by
  rw [powerSums, PowerSeries.coeff_mk, if_pos rfl]

variable (hE : ∀ x ∈ E, x ≠ 0)
include hE

/-- By what a polynomial fails on power sums is read off its values at the inverses. -/
theorem discrepancy_powerSums {p : K[X]} {i : ℕ} (hi : p.natDegree < i) :
    discrepancy (powerSums E) p i = ∑ x ∈ E, x ^ i * p.eval x⁻¹ := by
  have hvalue : ∀ x ∈ E, x ^ i * p.eval x⁻¹ = ∑ j ∈ Finset.range i, p.coeff j * x ^ (i - j) := by
    intro x hx
    rw [eval_eq_sum_range' hi, Finset.mul_sum]
    refine Finset.sum_congr rfl fun j hj => ?_
    have hle : j ≤ i := (Finset.mem_range.mp hj).le
    rw [mul_left_comm, inv_pow, ← pow_sub₀ x (hE x hx) hle]
  rw [discrepancy_eq_sum _ (Nat.le_sub_one_of_lt hi) (Nat.sub_le i 1),
    Nat.sub_add_cancel (by omega), Finset.sum_congr rfl hvalue, Finset.sum_comm]
  refine Finset.sum_congr rfl fun j hj => ?_
  rw [coeff_powerSums (Nat.sub_ne_zero_of_lt (Finset.mem_range.mp hj)), Finset.mul_sum]

/-- The elements themselves give a recurrence. -/
theorem recurrence_powerSums (n : ℕ) :
    Recurrence (powerSums E) (∏ x ∈ E, (1 - C x * X)) E.card n := by
  have hdegree : (∏ x ∈ E, (1 - C x * X)).natDegree ≤ E.card := by
    refine (natDegree_prod_le _ _).trans ((Finset.sum_le_card_nsmul _ _ 1 fun x _ => ?_).trans_eq
      (by simp))
    exact (natDegree_sub_le _ _).trans
      (max_le (by simp) ((natDegree_C_mul_le _ _).trans natDegree_X_le))
  refine ⟨hdegree, ?_, fun i hi _ => ?_⟩
  · rw [coeff_zero_eq_eval_zero, eval_prod]
    simp
  · rw [discrepancy_powerSums hE (hdegree.trans_lt hi)]
    refine Finset.sum_eq_zero fun x hx => mul_eq_zero_of_right _ ?_
    rw [eval_prod]
    exact Finset.prod_eq_zero hx (by simp [hE x hx])

omit hE in
/-- Distinct elements, weighted, have no power sums that vanish together. -/
theorem eq_zero_of_sum_pow_mul {y : K → K} (h : ∀ t < E.card, ∑ x ∈ E, x ^ t * y x = 0) :
    ∀ x ∈ E, y x = 0 := by
  have hinjective : Function.Injective fun i : Fin E.card => (E.equivFin.symm i : K) :=
    Subtype.val_injective.comp E.equivFin.symm.injective
  have hzero :=
    Matrix.eq_zero_of_forall_pow_sum_mul_pow_eq_zero (v := fun i => y (E.equivFin.symm i))
    hinjective fun t => by
      rw [← h t t.isLt, ← Finset.sum_coe_sort E, ← E.equivFin.symm.sum_comp]
      exact Finset.sum_congr rfl fun i _ => mul_comm _ _
  intro x hx
  have := congrFun hzero (E.equivFin ⟨x, hx⟩)
  simpa using this

/-- **The recurrence found on power sums** has the elements' inverses as its roots. -/
theorem run_powerSums {t : ℕ} (ht : E.card ≤ t) :
    (run (powerSums E) (2 * t)).length = E.card ∧
      ∀ y ≠ 0, (run (powerSums E) (2 * t)).connection.eval y⁻¹ = 0 ↔ y ∈ E := by
  classical
  have hfound := (run_invariant (coeff_zero_powerSums (E := E)) (2 * t)).recurrence
  have hle := run_length_le coeff_zero_powerSums (2 * t) (recurrence_powerSums hE (2 * t))
  generalize run (powerSums E) (2 * t) = σ at hfound hle
  have hdegree := hfound.natDegree_le
  have hroots : ∀ x ∈ E, σ.connection.eval x⁻¹ = 0 := by
    have hsums : ∀ k < E.card, ∑ x ∈ E, x ^ k * (x ^ (E.card + 1) * σ.connection.eval x⁻¹) = 0 := by
      intro k hk
      rw [← hfound.holds (k + (E.card + 1)) (by omega) (by omega),
        discrepancy_powerSums hE (by omega)]
      exact Finset.sum_congr rfl fun x _ => by rw [← mul_assoc, ← pow_add]
    intro x hx
    exact (mul_eq_zero.mp (eq_zero_of_sum_pow_mul hsums x hx)).resolve_left
      (pow_ne_zero _ (hE x hx))
  have hne : σ.connection ≠ 0 := by
    intro hzero
    simpa [hzero] using hfound.coeff_zero
  -- No polynomial has more roots than its degree, unless it is zero.
  have hcount (R : Finset K) (hR : ∀ x ∈ R, σ.connection.eval x⁻¹ = 0) : R.card ≤ σ.length := by
    by_contra hlt
    refine hne (eq_zero_of_natDegree_lt_card_of_eval_eq_zero' _ (R.image (·⁻¹)) ?_ ?_)
    · intro z hz
      obtain ⟨x, hx, rfl⟩ := Finset.mem_image.mp hz
      exact hR x hx
    · rw [Finset.card_image_of_injective _ inv_injective]
      omega
  refine ⟨le_antisymm hle (hcount E hroots), fun y hy => ⟨fun hy => ?_, hroots y⟩⟩
  by_contra hmem
  have := hcount (insert y E) fun x hx => by
    rcases Finset.mem_insert.mp hx with rfl | hx
    · exact hy
    · exact hroots x hx
  rw [Finset.card_insert_of_notMem hmem] at this
  omega

end Atoman.Lib.BerlekampMassey
