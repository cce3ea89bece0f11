import Atoman.Bch4.Correct
import Mathlib.Algebra.Polynomial.Roots

/-!
# What the decoder accepts

The syndromes vanish exactly on the codewords: the parity of a sector and the parity of its
payload differ by a polynomial of 52 bits, and if it vanishes at the first eight powers of
the root it vanishes at 52 of them, as its values at squares are squares. Whatever
`bch4_correct` is given, what it returns with a count is a codeword, and the count is the
number of bits it inverted.
-/

namespace Atoman.Bch4
open Lib

/-! ## Codewords -/

/-- The 52 parity bits are those of the encoder. -/
def Sector.Codeword (σ : Sector) : Prop := ∀ b < 52, hasBit σ.ecc b = hasBit (parity σ.data) b

/-- The exponents of the roots of the generator. -/
def rootExponents : List ℕ :=
  [1, 3, 5, 7].flatMap fun j => (List.range 13).map fun i => j * 2 ^ i % 8191

theorem rootExponents_nodup : rootExponents.Nodup := by decide +kernel

section vanishing
variable {K : Type*} [Field K] [CharP K 2] {α : K}

/-- The polynomial of 52 bits. -/
noncomputable def bitPolynomial (f : ℕ → Bool) : Polynomial K :=
  ∑ b ∈ Finset.range 52, if f b then Polynomial.X ^ b else 0

omit [CharP K 2] in
theorem eval_bitPolynomial (f : ℕ → Bool) (x : K) :
    (bitPolynomial f).eval x = ∑ b ∈ Finset.range 52, if f b then x ^ b else 0 := by
  rw [bitPolynomial, Polynomial.eval_finsetSum]
  refine Finset.sum_congr rfl fun b _ => ?_
  split <;> simp

omit [CharP K 2] in
theorem coeff_bitPolynomial (f : ℕ → Bool) {b : ℕ} (hb : b < 52) :
    (bitPolynomial (K := K) f).coeff b = if f b then 1 else 0 := by
  rw [bitPolynomial, Polynomial.finsetSum_coeff, Finset.sum_eq_single b]
  · split <;> simp
  · intro c _ hne
    split
    · simp [Polynomial.coeff_X_pow, hne.symm]
    · simp
  · intro h
    exact absurd (Finset.mem_range.mpr hb) h

omit [CharP K 2] in
theorem natDegree_bitPolynomial (f : ℕ → Bool) : (bitPolynomial (K := K) f).natDegree < 52 := by
  refine Nat.lt_succ_of_le (Polynomial.natDegree_sum_le_of_forall_le _ _ fun b hb => ?_)
  rw [Finset.mem_range] at hb
  split
  · rw [Polynomial.natDegree_X_pow]
    omega
  · simp

/-- A root of a polynomial of bits has its square for a root. -/
theorem eval_bitPolynomial_sq (f : ℕ → Bool) (x : K) :
    (bitPolynomial f).eval (x ^ 2) = (bitPolynomial f).eval x ^ 2 := by
  rw [eval_bitPolynomial, eval_bitPolynomial, sum_pow_char 2]
  refine Finset.sum_congr rfl fun b _ => ?_
  split
  · rw [← pow_mul, ← pow_mul, mul_comm]
  · simp

theorem eval_bitPolynomial_two_pow {f : ℕ → Bool} {x : K} (h : (bitPolynomial f).eval x = 0)
    (i : ℕ) : (bitPolynomial f).eval (x ^ 2 ^ i) = 0 := by
  induction i with
  | zero => simpa using h
  | succ i ih => rw [pow_succ, pow_mul, eval_bitPolynomial_sq, ih, zero_pow two_ne_zero]

/-- **Fewer than 53 bits** that vanish at the first eight powers of the root are no bits. -/
theorem bits_vanish (hα : IsRoot α) {f : ℕ → Bool}
    (h : ∀ j, 1 ≤ j → j ≤ 8 → ∑ b ∈ Finset.range 52, (if f b then (α ^ j) ^ b else 0) = 0) :
    ∀ b < 52, f b = false := by
  classical
  have hroot : ∀ e ∈ rootExponents, (bitPolynomial f).eval (α ^ e) = 0 := by
    intro e he
    obtain ⟨j, hj, he⟩ := List.mem_flatMap.mp he
    obtain ⟨i, -, rfl⟩ := List.mem_map.mp he
    have hvalue : (bitPolynomial f).eval (α ^ j) = 0 := by
      rw [eval_bitPolynomial]
      exact h j (by simp at hj; omega) (by simp at hj; omega)
    have hpower : α ^ (j * 2 ^ i % 8191) = (α ^ j) ^ 2 ^ i := by
      rw [← pow_mul, ← hα.orderOf_eq, pow_mod_orderOf]
    rw [hpower]
    exact eval_bitPolynomial_two_pow hvalue i
  have hlt : ∀ e ∈ rootExponents, e < 8191 := by
    intro e he
    obtain ⟨j, -, he⟩ := List.mem_flatMap.mp he
    obtain ⟨i, -, rfl⟩ := List.mem_map.mp he
    exact Nat.mod_lt _ (by decide)
  have hcard : (rootExponents.toFinset.image (α ^ ·)).card = 52 := by
    rw [Finset.card_image_of_injOn, List.toFinset_card_of_nodup rootExponents_nodup]
    · rfl
    · intro d hd e he heq
      rw [List.coe_toFinset] at hd he
      exact hα.pow_inj (hlt d hd) (hlt e he) heq
  have hzero : bitPolynomial (K := K) f = 0 := by
    refine Polynomial.eq_zero_of_natDegree_lt_card_of_eval_eq_zero' _
      (rootExponents.toFinset.image (α ^ ·)) ?_ (hcard ▸ natDegree_bitPolynomial f)
    intro x hx
    obtain ⟨e, he, rfl⟩ := Finset.mem_image.mp hx
    exact hroot e (List.mem_toFinset.mp he)
  intro b hb
  have hcoeff := coeff_bitPolynomial (K := K) f hb
  rw [hzero, Polynomial.coeff_zero] at hcoeff
  by_contra hbit
  rw [Bool.not_eq_false] at hbit
  rw [if_pos hbit] at hcoeff
  exact zero_ne_one hcoeff

/-- The bits in which the parity of a sector is wrong. -/
def Sector.wrong (σ : Sector) (b : ℕ) : Bool := hasBit σ.ecc b ^^ hasBit (parity σ.data) b

/-- The value of a sector is that of its wrong parity bits. -/
theorem value_eq_wrong (hα : IsRoot α) (σ : Sector) {j : ℕ} (hpos : 1 ≤ j) (hle : j ≤ 8) :
    σ.value (α ^ j) = ∑ b ∈ Finset.range 52, if σ.wrong b then (α ^ j) ^ b else 0 := by
  have hencoded := value_encoded_pow hα σ.data hpos hle
  have hsplit : ∀ b ∈ Finset.range bch4Bits, (if σ.testBit b then (α ^ j) ^ b else 0) =
      (if (Sector.mk σ.data (parity σ.data)).testBit b then (α ^ j) ^ b else 0) +
        if b < 52 ∧ σ.wrong b = true then (α ^ j) ^ b else 0 := by
    intro b _
    unfold Sector.testBit Sector.wrong
    by_cases hb : b < 52
    · simp only [hb, if_true, true_and]
      cases hasBit σ.ecc b <;> cases hasBit (parity σ.data) b <;> simp [CharTwo.add_self_eq_zero]
    · simp [hb]
  rw [Sector.value, Sector.valueTo] at hencoded ⊢
  rw [Finset.sum_congr rfl hsplit, Finset.sum_add_distrib, hencoded, zero_add]
  have hsubset : Finset.range 52 ⊆ Finset.range bch4Bits := Finset.range_mono (by decide)
  rw [← Finset.sum_subset hsubset fun b _ hb => if_neg fun h => hb (Finset.mem_range.mpr h.1)]
  refine Finset.sum_congr rfl fun b hb => ?_
  rw [Finset.mem_range] at hb
  simp [hb]

/-- **Zero syndromes mean a codeword.** -/
theorem syndromes_eq_zero_iff (hα : IsRoot α) (σ : Sector) :
    (syndromes σ).2 = 0 ↔ σ.Codeword := by
  rw [(syndromes_spec hα σ).2]
  constructor
  · intro h b hb
    have hright := bits_vanish hα (f := σ.wrong) fun j hpos hle => by
      rw [← value_eq_wrong hα σ hpos hle, h j hpos hle]
    have := hright b hb
    unfold Sector.wrong at this
    revert this
    cases hasBit σ.ecc b <;> cases hasBit (parity σ.data) b <;> simp
  · intro h j hpos hle
    rw [value_eq_wrong hα σ hpos hle]
    refine Finset.sum_eq_zero fun b hb => if_neg ?_
    rw [Sector.wrong, h b (Finset.mem_range.mp hb)]
    simp

end vanishing

/-! ## The bits inverted -/

/-- The search has inverted some bits below `n`, and counted them. -/
def Search.Inverted (σ : Sector) (n : ℕ) (q : Search) : Prop :=
  ∃ bits : List ℕ, bits.Nodup ∧ (∀ b ∈ bits, b < n) ∧ q.sector = bits.foldl Sector.invert σ ∧
    q.found = bits.length

theorem Search.Inverted.next {σ : Sector} {n : ℕ} {q : Search} (h : q.Inverted σ n) (degree : ℕ) :
    (q.next degree n).Inverted σ (n + 1) := by
  obtain ⟨bits, hnodup, hlt, hsector, hfound⟩ := h
  unfold Search.next
  by_cases hroot : q.value degree = 0
  · refine ⟨bits ++ [n], ?_, ?_, ?_, ?_⟩
    · refine hnodup.append (List.nodup_singleton n) ?_
      rw [List.disjoint_singleton]
      exact fun hmem => Nat.lt_irrefl n (hlt n hmem)
    · intro b hb
      rcases List.mem_append.mp hb with hb | hb
      · exact (hlt b hb).trans (Nat.lt_succ_self n)
      · rw [List.mem_singleton.mp hb]
        exact Nat.lt_succ_self n
    · simp [hroot, hsector]
    · simp [hroot, hfound]
  · refine ⟨bits, hnodup, fun b hb => (hlt b hb).trans (Nat.lt_succ_self n), ?_, ?_⟩
    · simp [hroot, hsector]
    · simp [hroot, hfound]

theorem testBit_foldl_invert {bits : List ℕ} (hnodup : bits.Nodup) (σ : Sector) {c : ℕ}
    (hc : c < bch4Bits) :
    (bits.foldl Sector.invert σ).testBit c = (σ.testBit c ^^ decide (c ∈ bits)) := by
  induction bits generalizing σ with
  | nil => simp
  | cons b bits ih =>
    rw [List.nodup_cons] at hnodup
    rw [List.foldl_cons, ih hnodup.2, σ.testBit_invert hc]
    by_cases hbc : b = c
    · subst hbc
      simp [hnodup.1]
    · simp [hbc, Ne.symm hbc]

/-- The spare parity bits are never inverted. -/
theorem spare_foldl_invert (bits : List ℕ) (σ : Sector) {c : ℕ} (hlow : 52 ≤ c) (hhigh : c < 56) :
    hasBit (bits.foldl Sector.invert σ).ecc c = hasBit σ.ecc c := by
  induction bits generalizing σ with
  | nil => rfl
  | cons b bits ih =>
    rw [List.foldl_cons, ih]
    unfold Sector.invert
    split
    · rw [hasBit_invertBit σ.ecc (by omega), decide_eq_false (by omega), Bool.xor_false]
    · rfl

/-! ## Soundness -/

/-- The code bits in which two sectors differ. -/
def Sector.differences (σ τ : Sector) : List ℕ :=
  (List.range bch4Bits).filter fun b => σ.testBit b != τ.testBit b

theorem differences_foldl_invert {bits : List ℕ} (hnodup : bits.Nodup)
    (hlt : ∀ b ∈ bits, b < bch4Bits) (σ : Sector) :
    (σ.differences (bits.foldl Sector.invert σ)).length = bits.length := by
  have hsame : σ.differences (bits.foldl Sector.invert σ) =
      (List.range bch4Bits).filter (· ∈ bits) := by
    refine List.filter_congr fun b hb => ?_
    rw [testBit_foldl_invert hnodup σ (List.mem_range.mp hb)]
    cases σ.testBit b <;> cases decide (b ∈ bits) <;> rfl
  rw [hsame]
  exact (filter_range_perm hnodup hlt).length_eq.symm

/-- What a count of `bch4_correct` says of the sector before and after. -/
structure Corrects (before : Sector) (count : ℤ) (after : Sector) : Prop where
  codeword : after.Codeword
  count_eq : count = (before.differences after).length
  count_le : count ≤ 4
  spare : ∀ b, 52 ≤ b → b < 56 → hasBit after.ecc b = hasBit before.ecc b

/-- A failure says only that the input was no codeword. -/
theorem failure_sound {σ : Sector} (h : ¬ σ.Codeword) (τ : Sector) :
    (0 ≤ (-1 : ℤ) → Corrects σ (-1) τ) ∧ ((-1 : ℤ) = 0 ↔ σ.Codeword) :=
  ⟨fun hneg => absurd hneg (by decide), fun hzero => absurd hzero (by decide),
    fun hc => absurd hc h⟩

theorem correctSector_sound (σ : Sector) :
    (0 ≤ (correctSector σ).1 → Corrects σ (correctSector σ).1 (correctSector σ).2) ∧
      ((correctSector σ).1 = 0 ↔ σ.Codeword) := by
  obtain ⟨K, _, _, α, hα⟩ := exists_isRoot
  have hcode := syndromes_eq_zero_iff hα σ
  unfold correctSector
  dsimp only
  by_cases hclean : (syndromes σ).2 = 0
  · rw [if_pos hclean]
    have hnone : σ.differences σ = [] := by simp [Sector.differences]
    exact ⟨fun _ => ⟨hcode.mp hclean, by rw [hnone]; rfl, Int.le_of_lt (show (0 : ℤ) < 4 by decide),
      fun _ _ _ => rfl⟩,
      fun _ => hcode.mp hclean, fun _ => rfl⟩
  · have hbad : ¬ σ.Codeword := fun h => hclean (hcode.mpr h)
    rw [if_neg hclean]
    generalize loop 8 (Locator.next (syndromes σ).1) Locator.init = l
    by_cases hdegree : l.degree = 0 ∨ 4 < l.degree
    · rw [if_pos hdegree]
      exact failure_sound hbad σ
    · rw [if_neg hdegree]
      have hsearch := loop_invariant (n := bch4Bits) (f := Search.next l.degree)
        (s := ⟨Vector.ofFn fun j : Fin 5 => l.locator[j.val]!, σ, 0⟩)
        (P := fun n q => Search.Inverted σ n q)
        ⟨[], List.nodup_nil, fun b hb => absurd hb List.not_mem_nil, rfl, rfl⟩
        fun n q _ h => h.next l.degree
      generalize loop bch4Bits (Search.next l.degree) _ = q at hsearch
      obtain ⟨bits, hnodup, hlt, hsector, hfound⟩ := hsearch
      by_cases hfail : q.found ≠ l.degree ∨ (syndromes q.sector).2 ≠ 0
      · rw [if_pos hfail]
        exact failure_sound hbad q.sector
      · rw [if_neg hfail]
        rw [not_or, not_not, not_not] at hfail
        rw [not_or] at hdegree
        refine ⟨fun _ => ⟨(syndromes_eq_zero_iff hα _).mp hfail.2, ?_, ?_, ?_⟩, ?_, ?_⟩
        · rw [hsector, differences_foldl_invert hnodup hlt, hfound]
        · have := hfail.1
          omega
        · intro b hlow hhigh
          rw [hsector, spare_foldl_invert bits σ hlow hhigh]
        · intro hzero
          have := hfail.1
          omega
        · exact fun h => absurd h hbad

/-- **What is accepted is a codeword.** Whatever the payload and the parity, with a count
they become a codeword that differs from them in as many code bits, at most four, and in no
spare bit; and the count is zero just for codewords. -/
theorem correct_sound (data : Vector UInt8 512) (ecc : Vector UInt8 7) :
    ∃ count data' ecc', bch4Correct (some data) (some ecc) = (count, some data', some ecc') ∧
      (0 ≤ count → Corrects ⟨data, ecc⟩ count ⟨data', ecc'⟩) ∧
      (count = 0 ↔ (Sector.mk data ecc).Codeword) :=
  ⟨_, _, _, rfl, correctSector_sound ⟨data, ecc⟩⟩

end Atoman.Bch4
