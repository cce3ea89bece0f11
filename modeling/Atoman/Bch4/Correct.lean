import Atoman.Bch4.Codec

/-!
# What is corrected

The roots of the error locator are looked for bit by bit, the terms of the polynomial
going from one bit to the next by shifts. Of an encoded sector with at most four bits
inverted, the syndromes are the power sums of the errors; the roots then are the
errors, and inverting them again gives back the sector that was encoded.
-/

namespace Atoman.Bch4
open Lib

/-! ## The root search -/

section search
variable {K : Type*} [Field K] {α : K} {p : Polynomial K} {degree n : ℕ} {q : Search}

/-- The terms of the polynomial at `α^-n`. -/
def Terms (α : K) (p : Polynomial K) (degree n : ℕ) (t : Vector UInt16 5) : Prop :=
  ∀ j ≤ degree, Represents α t[j]!.toNat (p.coeff j * (α ^ n)⁻¹ ^ j)

variable [CharP K 2] (hα : IsRoot α)

/-- **The value** at one bit. -/
theorem Search.represents_value (hp : p.natDegree ≤ degree) (ht : Terms α p degree n q.terms) :
    Represents α (q.value degree).toNat (p.eval (α ^ n)⁻¹) := by
  have hloop := loop_invariant (n := degree) (s := q.terms[0]!)
    (f := fun i v => v ^^^ q.terms[i + 1]!) (P := fun m (v : UInt16) => Represents α v.toNat
      (∑ j ∈ Finset.range (m + 1), p.coeff j * (α ^ n)⁻¹ ^ j)) ?_ fun i v hi hv => ?_
  · rw [Polynomial.eval_eq_sum_range' (Nat.lt_succ_of_le hp)]
    exact hloop
  · simpa using ht 0 (Nat.zero_le _)
  · rw [Finset.sum_range_succ, UInt16.toNat_xor]
    exact hv.xor (ht (i + 1) hi)

include hα in
theorem represents_shiftsBack {term : UInt16} {v : K} (h : Represents α term.toNat v) (m : ℕ) :
    Represents α (loop m (fun _ term => (shiftBack term.toUInt32).toUInt16) term).toNat
      (α⁻¹ ^ m * v) := by
  refine loop_invariant (P := fun m (x : UInt16) => Represents α x.toNat (α⁻¹ ^ m * v)) ?_
    fun i x _ hx => ?_
  · rw [pow_zero, one_mul]
    exact h
  · have hback := Represents.shiftBack (x := x.toUInt32) hα hx
    have hlt := hback.lt
    rw [UInt32.toNat_toUInt16, Nat.mod_eq_of_lt (by omega), pow_succ', mul_assoc]
    exact hback

include hα in
/-- **The terms** at the next bit. -/
theorem Search.terms_advanced (hdegree : degree ≤ 4) (ht : Terms α p degree n q.terms) :
    Terms α p degree (n + 1) (q.advanced degree) := by
  intro j hj
  rw [Search.advanced, getElem!_loop_modifyAt _ (fun i term =>
    loop (i + 1) (fun _ term => (shiftBack term.toUInt32).toUInt16) term) _ _ _ (by omega)]
  have hpower : p.coeff j * (α ^ (n + 1))⁻¹ ^ j = α⁻¹ ^ j * (p.coeff j * (α ^ n)⁻¹ ^ j) := by
    rw [pow_succ, mul_inv, mul_pow]
    ring
  rw [hpower]
  by_cases hpos : 1 ≤ j
  · rw [if_pos ⟨hpos, by omega⟩, Nat.sub_add_cancel hpos]
    exact represents_shiftsBack hα (ht j hj) j
  · obtain rfl : j = 0 := by omega
    rw [if_neg (by omega), pow_zero, one_mul]
    exact ht 0 hj

/-- What holds in the search after `n` bits: the bits of `bits` below `n` are inverted. -/
structure Search.Inv (α : K) (p : Polynomial K) (degree : ℕ) (σ : Sector) (bits : List ℕ) (n : ℕ)
    (q : Search) : Prop where
  terms : Terms α p degree n q.terms
  sector : q.sector = ((List.range n).filter (· ∈ bits)).foldl Sector.invert σ
  found : q.found = ((List.range n).filter (· ∈ bits)).length

include hα in
theorem Search.Inv.next {σ : Sector} {bits : List ℕ} (h : q.Inv α p degree σ bits n)
    (hdegree : degree ≤ 4) (hp : p.natDegree ≤ degree)
    (hroot : p.eval (α ^ n)⁻¹ = 0 ↔ n ∈ bits) :
    (q.next degree n).Inv α p degree σ bits (n + 1) := by
  have hvalue := Search.represents_value hp h.terms
  have hzero : q.value degree = 0 ↔ n ∈ bits := by
    rw [← hroot, ← hvalue.eq_zero_iff hα, ← UInt16.toNat_inj, UInt16.toNat_zero]
  refine ⟨Search.terms_advanced hα hdegree h.terms, ?_, ?_⟩
  · unfold Search.next
    rw [List.range_succ, List.filter_append, List.foldl_append, ← h.sector]
    by_cases hn : n ∈ bits
    · simp [hzero.mpr hn, hn]
    · simp [hzero.not.mpr hn, hn]
  · unfold Search.next
    rw [List.range_succ, List.filter_append, List.length_append, ← h.found]
    by_cases hn : n ∈ bits
    · simp [hzero.mpr hn, hn]
    · simp [hzero.not.mpr hn, hn]

end search

/-! ## Errors -/

instance : RightCommutative Sector.invert := ⟨Sector.invert_comm⟩

/-- Inverted twice, the bits are as they were. -/
theorem foldl_invert_self {l l' : List ℕ} (h : l.Perm l') (σ : Sector) :
    l'.foldl Sector.invert (l.foldl Sector.invert σ) = σ := by
  have hreverse (l : List ℕ) (σ : Sector) :
      l.reverse.foldl Sector.invert (l.foldl Sector.invert σ) = σ := by
    induction l generalizing σ with
    | nil => rfl
    | cons b l ih =>
      rw [List.reverse_cons, List.foldl_append]
      change (l.reverse.foldl Sector.invert (l.foldl Sector.invert (σ.invert b))).invert b = σ
      rw [ih, σ.invert_invert]
  rw [(h.symm.trans l.reverse_perm.symm).foldl_eq]
  exact hreverse l σ

/-- The bits of a list without repetitions, in the order they are searched. -/
theorem filter_range_perm {bits : List ℕ} {n : ℕ} (hnodup : bits.Nodup) (hlt : ∀ b ∈ bits, b < n) :
    bits.Perm ((List.range n).filter (· ∈ bits)) := by
  refine (List.perm_ext_iff_of_nodup hnodup (List.nodup_range.filter _)).mpr fun b => ?_
  rw [List.mem_filter, List.mem_range, decide_eq_true_eq]
  exact ⟨fun hb => ⟨hlt b hb, hb⟩, fun hb => hb.2⟩

section errors
variable {K : Type*} [Field K]

open Classical in
/-- The errors at some bits, as elements of the field. -/
noncomputable def errors (α : K) (bits : List ℕ) : Finset K := bits.toFinset.image (α ^ ·)

variable [CharP K 2]

theorem value_foldl_invert (σ : Sector) {bits : List ℕ} (hlt : ∀ b ∈ bits, b < bch4Bits) (x : K) :
    (bits.foldl Sector.invert σ).value x = σ.value x + (bits.map (x ^ ·)).sum := by
  induction bits generalizing σ with
  | nil => simp
  | cons b bits ih =>
    rw [List.foldl_cons, ih _ fun c hc => hlt c (List.mem_cons_of_mem b hc),
      σ.value_invert (hlt b List.mem_cons_self), List.map_cons, List.sum_cons, add_assoc]

variable {α : K} (hα : IsRoot α)
variable {bits : List ℕ} (hnodup : bits.Nodup) (hlt : ∀ b ∈ bits, b < bch4Bits)
include hα

omit [CharP K 2] in
theorem errors_ne_zero : ∀ x ∈ errors α bits, x ≠ 0 := by
  classical
  intro x hx
  obtain ⟨b, -, rfl⟩ := Finset.mem_image.mp hx
  exact pow_ne_zero b hα.ne_zero

include hlt

/-- Different bits are different errors. -/
theorem errors_injOn : Set.InjOn (α ^ ·) (bits.toFinset : Set ℕ) := by
  intro b hb c hc h
  have hb := hlt b (List.mem_toFinset.mp hb)
  have hc := hlt c (List.mem_toFinset.mp hc)
  unfold bch4Bits at hb hc
  exact hα.pow_inj (by omega) (by omega) h

theorem mem_errors {b : ℕ} (hb : b < bch4Bits) : α ^ b ∈ errors α bits ↔ b ∈ bits := by
  classical
  constructor
  · intro hmem
    obtain ⟨c, hc, heq⟩ := Finset.mem_image.mp hmem
    rw [List.mem_toFinset] at hc
    have hbits := hlt c hc
    unfold bch4Bits at hb hbits
    rwa [← hα.pow_inj (by omega) (by omega) heq]
  · intro hmem
    exact Finset.mem_image_of_mem _ (List.mem_toFinset.mpr hmem)

include hnodup

theorem card_errors : (errors α bits).card = bits.length := by
  classical
  rw [errors, Finset.card_image_of_injOn (errors_injOn hα hlt), List.toFinset_card_of_nodup hnodup]

/-- **The syndromes of a corrupted sector** are the power sums of its errors. -/
theorem value_corrupted (data : Vector UInt8 512) {j : ℕ} (hpos : 1 ≤ j) (hle : j ≤ 8) :
    (bits.foldl Sector.invert ⟨data, parity data⟩).value (α ^ j) =
      PowerSeries.coeff j (BerlekampMassey.powerSums (errors α bits)) := by
  classical
  rw [value_foldl_invert _ hlt, value_encoded_pow hα data hpos hle, zero_add,
    BerlekampMassey.coeff_powerSums (by omega), errors, Finset.sum_image (errors_injOn hα hlt),
    List.sum_toFinset _ hnodup]
  simp only [← pow_mul, mul_comm j]

/-- Errors show in the syndromes. -/
theorem bits_eq_nil (hlength : bits.length ≤ 4)
    (hnone : ∀ j, 1 ≤ j → j ≤ 8 →
      PowerSeries.coeff j (BerlekampMassey.powerSums (errors α bits)) = 0) : bits = [] := by
  have hcard := card_errors hα hnodup hlt
  have hzero : ∀ x ∈ errors α bits, x = 0 := by
    refine BerlekampMassey.eq_zero_of_sum_pow_mul (y := id) fun t ht => ?_
    rw [← hnone (t + 1) (by omega) (by omega), BerlekampMassey.coeff_powerSums (Nat.succ_ne_zero t)]
    exact Finset.sum_congr rfl fun x _ => (pow_succ x t).symm
  have hempty : errors α bits = ∅ :=
    Finset.eq_empty_of_forall_notMem fun x hx => errors_ne_zero hα x hx (hzero x hx)
  rw [hempty, Finset.card_empty] at hcard
  exact List.eq_nil_of_length_eq_zero hcard.symm

end errors

/-! ## Correction -/

/-- **Four errors are corrected**, given the bits that are inverted. -/
theorem correctSector_corrupted (data : Vector UInt8 512) {bits : List ℕ} (hnodup : bits.Nodup)
    (hlt : ∀ b ∈ bits, b < bch4Bits) (hlength : bits.length ≤ 4) :
    correctSector (bits.foldl Sector.invert ⟨data, parity data⟩) =
      ((bits.length : ℤ), Sector.mk data (parity data)) := by
  obtain ⟨K, _, _, α, hα⟩ := exists_isRoot
  have hvalue (j : ℕ) (hpos : 1 ≤ j) (hle : j ≤ 8) := value_corrupted hα hnodup hlt data hpos hle
  have hcard := card_errors hα hnodup hlt
  have hperm := filter_range_perm hnodup hlt
  have hrestored := foldl_invert_self hperm ⟨data, parity data⟩
  generalize bits.foldl Sector.invert ⟨data, parity data⟩ = received at hvalue hrestored
  obtain ⟨hholds, hflag⟩ := syndromes_spec hα received
  have hsums : ∀ j, 1 ≤ j → j ≤ 8 → Represents α (syndromes received).1[j]!.toNat
      (PowerSeries.coeff j (BerlekampMassey.powerSums (errors α bits))) := by
    intro j hpos hle
    rw [← hvalue j hpos hle]
    exact hholds j hpos hle
  unfold correctSector
  dsimp only
  by_cases hnone : (syndromes received).2 = 0
  · have hall := hflag.mp hnone
    obtain rfl := bits_eq_nil hα hnodup hlt hlength fun j hpos hle => by
      rw [← hvalue j hpos hle, hall j hpos hle]
    have hsame : received = ⟨data, parity data⟩ := by simpa using hrestored
    rw [if_pos hnone, hsame]
    rfl
  · have hrun := BerlekampMassey.run_invariant (BerlekampMassey.coeff_zero_powerSums
      (E := errors α bits)) 8
    have hrefines := Locator.refines_run hα hsums BerlekampMassey.coeff_zero_powerSums
    obtain ⟨hfound, hroots⟩ := BerlekampMassey.run_powerSums (t := 4) (E := errors α bits)
      (errors_ne_zero hα) (hcard.trans_le hlength)
    rw [show 2 * 4 = 8 from rfl] at hfound hroots
    generalize BerlekampMassey.run (BerlekampMassey.powerSums (errors α bits)) 8 = τ
      at hrun hrefines hfound hroots
    generalize loop 8 (Locator.next (syndromes received).1) Locator.init = l at hrefines
    have hdegree : l.degree = bits.length := hrefines.degree.trans (hfound.trans hcard)
    have hne : bits ≠ [] := by
      rintro rfl
      refine hnone (hflag.mpr fun j hpos hle => ?_)
      rw [hvalue j hpos hle, BerlekampMassey.coeff_powerSums (by omega)]
      simp [errors]
    have hpos := List.length_pos_iff.mpr hne
    rw [if_neg hnone, if_neg (by omega)]
    have hnatDegree : τ.connection.natDegree ≤ l.degree :=
      hrun.recurrence.natDegree_le.trans_eq hrefines.degree.symm
    have hsearch := loop_invariant (n := bch4Bits) (f := Search.next l.degree)
      (s := ⟨Vector.ofFn fun j : Fin 5 => l.locator[j.val]!, received, 0⟩)
      (P := fun n q => Search.Inv α τ.connection l.degree received bits n q)
      ⟨fun j hj => ?_, rfl, rfl⟩ fun n q hn h => h.next hα (by omega) hnatDegree
        ((hroots _ (pow_ne_zero n hα.ne_zero)).trans (mem_errors hα hlt hn))
    · generalize loop bch4Bits (Search.next l.degree) _ = q at hsearch
      have hsector := hsearch.sector.trans hrestored
      have hcount := hsearch.found.trans hperm.length_eq.symm
      have hclean : (syndromes q.sector).2 = 0 := by
        rw [hsector]
        exact (syndromes_spec hα _).2.mpr fun j hpos hle => value_encoded_pow hα data hpos hle
      rw [if_neg (not_or.mpr ⟨not_not.mpr (hcount.trans hdegree.symm), not_not.mpr hclean⟩), hcount,
        hsector]
    · have hterm : (Vector.ofFn fun j : Fin 5 => l.locator[j.val]!)[j]! = l.locator[j]! := by
        simp [show j < 5 by omega]
      rw [hterm, pow_zero, inv_one, one_pow, mul_one]
      exact hrefines.locator j (by omega)

/-- A bit of the payload or of the parity. -/
inductive Position
  | data (i : Fin 4096)
  | parity (i : Fin 52)
  deriving DecidableEq

/-- A bit that is read wrong. -/
def Sector.flip (σ : Sector) : Position → Sector
  | .data i => { σ with data := invertBit σ.data i }
  | .parity i => { σ with ecc := invertBit σ.ecc i }

def Position.bit : Position → ℕ
  | .data i => 52 + i
  | .parity i => i

theorem Position.bit_lt (p : Position) : p.bit < bch4Bits := by
  cases p with
  | data i => exact Nat.add_lt_add_left i.isLt 52
  | parity i => exact i.isLt.trans (by decide)

theorem Position.bit_injective : Function.Injective Position.bit := by
  intro p q h
  cases p with
  | data i =>
    cases q with
    | data j => exact congrArg _ (Fin.ext (Nat.add_left_cancel h))
    | parity j => exact absurd h (by simp only [bit]; omega)
  | parity i =>
    cases q with
    | data j => exact absurd h (by simp only [bit]; omega)
    | parity j => exact congrArg _ (Fin.ext h)

theorem Sector.flip_eq (σ : Sector) (p : Position) : σ.flip p = σ.invert p.bit := by
  cases p with
  | data i => simp [flip, invert, Position.bit]
  | parity i => simp [flip, invert, Position.bit]

/-- **Up to four errors are corrected.** Whatever the payload, and whichever bits of it
and of its parity are read wrong, the payload and the parity come back as they were,
and the number of the errors is returned. -/
theorem correct_restores (data : Vector UInt8 512) (ecc : Vector UInt8 7) (flips : List Position)
    (hnodup : flips.Nodup) (hlength : flips.length ≤ 4) :
    ∃ sent, bch4Encode (some data) (some ecc) = some sent ∧
      let received := flips.foldl Sector.flip ⟨data, sent⟩
      bch4Correct (some received.data) (some received.ecc) =
        ((flips.length : ℤ), some data, some sent) := by
  refine ⟨parity data, rfl, ?_⟩
  have hinvert : flips.foldl Sector.flip ⟨data, parity data⟩ =
      (flips.map Position.bit).foldl Sector.invert ⟨data, parity data⟩ := by
    rw [List.foldl_map]
    exact List.foldl_ext _ _ _ fun σ p _ => σ.flip_eq p
  have hcorrect := correctSector_corrupted data (hnodup.map Position.bit_injective)
    (by
      intro b hb
      obtain ⟨p, -, rfl⟩ := List.mem_map.mp hb
      exact p.bit_lt)
    (by rwa [List.length_map])
  rw [← hinvert, List.length_map] at hcorrect
  dsimp only [bch4Correct]
  rw [hcorrect]

/-- The first and the last bit of the payload and of the parity. -/
theorem correct_restores_demo :
    ∃ sent, bch4Encode (some (Vector.replicate 512 0xA5)) (some (Vector.replicate 7 0xFF)) =
      some sent ∧
      let received := [.data 0, .data 4095, .parity 0, .parity 51].foldl Sector.flip
        ⟨Vector.replicate 512 0xA5, sent⟩
      bch4Correct (some received.data) (some received.ecc) =
        (4, some (Vector.replicate 512 0xA5), some sent) :=
  correct_restores (Vector.replicate 512 0xA5) (Vector.replicate 7 0xFF)
    [.data 0, .data 4095, .parity 0, .parity 51] (by decide) (by decide)

end Atoman.Bch4
