import Atoman.Bch4.Sector
import Atoman.Lib.BerlekampMassey

/-!
# The encoder and the decoder

The encoder divides the payload, shifted up past the parity, by the generator in a
register of 52 bits. The remainder is the parity: with it the polynomial of the
sector vanishes wherever the generator does, at the first eight powers of the root.

The decoder finds the error-locator polynomial from the syndromes by the
Berlekamp–Massey algorithm, in words, and inverts the bits at its roots. The arrays
follow the algorithm on polynomials, round by round.
-/

namespace Atoman.Bch4
open Lib

/-- `BCH4_GENERATOR` -/
def bch4Generator : UInt64 := 0x14523043AB86AB

/-- The next dividend bit; `bit` counts down from `BCH4_BITS`. -/
def dividendBit (data : Vector UInt8 512) (bit : ℕ) : UInt32 :=
  if 52 < bit then octetBit data (bit - 53) else 0

def encodeStep (data : Vector UInt8 512) (bit : ℕ) (remainder : UInt64) : UInt64 :=
  let shifted := remainder <<< 1 ||| (dividendBit data bit).toUInt64
  if shifted &&& (1 : UInt64) <<< 52 ≠ 0 then shifted ^^^ bch4Generator else shifted

/-- `for (bit = BCH4_BITS; bit > 0u; bit--)` -/
def encodeLoop (data : Vector UInt8 512) : ℕ → UInt64 → UInt64
  | 0, remainder => remainder
  | bit + 1, remainder => encodeLoop data bit (encodeStep data (bit + 1) remainder)

/-- The parity of a payload; the unused spare bits remain erased. -/
def parity (data : Vector UInt8 512) : Vector UInt8 7 :=
  let remainder := encodeLoop data bch4Bits 0
  modifyAt (Vector.ofFn fun i : Fin 7 => (remainder >>> (8 * i.val).toUInt64).toUInt8) 6
    (· ||| 0xF0)

/-- What `p_ecc` points to after `bch4_encode`; a null pointer is `none`. -/
def bch4Encode (pData : Option (Vector UInt8 512)) (pEcc : Option (Vector UInt8 7)) :
    Option (Vector UInt8 7) :=
  match pData, pEcc with
  | some data, some _ => some (parity data)
  | _, _ => pEcc

/-! ## The division -/

/-- Whether the dividend has bit `b`. -/
def hasDividend (data : Vector UInt8 512) (b : ℕ) : Bool := decide (52 ≤ b) && hasBit data (b - 52)

theorem dividendBit_eq (data : Vector UInt8 512) (b : ℕ) :
    dividendBit data (b + 1) = if hasDividend data b then 1 else 0 := by
  unfold dividendBit hasDividend
  by_cases hb : 52 ≤ b
  · rw [if_pos (by omega), octetBit_eq, show b + 1 - 53 = b - 52 by omega]
    simp [hb]
  · rw [if_neg (by omega)]
    simp [hb]

section division
variable {K : Type*} [Field K] [CharP K 2] {x : K} (hx : packedEval x bch4Generator.toNat = 0)
variable (data : Vector UInt8 512)
include hx

/-- **One step of the division** multiplies the remainder by the point and adds a bit. -/
theorem encodeStep_spec (b : ℕ) {r : UInt64} (hr : r.toNat < 2 ^ 52) :
    (encodeStep data (b + 1) r).toNat < 2 ^ 52 ∧
      packedEval x (encodeStep data (b + 1) r).toNat =
        x * packedEval x r.toNat + if hasDividend data b then 1 else 0 := by
  have hshifted : (r <<< 1 ||| (dividendBit data (b + 1)).toUInt64).toNat =
      2 * r.toNat + (hasDividend data b).toNat := by
    have hshift : (r <<< 1).toNat = r.toNat <<< 1 % 2 ^ 64 := UInt64.toNat_shiftLeft r 1
    rw [UInt64.toNat_or, hshift, Nat.mod_eq_of_lt (by rw [Nat.shiftLeft_eq]; omega), dividendBit_eq]
    cases hasDividend data b
    · simp [Nat.shiftLeft_eq, mul_comm]
    · simpa [Nat.shiftLeft_eq, mul_comm] using (Nat.shiftLeft_add_eq_or_of_lt (i := 1) (b := 1)
        (by decide) r.toNat).symm
  have heval : packedEval x (2 * r.toNat + (hasDividend data b).toNat) =
      x * packedEval x r.toNat + if hasDividend data b then 1 else 0 := by
    rw [packedEval_bit, add_comm]
    cases hasDividend data b
    · simp
    · simp [Nat.mul_add_div]
  have hlt : 2 * r.toNat + (hasDividend data b).toNat < 2 ^ 53 := by
    have := (hasDividend data b).toNat_lt
    omega
  have hcarry : (r <<< 1 ||| (dividendBit data (b + 1)).toUInt64) &&& (1 : UInt64) <<< 52 ≠ 0 ↔
      (2 * r.toNat + (hasDividend data b).toNat).testBit 52 = true := by
    rw [← and_two_pow_ne_zero_iff, ← hshifted,
      ← show ((1 : UInt64) <<< (52 : UInt64)).toNat = 2 ^ 52 by decide, ← UInt64.toNat_and]
    exact not_congr UInt64.toNat_inj.symm
  unfold encodeStep
  dsimp only
  split
  · next hbit =>
    rw [hcarry] at hbit
    rw [UInt64.toNat_xor, hshifted]
    exact ⟨xor_lt_of_testBit hlt (by decide) hbit (by decide),
      by rw [packedEval_xor, heval, hx, add_zero]⟩
  · next hbit =>
    rw [hcarry] at hbit
    rw [hshifted]
    refine ⟨Nat.lt_of_not_le fun hle => hbit ?_, heval⟩
    exact Nat.testBit_of_two_pow_le_and_two_pow_add_one_gt hle hlt

theorem encodeLoop_spec (n : ℕ) {r : UInt64} (hr : r.toNat < 2 ^ 52) :
    (encodeLoop data n r).toNat < 2 ^ 52 ∧
      packedEval x (encodeLoop data n r).toNat = packedEval x r.toNat * x ^ n +
        ∑ b ∈ Finset.range n, if hasDividend data b then x ^ b else 0 := by
  induction n generalizing r with
  | zero => exact ⟨hr, by simp [encodeLoop]⟩
  | succ n ih =>
    obtain ⟨hlt, hstep⟩ := encodeStep_spec hx data n hr
    obtain ⟨hend, hloop⟩ := ih hlt
    refine ⟨hend, ?_⟩
    rw [encodeLoop, hloop, hstep, Finset.sum_range_succ]
    cases hasDividend data n
    · simp
      ring
    · simp
      ring

end division

/-! ## The parity -/

/-- The parity bits are those of the remainder. -/
theorem hasBit_parity (data : Vector UInt8 512) {b : ℕ} (hb : b < 52) :
    hasBit (parity data) b = (encodeLoop data bch4Bits 0).toNat.testBit b := by
  have hspare (x : UInt8) {i : ℕ} (hi : i < 4) :
      (x ||| 0xF0).toNat.testBit i = x.toNat.testBit i := by
    have hzero : ∀ i < 4, (UInt8.toNat 0xF0).testBit i = false := by decide
    rw [UInt8.toNat_or, Nat.testBit_or, hzero i hi, Bool.or_false]
  have hoctet (r : UInt64) : (r >>> (8 * (b / 8)).toUInt64).toUInt8.toNat.testBit (b % 8) =
      r.toNat.testBit b := by
    have hshift : (8 * (b / 8)).toUInt64.toNat % 64 = 8 * (b / 8) := by
      rw [Nat.toUInt64, UInt64.toNat_ofNat']
      omega
    rw [UInt64.toNat_toUInt8, UInt64.toNat_shiftRight, hshift, Nat.testBit_mod_two_pow,
      Nat.testBit_shiftRight, Nat.div_add_mod]
    simp [Nat.mod_lt b (show 0 < 8 by decide)]
  have hentry (r : UInt64) : (Vector.ofFn fun i : Fin 7 =>
      (r >>> (8 * i.val).toUInt64).toUInt8)[b / 8]! = (r >>> (8 * (b / 8)).toUInt64).toUInt8 := by
    simp [show b / 8 < 7 by omega]
  unfold hasBit parity
  dsimp only
  rw [getElem!_modifyAt, hentry]
  split
  · next hlast => rw [hspare _ (by omega), hoctet]
  · exact hoctet _

section roots
variable {K : Type*} [Field K] [CharP K 2]

/-- **An encoded sector** vanishes wherever the generator does. -/
theorem value_encoded {x : K} (hx : packedEval x bch4Generator.toNat = 0)
    (data : Vector UInt8 512) : (Sector.mk data (parity data)).value x = 0 := by
  obtain ⟨hlt, hloop⟩ := encodeLoop_spec hx data bch4Bits (r := 0) (by decide)
  rw [UInt64.toNat_zero, packedEval_zero, zero_mul, zero_add] at hloop
  have hwide : (encodeLoop data bch4Bits 0).toNat < 2 ^ bch4Bits :=
    hlt.trans (Nat.pow_lt_pow_right (by decide) (by decide))
  have hbits : ∀ b ∈ Finset.range bch4Bits,
      (if (Sector.mk data (parity data)).testBit b then x ^ b else 0) =
        (if (encodeLoop data bch4Bits 0).toNat.testBit b then x ^ b else 0) +
          if hasDividend data b then x ^ b else 0 := by
    intro b _
    unfold Sector.testBit hasDividend
    by_cases hb : b < 52
    · rw [if_pos hb, hasBit_parity data hb]
      simp [show ¬52 ≤ b by omega]
    · have hnone := Nat.testBit_lt_two_pow (hlt.trans_le (Nat.pow_le_pow_right (n := 2) (by decide)
        (Nat.not_lt.mp hb)))
      rw [if_neg hb, hnone]
      simp [Nat.not_lt.mp hb]
  rw [Sector.value, Sector.valueTo, Finset.sum_congr rfl hbits, Finset.sum_add_distrib,
    ← packedEval_eq_sum x hwide, hloop, CharTwo.add_self_eq_zero]

/-- A polynomial of `w` bits, read at the word `p`. -/
def horner (p : UInt16) : ℕ → ℕ → UInt16
  | 0, _ => 0
  | w + 1, n => (if n.testBit 0 then 1 else 0) ^^^ multiply p (horner p w (n / 2))

variable {α : K} (hα : IsRoot α)
include hα

theorem represents_horner {p : UInt16} {x : K} (hp : Represents α p.toNat x) (w n : ℕ)
    (hn : n < 2 ^ w) : Represents α (horner p w n).toNat (packedEval x n) := by
  induction w generalizing n with
  | zero =>
    obtain rfl : n = 0 := by omega
    rw [packedEval_zero]
    exact .zero
  | succ w ih =>
    rw [horner, packedEval_bit, UInt16.toNat_xor]
    refine Represents.xor ?_ (hp.multiply hα (ih (n / 2) (by omega)))
    split
    · exact .one
    · exact .zero

/-- **The roots of the generator.** -/
theorem generator_roots {j : ℕ} (hpos : 1 ≤ j) (hle : j ≤ 8) :
    packedEval (α ^ j) bch4Generator.toNat = 0 := by
  have hword : Represents α (alphaPow j).toUInt16.toNat (α ^ j) := by
    have hpower := represents_alphaPow hα j
    have hlt := hpower.lt
    rw [UInt32.toNat_toUInt16, Nat.mod_eq_of_lt (by omega)]
    exact hpower
  have hzero : ∀ j < 9, 1 ≤ j → horner (alphaPow j).toUInt16 53 bch4Generator.toNat = 0 := by
    decide +kernel
  have hvalue := represents_horner hα hword 53 bch4Generator.toNat (by decide)
  rw [hzero j (by omega) hpos] at hvalue
  exact (hvalue.eq_zero_iff hα).mp rfl

/-- **The syndromes of an encoded sector** vanish. -/
theorem value_encoded_pow (data : Vector UInt8 512) {j : ℕ} (hpos : 1 ≤ j) (hle : j ≤ 8) :
    (Sector.mk data (parity data)).value (α ^ j) = 0 :=
  value_encoded (generator_roots hα hpos hle) data

end roots

/-! ## The decoder -/

/-- The variables of the Berlekamp–Massey loop. -/
structure Locator where
  locator : Vector UInt16 9
  previous : Vector UInt16 9
  degree : ℕ
  shift : ℕ
  scale : UInt16

namespace Locator

def init : Locator where
  locator := #v[1, 0, 0, 0, 0, 0, 0, 0, 0]
  previous := #v[1, 0, 0, 0, 0, 0, 0, 0, 0]
  degree := 0
  shift := 1
  scale := 1

def discrepancy (s : Vector UInt16 9) (n : ℕ) (l : Locator) : UInt16 :=
  loop l.degree (fun i d => d ^^^ multiply l.locator[i + 1]! s[n + 1 - (i + 1)]!) s[n + 1]!

/-- `locator[j + shift] ^= multiply(ratio, previous[j])` for `j + shift < 9`. -/
def updated (l : Locator) (ratio : UInt16) : Vector UInt16 9 :=
  loop (9 - l.shift) (fun j a => modifyAt a (j + l.shift) (· ^^^ multiply ratio l.previous[j]!))
    l.locator

def next (s : Vector UInt16 9) (n : ℕ) (l : Locator) : Locator :=
  let d := l.discrepancy s n
  if d = 0 then { l with shift := l.shift + 1 }
  else
    let ratio := multiply d (inverse l.scale)
    if 2 * l.degree ≤ n then
      { locator := l.updated ratio
        degree := n + 1 - l.degree
        previous := l.locator
        scale := d
        shift := 1 }
    else { l with locator := l.updated ratio, shift := l.shift + 1 }

end Locator

/-- The variables of the root search. -/
structure Search where
  terms : Vector UInt16 5
  sector : Sector
  found : ℕ

namespace Search

/-- Locator evaluated at `α^-bit`. -/
def value (degree : ℕ) (q : Search) : UInt16 :=
  loop degree (fun i v => v ^^^ q.terms[i + 1]!) q.terms[0]!

/-- Each term is multiplied by `α^-1`, as often as its degree. -/
def advanced (degree : ℕ) (q : Search) : Vector UInt16 5 :=
  loop degree (fun i t => modifyAt t (i + 1) fun term =>
    loop (i + 1) (fun _ term => (shiftBack term.toUInt32).toUInt16) term) q.terms

def next (degree bit : ℕ) (q : Search) : Search where
  terms := q.advanced degree
  sector := if q.value degree = 0 then q.sector.invert bit else q.sector
  found := if q.value degree = 0 then q.found + 1 else q.found

end Search

/-- `bch4_correct`, past the checks for null. -/
def correctSector (σ : Sector) : Int × Sector :=
  let s := syndromes σ
  if s.2 = 0 then (0, σ)
  else
    let l := loop 8 (Locator.next s.1) Locator.init
    if l.degree = 0 ∨ 4 < l.degree then (-1, σ)
    else
      let terms := Vector.ofFn fun j : Fin 5 => l.locator[j.val]!
      let q := loop bch4Bits (Search.next l.degree) ⟨terms, σ, 0⟩
      if q.found ≠ l.degree ∨ (syndromes q.sector).2 ≠ 0 then (-1, q.sector)
      else (q.found, q.sector)

/-- What `bch4_correct` returns, and what its arguments point to then; a null pointer
is `none`. -/
def bch4Correct (pData : Option (Vector UInt8 512)) (pEcc : Option (Vector UInt8 7)) :
    Int × Option (Vector UInt8 512) × Option (Vector UInt8 7) :=
  match pData, pEcc with
  | some data, some ecc =>
    let corrected := correctSector ⟨data, ecc⟩
    (corrected.1, some corrected.2.data, some corrected.2.ecc)
  | _, _ => (-1, pData, pEcc)

/-! ## The locator -/

section locator
open Lib.BerlekampMassey (State Invariant)
variable {K : Type*} [Field K] [CharP K 2] {α : K}

/-- The arrays hold the coefficients of the polynomials. -/
structure Locator.Refines (α : K) (l : Locator) (τ : State K) : Prop where
  locator : ∀ j < 9, Represents α l.locator[j]!.toNat (τ.connection.coeff j)
  previous : ∀ j < 9, Represents α l.previous[j]!.toNat (τ.previous.coeff j)
  degree : l.degree = τ.length
  shift : l.shift = τ.shift
  scale : Represents α l.scale.toNat τ.scale

omit [CharP K 2] in
theorem Locator.refines_init : Locator.init.Refines α (BerlekampMassey.init : State K) := by
  have hone : ∀ j < 9, Represents α (#v[1, 0, 0, 0, 0, 0, 0, 0, 0] : Vector UInt16 9)[j]!.toNat
      ((1 : Polynomial K).coeff j) := by
    intro j hj
    rw [Polynomial.coeff_one]
    split
    · next hzero =>
      subst hzero
      exact .one
    · next hne =>
      have hzero : ∀ j : ℕ, j < 9 → j ≠ 0 →
          (#v[1, 0, 0, 0, 0, 0, 0, 0, 0] : Vector UInt16 9)[j]!.toNat = 0 := by decide
      rw [hzero j hj hne]
      exact .zero
  exact ⟨hone, hone, rfl, rfl, .one⟩

variable (hα : IsRoot α) {S : PowerSeries K} {s : Vector UInt16 9}
variable (hs : ∀ j, 1 ≤ j → j ≤ 8 → Represents α s[j]!.toNat (PowerSeries.coeff j S))
variable {l : Locator} {τ : State K} (h : l.Refines α τ) {n : ℕ} (inv : Invariant S n τ)
    (hn : n < 8)
include hα hs h inv hn

/-- **The discrepancy** in words. -/
theorem Locator.Refines.discrepancy : Represents α (l.discrepancy s n).toNat
    (BerlekampMassey.discrepancy S τ.connection (n + 1)) := by
  have hlength := inv.length_le
  have hloop := loop_invariant (n := l.degree) (s := s[n + 1]!)
    (f := fun i d => d ^^^ multiply l.locator[i + 1]! s[n + 1 - (i + 1)]!)
    (P := fun m (d : UInt16) => Represents α d.toNat (PowerSeries.coeff (n + 1) S +
      ∑ i ∈ Finset.range m, τ.connection.coeff (i + 1) *
        PowerSeries.coeff (n + 1 - (i + 1)) S)) ?_ fun i d hi hd => ?_
  · rw [BerlekampMassey.discrepancy_eq_sum S inv.recurrence.natDegree_le (by omega),
      Finset.sum_range_succ', inv.recurrence.coeff_zero, one_mul, add_comm, ← h.degree]
    exact hloop
  · rw [Finset.sum_range_zero, add_zero]
    exact hs (n + 1) (by omega) (by omega)
  · rw [h.degree] at hi
    rw [Finset.sum_range_succ, ← add_assoc, UInt16.toNat_xor]
    exact hd.xor ((h.locator (i + 1) (by omega)).multiply hα (hs _ (by omega) (by omega)))

omit hs in
/-- **The update** in words. -/
theorem Locator.Refines.updated {ratio : UInt16} {d : K}
    (hratio : Represents α ratio.toNat (d / τ.scale)) :
    ∀ j < 9, Represents α (l.updated ratio)[j]!.toNat ((τ.corrected d).coeff j) := by
  intro j hj
  have hshift := inv.previous_natDegree
  rw [← h.shift] at hshift
  rw [Locator.updated,
    getElem!_loop_modifyAt _ (fun j x => x ^^^ multiply ratio l.previous[j]!) _ _ _
    (by omega), BerlekampMassey.coeff_corrected, ← h.shift, CharTwo.sub_eq_add]
  by_cases hle : l.shift ≤ j
  · rw [if_pos ⟨hle, by omega⟩, if_pos hle, UInt16.toNat_xor]
    exact (h.locator j hj).xor (hratio.multiply hα (h.previous _ (by omega)))
  · rw [if_neg fun hin => hle hin.1, if_neg hle, mul_zero, add_zero]
    exact h.locator j hj

/-- **One round** in words. -/
theorem Locator.Refines.next : (l.next s n).Refines α (BerlekampMassey.step S n τ) := by
  have hd := h.discrepancy hα hs inv hn
  have hzero : l.discrepancy s n = 0 ↔
      BerlekampMassey.discrepancy S τ.connection (n + 1) = 0 := by
    rw [← hd.eq_zero_iff hα, ← UInt16.toNat_inj, UInt16.toNat_zero]
  have hratio := hd.multiply hα (h.scale.inverse hα inv.scale_ne_zero)
  rw [← div_eq_mul_inv] at hratio
  have hupdated := h.updated hα inv hn hratio
  unfold Locator.next BerlekampMassey.step
  dsimp only
  rw [h.degree]
  by_cases hfail : l.discrepancy s n = 0
  · rw [if_pos hfail, if_pos (hzero.mp hfail)]
    exact ⟨h.locator, h.previous, rfl, congrArg (· + 1) h.shift, h.scale⟩
  · rw [if_neg hfail, if_neg (hzero.not.mp hfail)]
    split
    · exact ⟨hupdated, h.locator, rfl, rfl, hd⟩
    · exact ⟨hupdated, h.previous, rfl, congrArg (· + 1) h.shift, h.scale⟩

omit h inv hn in
/-- **The loop** in words. -/
theorem Locator.refines_run (hS : PowerSeries.coeff 0 S = 1) :
    (loop 8 (Locator.next s) Locator.init).Refines α (BerlekampMassey.run S 8) := by
  refine loop_invariant (P := fun n l => Locator.Refines α l (BerlekampMassey.run S n))
    Locator.refines_init fun n l hn h => ?_
  rw [BerlekampMassey.run_succ]
  exact h.next hα hs (BerlekampMassey.run_invariant hS n) hn

end locator

end Atoman.Bch4
