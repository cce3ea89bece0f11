import Atoman.Bch4.Field
import Mathlib.Algebra.CharP.Lemmas

/-!
# Sectors and their syndromes

A sector is 512 octets of payload with 52 bits of parity. Its bits are the
coefficients of a polynomial, the parity first. The syndromes are the values of this
polynomial at the first eight powers of the root: the code accumulates the odd ones
bit by bit, and squares.
-/

namespace Atoman.Bch4
open Lib

/-! ## Bits of octets -/

section octets
variable {n : ℕ} (v : Vector UInt8 n)

/-- `((uint32_t)v[i / 8u] >> (i % 8u)) & 1u` -/
def octetBit (i : ℕ) : UInt32 := v[i / 8]!.toUInt32 >>> (i % 8).toUInt32 &&& 1

/-- `(uint8_t)(1u << i)` -/
def octetMask (i : ℕ) : UInt8 := ((1 : UInt32) <<< i.toUInt32).toUInt8

/-- `v[i / 8u] ^= (uint8_t)(1u << (i % 8u))` -/
def invertBit (i : ℕ) : Vector UInt8 n := modifyAt v (i / 8) (· ^^^ octetMask (i % 8))

/-- Whether bit `i` is set. -/
def hasBit (i : ℕ) : Bool := v[i / 8]!.toNat.testBit (i % 8)

theorem octetBit_eq (i : ℕ) : octetBit v i = if hasBit v i then 1 else 0 := by
  have hshift : (i % 8).toUInt32.toNat % 32 = i % 8 := by
    rw [Nat.toUInt32, UInt32.toNat_ofNat']
    omega
  rw [← UInt32.toNat_inj, octetBit, UInt32.toNat_and, UInt32.toNat_shiftRight, hshift,
    UInt8.toNat_toUInt32, hasBit, Nat.testBit, Nat.and_comm 1]
  change _ &&& 1 = _
  rcases Nat.mod_two_eq_zero_or_one (v[i / 8]!.toNat >>> (i % 8)) with h | h <;>
    simp [Nat.and_one_is_mod, h]

theorem toNat_octetMask : ∀ i < 8, (octetMask i).toNat = 2 ^ i := by decide

theorem invertBit_invertBit (i : ℕ) : invertBit (invertBit v i) i = v := by
  refine modifyAt_modifyAt_self v _ fun x => ?_
  rw [UInt8.xor_assoc, UInt8.xor_self, UInt8.xor_zero]

theorem invertBit_comm (i j : ℕ) : invertBit (invertBit v i) j = invertBit (invertBit v j) i := by
  refine modifyAt_comm v _ _ fun x => ?_
  rw [UInt8.xor_assoc, UInt8.xor_comm (octetMask _), ← UInt8.xor_assoc]

/-- One bit is inverted, and no other. -/
theorem hasBit_invertBit {i j : ℕ} (hj : j < 8 * n) :
    hasBit (invertBit v i) j = (hasBit v j ^^ decide (i = j)) := by
  unfold hasBit invertBit
  rw [getElem!_modifyAt]
  by_cases hoctet : i / 8 = j / 8
  · have hij : i % 8 = j % 8 ↔ i = j := ⟨fun h => by omega, fun h => h ▸ rfl⟩
    rw [if_pos ⟨hoctet, by omega⟩, UInt8.toNat_xor, Nat.testBit_xor,
      toNat_octetMask _ (Nat.mod_lt _ (by decide)), Nat.testBit_two_pow, decide_eq_decide.mpr hij]
  · have hij : i ≠ j := fun h => hoctet (congrArg (· / 8) h)
    rw [if_neg fun h => hoctet h.1, decide_eq_false hij, Bool.xor_false]

end octets

/-! ## Bits of a sector -/

/-- `BCH4_BITS`: 4096 payload bits followed by 52 parity bits. -/
def bch4Bits : ℕ := 4148

structure Sector where
  data : Vector UInt8 512
  ecc : Vector UInt8 7

def bitGet (σ : Sector) (bit : ℕ) : UInt32 :=
  if bit < 52 then octetBit σ.ecc bit else octetBit σ.data (bit - 52)

namespace Sector
variable (σ : Sector)

/-- The correction of one bit in `bch4_correct`. -/
def invert (bit : ℕ) : Sector :=
  if bit < 52 then { σ with ecc := invertBit σ.ecc bit }
  else
    let index := bit - 52
    { σ with data := invertBit σ.data index }

/-- Whether a bit is set. -/
def testBit (bit : ℕ) : Bool :=
  if bit < 52 then hasBit σ.ecc bit else hasBit σ.data (bit - 52)

theorem invert_invert (b : ℕ) : (σ.invert b).invert b = σ := by
  unfold invert
  by_cases hb : b < 52
  · simp only [hb, if_true, invertBit_invertBit]
  · simp only [hb, if_false, invertBit_invertBit]

theorem invert_comm (b c : ℕ) : (σ.invert b).invert c = (σ.invert c).invert b := by
  unfold invert
  by_cases hb : b < 52 <;> by_cases hc : c < 52 <;> simp only [hb, hc, if_true, if_false]
  · rw [invertBit_comm]
  · rw [invertBit_comm]

theorem testBit_invert {b c : ℕ} (hc : c < bch4Bits) :
    (σ.invert b).testBit c = (σ.testBit c ^^ decide (b = c)) := by
  unfold bch4Bits at hc
  unfold invert testBit
  by_cases hb : b < 52 <;> by_cases hcb : c < 52 <;> simp only [hb, hcb, if_true, if_false]
  · exact hasBit_invertBit _ (by omega)
  · simp [show b ≠ c by omega]
  · simp [show b ≠ c by omega]
  · have hbc : b - 52 = c - 52 ↔ b = c := ⟨fun h => by omega, fun h => h ▸ rfl⟩
    rw [hasBit_invertBit _ (by omega), decide_eq_decide.mpr hbc]

end Sector

theorem bitGet_eq (σ : Sector) (bit : ℕ) : bitGet σ bit = if σ.testBit bit then 1 else 0 := by
  unfold bitGet Sector.testBit
  split
  · exact octetBit_eq _ _
  · exact octetBit_eq _ _

/-! ## The polynomial of a sector -/

section value
variable {K : Type*} [Field K] (σ : Sector)

/-- The first `n` bits, read at `x`. -/
def Sector.valueTo (n : ℕ) (x : K) : K := ∑ b ∈ Finset.range n, if σ.testBit b then x ^ b else 0

/-- The polynomial of the sector, read at `x`. -/
def Sector.value (x : K) : K := σ.valueTo bch4Bits x

theorem Sector.valueTo_succ (n : ℕ) (x : K) :
    σ.valueTo (n + 1) x = σ.valueTo n x + if σ.testBit n then x ^ n else 0 :=
  Finset.sum_range_succ _ n

variable [CharP K 2]

theorem Sector.value_invert {b : ℕ} (hb : b < bch4Bits) (x : K) :
    (σ.invert b).value x = σ.value x + x ^ b := by
  have hbit : ∀ c ∈ Finset.range bch4Bits, (if (σ.invert b).testBit c then x ^ c else 0) =
      (if σ.testBit c then x ^ c else 0) + if b = c then x ^ c else 0 := by
    intro c hc
    rw [σ.testBit_invert (Finset.mem_range.mp hc)]
    by_cases hbc : b = c
    · cases σ.testBit c <;> simp [hbc, CharTwo.add_self_eq_zero]
    · simp [hbc]
  rw [value, valueTo, Finset.sum_congr rfl hbit, Finset.sum_add_distrib, Finset.sum_ite_eq,
    if_pos (Finset.mem_range.mpr hb)]
  rfl

/-- The value at a square is a square. -/
theorem Sector.value_sq (x : K) : σ.value (x ^ 2) = σ.value x ^ 2 := by
  rw [value, valueTo, value, valueTo, sum_pow_char 2]
  refine Finset.sum_congr rfl fun b _ => ?_
  split
  · rw [← pow_mul, ← pow_mul, mul_comm]
  · simp

end value

/-! ## Syndromes -/

/-- The arrays of the syndrome loop: `powers` and `p_s`. -/
structure Sums where
  powers : Vector UInt16 4
  s : Vector UInt16 9

def Sums.init : Sums := ⟨Vector.replicate 4 1, Vector.replicate 9 0⟩

/-- Bit `bit` of the sector, for the odd syndrome `2 * k + 1`. -/
def Sums.next (σ : Sector) (bit k : ℕ) (a : Sums) : Sums where
  s := if bitGet σ bit = 1 then modifyAt a.s (2 * k + 1) (· ^^^ a.powers[k]!) else a.s
  powers := modifyAt a.powers k fun power =>
    (loop (2 * k + 1) (fun _ => shiftReduce) power.toUInt32).toUInt16

/-- The even syndromes are squares: `p_s[2 * k] = multiply(p_s[k], p_s[k])`. -/
def squareStep (i : ℕ) (s : Vector UInt16 9) : Vector UInt16 9 :=
  modifyAt s (2 * (i + 1)) fun _ => multiply s[i + 1]! s[i + 1]!

def syndromes (σ : Sector) : Vector UInt16 9 × UInt8 :=
  let odd := (loop bch4Bits (fun bit => loop 4 (Sums.next σ bit)) Sums.init).s
  let s := loop 4 squareStep odd
  let any := loop 8 (fun k any => any ||| s[k + 1]!) 0
  (s, if any ≠ 0 then 1 else 0)

section spec
variable {K : Type*} [Field K] [CharP K 2] {α : K} (hα : IsRoot α) {σ : Sector}

/-- What the arrays hold for syndrome `2 * k + 1`, after `n` bits. -/
structure Sums.Inv (α : K) (σ : Sector) (a : Sums) (k n : ℕ) : Prop where
  power : Represents α a.powers[k]!.toNat ((α ^ (2 * k + 1)) ^ n)
  sum : Represents α a.s[2 * k + 1]!.toNat (σ.valueTo n (α ^ (2 * k + 1)))

omit [CharP K 2] in
/-- The step of another syndrome. -/
theorem Sums.Inv.other {a : Sums} {j k n bit : ℕ} (h : a.Inv α σ j n) (hne : k ≠ j) :
    (a.next σ bit k).Inv α σ j n where
  power := by
    change Represents α (modifyAt a.powers k _)[j]!.toNat _
    rw [getElem!_modifyAt_of_ne _ _ hne]
    exact h.power
  sum := by
    have hs : (a.next σ bit k).s[2 * j + 1]! = a.s[2 * j + 1]! := by
      unfold Sums.next
      split
      · exact getElem!_modifyAt_of_ne _ _ (by omega)
      · rfl
    rw [hs]
    exact h.sum

include hα in
theorem represents_shifts {power : UInt16} {v : K} (h : Represents α power.toNat v) (m : ℕ) :
    Represents α (loop m (fun _ => shiftReduce) power.toUInt32).toUInt16.toNat (α ^ m * v) := by
  have hword : Represents α (loop m (fun _ => shiftReduce) power.toUInt32).toNat (α ^ m * v) := by
    refine loop_invariant (P := fun m (x : UInt32) => Represents α x.toNat (α ^ m * v)) ?_
      fun i x _ hx => ?_
    · rw [pow_zero, one_mul]
      exact h
    · rw [pow_succ', mul_assoc]
      exact hx.shiftReduce hα
  have hlt := hword.lt
  rw [UInt32.toNat_toUInt16, Nat.mod_eq_of_lt (by omega)]
  exact hword

include hα in
/-- The step of the syndrome itself. -/
theorem Sums.Inv.next {a : Sums} {k n : ℕ} (hk : k < 4) (h : a.Inv α σ k n) :
    (a.next σ n k).Inv α σ k (n + 1) where
  power := by
    change Represents α (modifyAt a.powers k _)[k]!.toNat _
    rw [getElem!_modifyAt_self _ _ hk, pow_succ', ← pow_mul, pow_mul]
    exact represents_shifts hα h.power _
  sum := by
    rw [σ.valueTo_succ]
    unfold Sums.next
    rw [bitGet_eq]
    cases σ.testBit n
    · simpa using h.sum
    · simp only [if_true]
      rw [getElem!_modifyAt_self _ _ (by omega), UInt16.toNat_xor]
      exact h.sum.xor h.power

include hα in
/-- **The accumulated syndromes** are the values at the odd powers. -/
theorem sums_spec : ∀ k < 4, (loop bch4Bits (fun bit => loop 4 (Sums.next σ bit)) Sums.init).Inv
    α σ k bch4Bits := by
  refine loop_invariant (P := fun n a => ∀ k < 4, Sums.Inv α σ a k n) ?_ fun n a _ h => ?_
  · intro k hk
    have hpower : Sums.init.powers[k]! = 1 := by simp [Sums.init, hk]
    have hsum : Sums.init.s[2 * k + 1]! = 0 := by simp [Sums.init, show 2 * k + 1 < 9 by omega]
    refine ⟨?_, ?_⟩
    · rw [hpower, pow_zero]
      exact .one
    · rw [hsum]
      exact .zero
  · -- One syndrome after the other goes on to the next bit.
    have hinner := loop_invariant (n := 4) (f := Sums.next σ n) (s := a)
      (P := fun m a => ∀ k < 4, Sums.Inv α σ a k (if k < m then n + 1 else n))
      (by simpa using h) fun m a hm h k hk => ?_
    · intro k hk
      simpa [hk] using hinner k hk
    · by_cases hkm : m = k
      · subst hkm
        rw [if_pos (Nat.lt_succ_self m)]
        have hbefore := h m hk
        rw [if_neg (Nat.lt_irrefl m)] at hbefore
        exact hbefore.next hα hk
      · have hbefore : (a.next σ n m).Inv α σ k _ := (h k hk).other hkm
        by_cases hlt : k < m
        · rw [if_pos hlt] at hbefore
          rw [if_pos (by omega)]
          exact hbefore
        · rw [if_neg hlt] at hbefore
          rw [if_neg (by omega)]
          exact hbefore

/-- `s[j]` holds syndrome `j`. -/
def Holds (α : K) (σ : Sector) (s : Vector UInt16 9) (j : ℕ) : Prop :=
  Represents α s[j]!.toNat (σ.value (α ^ j))

include hα in
/-- **The squared syndromes** are the values at the even powers. -/
theorem squares_spec {s : Vector UInt16 9} (hodd : ∀ k < 4, Holds α σ s (2 * k + 1)) :
    ∀ j, 1 ≤ j → j ≤ 8 → Holds α σ (loop 4 squareStep s) j := by
  have hloop := loop_invariant (n := 4) (f := squareStep) (s := s)
    (P := fun m s => ∀ j, 1 ≤ j → j ≤ 8 → (j % 2 = 1 ∨ j ≤ 2 * m) → Holds α σ s j) ?_
    fun m s hm h j hpos hle hj => ?_
  · intro j hpos hle
    exact hloop j hpos hle (by omega)
  · intro j hpos hle hj
    have := hodd (j / 2) (by omega)
    rwa [show 2 * (j / 2) + 1 = j by omega] at this
  · unfold Holds squareStep
    by_cases heq : 2 * (m + 1) = j
    · subst heq
      have hroot := h (m + 1) (by omega) (by omega) (by omega)
      rw [getElem!_modifyAt_self _ _ (by omega), mul_comm, pow_mul, σ.value_sq, sq]
      exact hroot.multiply hα hroot
    · rw [getElem!_modifyAt_of_ne _ _ heq]
      exact h j hpos hle (by omega)

theorem or_eq_zero_iff (a b : UInt16) : a ||| b = 0 ↔ a = 0 ∧ b = 0 := by
  rw [← UInt16.toNat_inj, ← UInt16.toNat_inj, ← UInt16.toNat_inj, UInt16.toNat_or]
  exact Nat.or_eq_zero_iff

theorem any_eq_zero_iff (s : Vector UInt16 9) (n : ℕ) :
    loop n (fun k any => any ||| s[k + 1]!) (0 : UInt16) = 0 ↔ ∀ k < n, s[k + 1]! = 0 := by
  induction n with
  | zero => simp
  | succ n ih =>
    rw [loop_succ, or_eq_zero_iff, ih, Nat.forall_lt_succ_right]

include hα in
/-- **The syndromes** are the values at the first eight powers of the root. -/
theorem syndromes_spec (σ : Sector) :
    (∀ j, 1 ≤ j → j ≤ 8 → Holds α σ (syndromes σ).1 j) ∧
      ((syndromes σ).2 = 0 ↔ ∀ j, 1 ≤ j → j ≤ 8 → σ.value (α ^ j) = 0) := by
  have hall := squares_spec hα (σ := σ) fun k hk => (sums_spec hα (σ := σ) k hk).sum
  refine ⟨hall, ?_⟩
  have hflag : (syndromes σ).2 = 0 ↔ ∀ k < 8, (syndromes σ).1[k + 1]! = 0 := by
    rw [← any_eq_zero_iff]
    unfold syndromes
    dsimp only
    split
    · next hany => exact ⟨fun h => absurd h (by decide), fun h => absurd h hany⟩
    · next hany => exact ⟨fun _ => Decidable.not_not.mp hany, fun _ => rfl⟩
  rw [hflag]
  constructor
  · intro h j hpos hle
    obtain ⟨k, rfl⟩ := Nat.exists_eq_add_of_le' hpos
    refine ((hall (k + 1) hpos hle).eq_zero_iff hα).mp ?_
    exact congrArg UInt16.toNat (h k (by omega))
  · intro h k hk
    rw [← UInt16.toNat_inj]
    exact ((hall (k + 1) (by omega) (by omega)).eq_zero_iff hα).mpr
      (h (k + 1) (by omega) (by omega))

end spec

end Atoman.Bch4
