import Mathlib.Logic.Function.Iterate

/-!
# Cyclic redundancy checks by table

A register of `w` bits takes a message one bit at a time, the highest bit first. A step is linear
in exclusive or. So `k` bits can be taken at once: what they add to the register moved up `k`
places is looked up in a table that has an entry for each word of `k` bits.
-/

namespace Atoman.Lib.Crc
open Function

variable {w k : ℕ} (poly : BitVec w)

/-- The register moves up a place and is reduced if a bit falls out. -/
def shift (c : BitVec w) : BitVec w := if c.msb then (c <<< 1) ^^^ poly else c <<< 1

/-- The register takes a bit of the message. -/
def takeBit (c : BitVec w) (b : Bool) : BitVec w :=
  if c.msb ^^ b then (c <<< 1) ^^^ poly else c <<< 1

/-- The first `n` bits of a word, from the highest down. -/
def highBits (n : ℕ) (m : BitVec w) : List Bool := (List.range n).map m.getMsbD

/-- A word of `k` bits at the top of the register. -/
def place (w : ℕ) (d : BitVec k) : BitVec w := d.setWidth w <<< (w - k)

/-- The register takes `k` bits by `k` moves. -/
def feed (c : BitVec w) (d : BitVec k) : BitVec w := (shift poly)^[k] (c ^^^ place w d)

/-- The entry of the table for a word of `k` bits. -/
def entry (d : BitVec k) : BitVec w := (shift poly)^[k] (place w d)

/-- The highest `k` bits of the register. -/
def top (k : ℕ) (c : BitVec w) : BitVec k := (c >>> (w - k)).setWidth k

/-! ## Linearity -/

theorem shift_xor (a b : BitVec w) : shift poly (a ^^^ b) = shift poly a ^^^ shift poly b := by
  have hcancel : ∀ x y : BitVec w, x ^^^ poly ^^^ (y ^^^ poly) = x ^^^ y := by
    intro x y
    rw [BitVec.xor_comm y, BitVec.xor_assoc, ← BitVec.xor_assoc poly, BitVec.xor_self,
      BitVec.zero_xor]
  unfold shift
  rw [BitVec.msb_xor, BitVec.shiftLeft_xor_distrib]
  cases a.msb <;> cases b.msb
  · rfl
  · simp [BitVec.xor_assoc]
  · simp [BitVec.xor_assoc, BitVec.xor_comm poly]
  · simp [hcancel]

theorem shifts_xor (n : ℕ) (a b : BitVec w) :
    (shift poly)^[n] (a ^^^ b) = (shift poly)^[n] a ^^^ (shift poly)^[n] b := by
  induction n with
  | zero => rfl
  | succ n ih => rw [iterate_succ_apply', ih, shift_xor, ← iterate_succ_apply' (shift poly) n a,
      ← iterate_succ_apply' (shift poly) n b]

/-- As long as no bit falls out, the register only moves up. -/
theorem shifts_of_clear {n : ℕ} {c : BitVec w} (h : ∀ i < n, c.getMsbD i = false) :
    (shift poly)^[n] c = c <<< n := by
  induction n with
  | zero => simp
  | succ n ih =>
    have hmsb : (c <<< n).msb = false := by
      simpa [BitVec.msb] using h n n.lt_succ_self
    rw [iterate_succ_apply', ih fun i hi => h i (Nat.lt_succ_of_lt hi), shift, hmsb,
      if_neg Bool.false_ne_true, BitVec.shiftLeft_add]

theorem place_xor (a b : BitVec k) : place w (a ^^^ b) = place w a ^^^ place w b := by
  rw [place, BitVec.setWidth_xor, BitVec.shiftLeft_xor_distrib]
  rfl

/-! ## The table -/

theorem place_shift (hk : k ≤ w) (d : BitVec k) : place w d <<< k = 0#w := by
  rw [place, ← BitVec.shiftLeft_add, Nat.sub_add_cancel hk]
  exact BitVec.shiftLeft_eq_zero (Nat.le_refl w)

theorem getMsbD_place (hk : k ≤ w) (d : BitVec k) {i : ℕ} (hi : i < k) :
    (place w d).getMsbD i = d.getMsbD i := by
  have hin : w - 1 - i - (w - k) = k - 1 - i := by omega
  simp only [BitVec.getMsbD, place, BitVec.getLsbD_shiftLeft, BitVec.getLsbD_setWidth, hin]
  simp [hi, show i < w by omega, show ¬ w - 1 - i < w - k by omega,
    show k - 1 - i < w by omega, show w - 1 - i < w by omega]

theorem getMsbD_top (hk : k ≤ w) (c : BitVec w) {i : ℕ} (hi : i < k) :
    (top k c).getMsbD i = c.getMsbD i := by
  have hin : w - k + (k - 1 - i) = w - 1 - i := by omega
  simp only [BitVec.getMsbD, top, BitVec.getLsbD_setWidth, BitVec.getLsbD_ushiftRight, hin]
  simp [hi, show i < w by omega, show k - 1 - i < k by omega]

/-- Without its highest bits the register is clear at the top. -/
theorem clear_top (hk : k ≤ w) (c : BitVec w) {i : ℕ} (hi : i < k) :
    (c ^^^ place w (top k c)).getMsbD i = false := by
  rw [BitVec.getMsbD_xor, getMsbD_place hk _ hi, getMsbD_top hk _ hi, Bool.xor_self]

/-- **A table serves.** `k` moves are one look at the table and `k` places. -/
theorem feed_eq_entry (hk : k ≤ w) (c : BitVec w) (d : BitVec k) :
    feed poly c d = (c <<< k) ^^^ entry poly (top k c ^^^ d) := by
  have hrest : (c ^^^ place w (top k c)) <<< k = c <<< k := by
    rw [BitVec.shiftLeft_xor_distrib, place_shift hk, BitVec.xor_zero]
  have hsplit : c ^^^ place w d = (c ^^^ place w (top k c)) ^^^ place w (top k c ^^^ d) := by
    rw [place_xor, BitVec.xor_assoc, ← BitVec.xor_assoc (place w (top k c)), BitVec.xor_self,
      BitVec.zero_xor]
  rw [feed, hsplit, shifts_xor, shifts_of_clear poly fun i hi => clear_top hk c hi, hrest, entry]

/-! ## Bit by bit -/

/-- The register with the bits to come added in moves as one. -/
theorem takeBit_xor (c m : BitVec w) :
    takeBit poly c m.msb ^^^ (m <<< 1) = shift poly (c ^^^ m) := by
  unfold takeBit shift
  rw [BitVec.msb_xor, BitVec.shiftLeft_xor_distrib]
  split
  · rw [BitVec.xor_assoc, BitVec.xor_comm poly, ← BitVec.xor_assoc]
  · rfl

theorem foldl_highBits (c m : BitVec w) (n : ℕ) :
    (highBits n m).foldl (takeBit poly) c ^^^ (m <<< n) = (shift poly)^[n] (c ^^^ m) := by
  induction n with
  | zero => simp [highBits]
  | succ n ih =>
    have hmsb : (m <<< n).msb = m.getMsbD n := by simp [BitVec.msb]
    have hbits : highBits (n + 1) m = highBits n m ++ [(m <<< n).msb] := by
      rw [hmsb, highBits, List.range_succ, List.map_append]
      rfl
    rw [hbits, List.foldl_append, iterate_succ_apply', ← ih, BitVec.shiftLeft_add]
    exact takeBit_xor poly _ (m <<< n)

/-- A word of `k` bits is taken bit by bit. -/
theorem foldl_takeBit (hk : k ≤ w) (c : BitVec w) (d : BitVec k) :
    (highBits k d).foldl (takeBit poly) c = feed poly c d := by
  have hbits : highBits k d = highBits k (place w d) :=
    List.map_congr_left fun i hi => (getMsbD_place hk d (List.mem_range.mp hi)).symm
  rw [feed, ← foldl_highBits, hbits, place_shift hk, BitVec.xor_zero]

end Atoman.Lib.Crc
