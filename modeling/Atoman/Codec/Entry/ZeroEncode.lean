import Atoman.Codec.Entry.Output
import Atoman.Codec.Zero
import Mathlib.Data.Nat.Bitwise
import Mathlib.Data.Nat.Init
import Mathlib.Logic.Function.Iterate

/-!
# The zero-count encoder

`codec_zero_encode` bit by bit. It clears the buffer and then only sets bits, at
whatever byte `bit_count` has reached; it compares the size with the capacity once,
behind its last store.
-/

namespace Atoman.Codec.Entry
open Codec.Zero (byteBits byteOfBits packBits padBits nibbles nibbleCode)
open Lib (Memory)

/-! ## Bits of a memory -/

/-- Bit `j` of a memory, the most significant bit of a byte first. -/
def bitAt (m : Memory UInt8) (j : ℕ) : Bool := (m (j / 8)).toNat.testBit (7 - j % 8)

/-- Setting one bit sets that bit. -/
theorem bitAt_set (m : Memory UInt8) (c j : ℕ) :
    bitAt (Function.update m (c >>> 3) (m (c >>> 3) ||| 1 <<< UInt8.ofNat (7 - (c &&& 7)))) j =
      (bitAt m j || decide (j = c)) := by
  have hbyte : c >>> 3 = c / 8 := Nat.shiftRight_eq_div_pow c 3
  have hlow : c &&& 7 = c % 8 := Nat.and_two_pow_sub_one_eq_mod c 3
  have hmask : ∀ k < 8, (1 <<< UInt8.ofNat k : UInt8).toNat = 2 ^ k := by decide
  rw [hbyte, hlow, bitAt, bitAt]
  by_cases hj : j / 8 = c / 8
  · rw [hj, Function.update_self, UInt8.toNat_or, Nat.testBit_or, hmask _ (by omega),
      Nat.testBit_two_pow]
    congr 1
    rw [decide_eq_decide]
    omega
  · rw [Function.update_of_ne hj]
    have : j ≠ c := fun h => hj (by rw [h])
    simp [this]

theorem byteOfBits_byteBits (b : UInt8) : byteOfBits (byteBits b) = b := by
  have hall : ∀ n < 256, byteOfBits (byteBits (UInt8.ofNat n)) = UInt8.ofNat n := by
    decide +kernel
  have := hall b.toNat b.toNat_lt
  rwa [UInt8.ofNat_toNat] at this

theorem getElem?_byteBits (b : UInt8) {j : ℕ} (hj : j < 8) :
    (byteBits b)[j]? = some (b.toNat.testBit (7 - j)) := by
  simp [byteBits, hj]

/-- A memory that holds the bits holds the bytes they make. -/
theorem slice_packBits {m : Memory UInt8} {bits : List Bool} {n off : ℕ}
    (hlen : bits.length = 8 * n)
    (hbits : ∀ j < 8 * n, bits[j]? = some (bitAt m (8 * off + j))) :
    m.slice off n = packBits bits := by
  induction n generalizing bits off with
  | zero =>
    rw [List.length_eq_zero_iff.mp hlen, packBits]
    rfl
  | succ n ih =>
    have hbyte : bits.take 8 = byteBits (m off) := by
      apply List.ext_getElem?
      intro j
      by_cases hj : j < 8
      · have hdiv : (8 * off + j) / 8 = off := by omega
        have hmod : (8 * off + j) % 8 = j := by omega
        rw [List.getElem?_take_of_lt hj, hbits j (by omega), getElem?_byteBits _ hj, bitAt, hdiv,
          hmod]
      · rw [List.getElem?_eq_none (by rw [List.length_take]; omega),
          List.getElem?_eq_none
            (by simp only [byteBits, List.length_map, List.length_range]; omega)]
    have hrest : m.slice (off + 1) n = packBits (bits.drop 8) := by
      refine ih (by rw [List.length_drop]; omega) fun j hj => ?_
      rw [List.getElem?_drop, hbits (8 + j) (by omega)]
      congr 2
      omega
    have hne : bits ≠ [] := by rintro rfl; simp at hlen
    obtain ⟨bit, rest, rfl⟩ := List.exists_cons_of_ne_nil hne
    rw [Nat.add_comm n 1, Memory.slice_append, packBits, hbyte, byteOfBits_byteBits, hrest]
    rfl

/-! ## The encoder -/

/-- `p_output` of the encoder while it sets bits. -/
structure BitOutput where
  bytes : Memory UInt8
  bitCount : ℕ
  stores : List ℕ

namespace BitOutput

/-- Set the next bit. -/
def one (p : BitOutput) : BitOutput where
  bytes := Function.update p.bytes (p.bitCount >>> 3)
    (p.bytes (p.bitCount >>> 3) ||| 1 <<< UInt8.ofNat (7 - (p.bitCount &&& 7)))
  bitCount := p.bitCount + 1
  stores := p.stores ++ [p.bitCount >>> 3]

/-- Leave the next bit zero. -/
def zero (p : BitOutput) : BitOutput := { p with bitCount := p.bitCount + 1 }

/-- The codeword of a nibble. -/
def code (nibble : UInt8) (p : BitOutput) : BitOutput :=
  let segment := nibble >>> 2
  let offset := nibble &&& 3
  (zero^[offset.toNat + 1] (one^[segment.toNat] p)).one

/-- Fill the last byte up with ones. -/
def pad (p : BitOutput) : BitOutput :=
  if p.bitCount &&& 7 ≠ 0 then p.one.pad else p
termination_by (8 - p.bitCount % 8) % 8
decreasing_by
  have hlow : p.bitCount &&& 7 = p.bitCount % 8 := Nat.and_two_pow_sub_one_eq_mod _ 3
  simp only [one]
  omega

end BitOutput

/-- One nibble: its codeword, and an abort once the size reaches the limit. -/
def zeroNibble (limit : ℕ) (nibble : UInt8) (p : BitOutput) : Except BitOutput BitOutput :=
  let p := p.code nibble
  if limit ≤ (p.bitCount + 7) / 8 then .error p else .ok p

/-- The loop of `codec_zero_encode`, high nibble first. -/
def zeroEncodeLoop (limit : ℕ) : List UInt8 → BitOutput → Except BitOutput BitOutput
  | [], p => .ok p
  | b :: rest, p =>
    (zeroNibble limit (b >>> 4) p).bind fun p =>
      (zeroNibble limit (b &&& 0x0F) p).bind (zeroEncodeLoop limit rest)

/-- `codec_zero_encode` behind its checks on entry. -/
def zeroEncodeBody : Body := fun capacity limit input s =>
  let cleared : BitOutput :=
    ⟨s.bytes.write 0 (List.replicate capacity 0), 0, s.stores ++ List.range' 0 capacity⟩
  match zeroEncodeLoop limit input cleared with
  | .error p => .error { s with bytes := p.bytes, stores := p.stores, reported := 0 }
  | .ok p =>
    let p := p.pad
    let outLen := p.bitCount / 8 % 2 ^ 16
    if outLen = 0 ∨ capacity < outLen ∨ limit ≤ outLen then
      .error { s with bytes := p.bytes, stores := p.stores, reported := 0 }
    else .ok { s with bytes := p.bytes, stores := p.stores, reported := outLen }

/-- `codec_zero_encode` -/
def codecZeroEncode : Option (List UInt8) → Option UInt16 → Option (Memory UInt8) → UInt16 →
    Outcome :=
  call zeroEncodeBody

/-! ### What it writes -/

/-- The buffer holds the bits written so far, as far as it reaches, and zeros behind
them; no store lies behind both the capacity and the bits. -/
structure Written (capacity : ℕ) (p : BitOutput) (bits : List Bool) : Prop where
  count : p.bitCount = bits.length
  value : ∀ j < 8 * capacity, bitAt p.bytes j = bits.getD j false
  stores : ∀ i ∈ p.stores, i < capacity ∨ 8 * i < p.bitCount

section Written
variable {capacity limit : ℕ} {p : BitOutput} {bits : List Bool}

theorem getD_append_bit (bits : List Bool) (bit : Bool) (j : ℕ) :
    (bits ++ [bit]).getD j false = (bits.getD j false || (decide (j = bits.length) && bit)) := by
  rcases Nat.lt_trichotomy j bits.length with h | rfl | h
  · simp [List.getD_eq_getElem?_getD, List.getElem?_append_left h, Nat.ne_of_lt h]
  · simp [List.getD_eq_getElem?_getD]
  · have h₁ : (bits ++ [bit])[j]? = none := List.getElem?_eq_none
      (by rw [List.length_append, List.length_singleton]; exact h)
    have h₂ : bits[j]? = none := List.getElem?_eq_none (Nat.le_of_lt h)
    simp [List.getD_eq_getElem?_getD, h₁, h₂, Nat.ne_of_gt h]

theorem Written.one (h : Written capacity p bits) : Written capacity p.one (bits ++ [true]) where
  count := by simp [BitOutput.one, h.count]
  value := by
    intro j hj
    rw [BitOutput.one, bitAt_set, h.value j hj, getD_append_bit, h.count, Bool.and_true]
  stores := by
    intro i hi
    have hbyte : p.bitCount >>> 3 = p.bitCount / 8 := Nat.shiftRight_eq_div_pow _ 3
    simp only [BitOutput.one, List.mem_append, List.mem_singleton] at hi ⊢
    rcases hi with hi | rfl
    · have := h.stores i hi; omega
    · omega

theorem Written.zero (h : Written capacity p bits) : Written capacity p.zero (bits ++ [false]) where
  count := by simp [BitOutput.zero, h.count]
  value := by
    intro j hj
    rw [getD_append_bit, Bool.and_false, Bool.or_false]
    exact h.value j hj
  stores := by
    intro i hi
    have := h.stores i hi
    simp only [BitOutput.zero]
    omega

theorem Written.ones (h : Written capacity p bits) (n : ℕ) :
    Written capacity (BitOutput.one^[n] p) (bits ++ List.replicate n true) := by
  induction n with
  | zero => simpa using h
  | succ n ih =>
    rw [Function.iterate_succ_apply', List.replicate_succ', ← List.append_assoc]
    exact ih.one

theorem Written.zeros (h : Written capacity p bits) (n : ℕ) :
    Written capacity (BitOutput.zero^[n] p) (bits ++ List.replicate n false) := by
  induction n with
  | zero => simpa using h
  | succ n ih =>
    rw [Function.iterate_succ_apply', List.replicate_succ', ← List.append_assoc]
    exact ih.zero

/-- A codeword is written, and its last bit is stored. -/
theorem Written.code (h : Written capacity p bits) (nibble : UInt8) :
    Written capacity (p.code nibble) (bits ++ nibbleCode nibble.toNat) ∧
      ((p.code nibble).bitCount - 1) / 8 ∈ (p.code nibble).stores := by
  have hsegment : (nibble >>> 2).toNat = nibble.toNat / 4 := by
    rw [UInt8.toNat_shiftRight, Nat.shiftRight_eq_div_pow]
    rfl
  have hoffset : (nibble &&& 3).toNat = nibble.toNat % 4 := by
    rw [UInt8.toNat_and]
    exact Nat.and_two_pow_sub_one_eq_mod _ 2
  constructor
  · have := ((h.ones (nibble.toNat / 4)).zeros (nibble.toNat % 4 + 1)).one
    simpa only [BitOutput.code, hsegment, hoffset, nibbleCode, List.append_assoc] using this
  · have hbyte (n : ℕ) : n >>> 3 = n / 8 := Nat.shiftRight_eq_div_pow n 3
    simp [BitOutput.code, BitOutput.one, hbyte]

theorem length_nibbleCode {n : ℕ} (hn : n < 16) : (nibbleCode n).length ≤ 8 := by
  simp only [nibbleCode, List.length_append, List.length_replicate, List.length_singleton]
  omega

/-- The encoder has written whole codewords, the last of which ends in a stored bit. -/
structure WrittenCodes (capacity : ℕ) (p : BitOutput) (bits : List Bool) : Prop
    extends Written capacity p bits where
  last : 0 < p.bitCount → (p.bitCount - 1) / 8 ∈ p.stores

/-- The state at an abort: the size has just reached the limit, inside the code of the
whole input. -/
structure Aborted (capacity limit : ℕ) (p : BitOutput) (total : ℕ) : Prop where
  written : ∃ bits, WrittenCodes capacity p bits
  limit : (p.bitCount + 7) / 8 = limit
  inside : p.bitCount ≤ total

theorem zeroNibble_spec (h : WrittenCodes capacity p bits) (hsize : (bits.length + 7) / 8 < limit)
    (nibble : UInt8) (hnibble : nibble.toNat < 16) :
    match zeroNibble limit nibble p with
    | .ok p' => WrittenCodes capacity p' (bits ++ nibbleCode nibble.toNat) ∧
        ((bits ++ nibbleCode nibble.toNat).length + 7) / 8 < limit
    | .error p' => Aborted capacity limit p' (bits ++ nibbleCode nibble.toNat).length ∧
        limit ≤ ((bits ++ nibbleCode nibble.toNat).length + 7) / 8 := by
  obtain ⟨hwritten, hlast⟩ := h.code nibble
  have hcode := length_nibbleCode hnibble
  have hcount := hwritten.count
  unfold zeroNibble
  dsimp only
  rw [hcount]
  by_cases hlimit : limit ≤ ((bits ++ nibbleCode nibble.toNat).length + 7) / 8
  · rw [if_pos hlimit]
    refine ⟨⟨⟨_, hwritten, fun _ => hlast⟩, ?_, ?_⟩, hlimit⟩
    · rw [hcount]
      rw [List.length_append] at hlimit ⊢
      omega
    · exact Nat.le_of_eq hcount
  · rw [if_neg hlimit]
    exact ⟨⟨hwritten, fun _ => hlast⟩, Nat.not_le.mp hlimit⟩

/-- What the loop leaves behind: the code of the whole input, below the limit, or an
abort at the limit. -/
theorem zeroEncodeLoop_spec (input : List UInt8) (h : WrittenCodes capacity p bits)
    (hsize : (bits.length + 7) / 8 < limit) :
    match zeroEncodeLoop limit input p, Codec.Zero.encodeLoop limit (nibbles input) bits with
    | .ok p', some bits' => WrittenCodes capacity p' bits' ∧ (bits'.length + 7) / 8 < limit
    | .error p', none =>
        Aborted capacity limit p' (bits ++ (nibbles input).flatMap nibbleCode).length
    | _, _ => False := by
  induction input generalizing p bits with
  | nil => exact ⟨h, hsize⟩
  | cons b rest ih =>
    have hhigh : (b >>> 4).toNat = b.toNat / 16 := by
      rw [UInt8.toNat_shiftRight, Nat.shiftRight_eq_div_pow]
      rfl
    have hlow : (b &&& 0x0F).toNat = b.toNat % 16 := by
      rw [UInt8.toNat_and]
      exact Nat.and_two_pow_sub_one_eq_mod _ 4
    have hlt := b.toNat_lt
    have hnibbles : nibbles (b :: rest) = b.toNat / 16 :: b.toNat % 16 :: nibbles rest := rfl
    have h₁ := zeroNibble_spec h hsize (b >>> 4) (by omega)
    rw [hnibbles, zeroEncodeLoop, Codec.Zero.encodeLoop]
    rw [hhigh] at h₁
    cases hn₁ : zeroNibble limit (b >>> 4) p with
    | error p₁ =>
      rw [hn₁] at h₁
      rw [if_pos h₁.2]
      refine ⟨h₁.1.written, h₁.1.limit, Nat.le_trans h₁.1.inside ?_⟩
      simp only [List.flatMap_cons, List.length_append]
      omega
    | ok p₁ =>
      rw [hn₁] at h₁
      rw [if_neg (Nat.not_le.mpr h₁.2), Codec.Zero.encodeLoop]
      have h₂ := zeroNibble_spec h₁.1 h₁.2 (b &&& 0x0F) (by omega)
      dsimp only [Except.bind]
      rw [hlow] at h₂
      cases hn₂ : zeroNibble limit (b &&& 0x0F) p₁ with
      | error p₂ =>
        rw [hn₂] at h₂
        rw [if_pos h₂.2]
        refine ⟨h₂.1.written, h₂.1.limit, Nat.le_trans h₂.1.inside ?_⟩
        simp only [List.flatMap_cons, List.length_append]
        omega
      | ok p₂ =>
        rw [hn₂] at h₂
        rw [if_neg (Nat.not_le.mpr h₂.2)]
        have := ih h₂.1 h₂.2
        simpa only [List.flatMap_cons, List.append_assoc] using this

theorem padBits_push (h : bits.length % 8 ≠ 0) : padBits (bits ++ [true]) = padBits bits := by
  have hcount : (8 - bits.length % 8) % 8 = (8 - (bits.length + 1) % 8) % 8 + 1 := by omega
  rw [padBits, padBits, List.length_append, List.length_singleton, hcount, List.replicate_succ,
    List.append_assoc, List.singleton_append]

/-- Padding writes the padded bits, into no new byte. -/
theorem WrittenCodes.pad (h : WrittenCodes capacity p bits) :
    Written capacity p.pad (padBits bits) ∧ ∀ i, i ∈ p.pad.stores ↔ i ∈ p.stores := by
  induction p using BitOutput.pad.induct generalizing bits with
  | case1 p hmore ih =>
    have hlow : p.bitCount &&& 7 = p.bitCount % 8 := Nat.and_two_pow_sub_one_eq_mod _ 3
    have hbyte : p.bitCount >>> 3 = (p.bitCount - 1) / 8 := by
      rw [Nat.shiftRight_eq_div_pow]; omega
    have hmem : p.bitCount >>> 3 ∈ p.stores := by
      rw [hbyte]; exact h.last (by omega)
    have hone : WrittenCodes capacity p.one (bits ++ [true]) :=
      ⟨h.one, fun _ => by simp [BitOutput.one, Nat.shiftRight_eq_div_pow]⟩
    obtain ⟨hpad, hstores⟩ := ih hone
    rw [BitOutput.pad, if_pos hmore]
    rw [padBits_push (by rw [← h.count]; omega)] at hpad
    refine ⟨hpad, fun i => (hstores i).trans ?_⟩
    simp only [BitOutput.one, List.mem_append, List.mem_singleton, or_iff_left_iff_imp]
    rintro rfl
    exact hmem
  | case2 p hdone =>
    have hlow : p.bitCount &&& 7 = p.bitCount % 8 := Nat.and_two_pow_sub_one_eq_mod _ 3
    have hcount := h.count
    have hpad : padBits bits = bits := by
      have hzero : (8 - bits.length % 8) % 8 = 0 := by omega
      rw [padBits, hzero, List.replicate_zero, List.append_nil]
    rw [BitOutput.pad, if_neg hdone, hpad]
    exact ⟨h.toWritten, fun i => Iff.rfl⟩

/-- No store lies at or behind the capacity exactly when the bits fit it. -/
theorem WrittenCodes.stores_iff (h : WrittenCodes capacity p bits) :
    (∀ i ∈ p.stores, i < capacity) ↔ (p.bitCount + 7) / 8 ≤ capacity := by
  constructor
  · intro hall
    by_cases hzero : p.bitCount = 0
    · omega
    · have := hall _ (h.last (Nat.pos_of_ne_zero hzero))
      omega
  · intro hfit i hi
    have := h.stores i hi
    omega

/-- The cleared buffer. -/
theorem WrittenCodes.start (capacity : ℕ) (buffer : Memory UInt8) :
    WrittenCodes capacity
      ⟨buffer.write 0 (List.replicate capacity 0), 0, [] ++ List.range' 0 capacity⟩ [] where
  count := rfl
  value := by
    intro j hj
    have hin : j / 8 < (List.replicate capacity (0 : UInt8)).length := by
      rw [List.length_replicate]; omega
    have hbyte := Memory.write_inside buffer 0 _ hin
    rw [Nat.zero_add, List.getElem_replicate] at hbyte
    simp [bitAt, hbyte]
  stores := by
    intro i hi
    have := List.mem_range'_1.mp hi
    omega
  last := fun h => absurd h (Nat.lt_irrefl 0)

/-! ### Whole calls -/

/-- The size of the code of an input, in bytes: a nibble takes its upper two bits, its
lower two and two more. -/
def encodedSize (input : List UInt8) : ℕ :=
  (((nibbles input).map fun n => n / 4 + n % 4 + 2).sum + 7) / 8

theorem encodedSize_eq (input : List UInt8) :
    encodedSize input = (((nibbles input).flatMap nibbleCode).length + 7) / 8 := by
  rw [encodedSize, List.length_flatMap]
  have hlen : (fun n => n / 4 + n % 4 + 2) = fun n => (nibbleCode n).length := by
    funext n
    simp [nibbleCode, Nat.add_assoc]
  rw [hlen]

/-- The encoder on the buffer ends as the one on lists does, and its stores stay
below the capacity exactly when what it gets to write does. -/
theorem zeroEncodeBody_spec (input : List UInt8) (buffer : Memory UInt8) (capacity limit : UInt16)
    (hinput : input ≠ []) (hcap : capacity ≠ 0) (hlim : limit ≠ 0) :
    Ends (zeroEncodeBody capacity.toNat limit.toNat input (Output.start buffer))
        (Codec.Zero.encode input capacity.toNat limit.toNat) ∧
      ((∀ i ∈ (left (zeroEncodeBody capacity.toNat limit.toNat input
          (Output.start buffer))).stores, i < capacity.toNat) ↔
        min (encodedSize input) limit.toNat ≤ capacity.toNat) := by
  have hcap' : capacity.toNat ≠ 0 := fun h0 => hcap (UInt16.toNat_inj.mp h0)
  have hlim' : limit.toNat ≠ 0 := fun h0 => hlim (UInt16.toNat_inj.mp h0)
  have hroom : (([] : List Bool).length + 7) / 8 < limit.toNat := by
    simp only [List.length_nil]
    omega
  have hspec := zeroEncodeLoop_spec input (WrittenCodes.start capacity.toNat buffer) hroom
  rw [Codec.Zero.encode, if_neg (by rw [not_or, not_or]; exact ⟨hinput, hlim', hcap'⟩)]
  simp only [zeroEncodeBody, Output.start]
  cases hloop : zeroEncodeLoop limit.toNat input
      ⟨buffer.write 0 (List.replicate capacity.toNat 0), 0, [] ++ List.range' 0 capacity.toNat⟩ with
  | error p =>
    rw [hloop] at hspec
    cases hlist : Codec.Zero.encodeLoop limit.toNat (nibbles input) [] with
    | some bits => rw [hlist] at hspec; exact hspec.elim
    | none =>
      rw [hlist] at hspec
      obtain ⟨⟨bits, hwritten⟩, hlimit, hinside⟩ := hspec
      refine ⟨rfl, ?_⟩
      simp only [left]
      rw [hwritten.stores_iff, hlimit, Nat.min_eq_right]
      rw [List.nil_append] at hinside
      rw [encodedSize_eq]
      omega
  | ok p =>
    rw [hloop] at hspec
    cases hlist : Codec.Zero.encodeLoop limit.toNat (nibbles input) [] with
    | none => rw [hlist] at hspec; exact hspec.elim
    | some bits =>
      rw [hlist] at hspec
      obtain ⟨hwritten, hsize⟩ := hspec
      obtain ⟨hpad, hstores⟩ := hwritten.pad
      have hbits := Codec.Zero.encodeLoop_eq hlist
      rw [List.nil_append] at hbits
      have hlen := Codec.Zero.length_padBits bits
      have hsize' : (padBits bits).length / 8 = (bits.length + 7) / 8 := by
        simp only [padBits, List.length_append, List.length_replicate]
        omega
      have hout : p.pad.bitCount / 8 % 2 ^ 16 = (padBits bits).length / 8 := by
        have := limit.toNat_lt
        rw [hpad.count]
        omega
      have hmin : min (encodedSize input) limit.toNat = (p.bitCount + 7) / 8 := by
        rw [encodedSize_eq, ← hbits, hwritten.count, Nat.min_eq_left (by omega)]
      have hstay : (∀ i ∈ p.pad.stores, i < capacity.toNat) ↔
          min (encodedSize input) limit.toNat ≤ capacity.toNat := by
        rw [hmin, ← hwritten.stores_iff]
        exact forall_congr' fun i => by rw [hstores]
      simp only [hout, Option.bind_some]
      by_cases hend : (padBits bits).length / 8 = 0 ∨ capacity.toNat < (padBits bits).length / 8 ∨
          limit.toNat ≤ (padBits bits).length / 8
      · rw [if_pos hend, if_pos hend]
        exact ⟨rfl, hstay⟩
      · rw [if_neg hend, if_neg hend]
        have hslice : p.pad.bytes.slice 0 ((padBits bits).length / 8) =
            packBits (padBits bits) := by
          refine slice_packBits (by omega) fun j hj => ?_
          rw [Nat.mul_zero, Nat.zero_add, hpad.value j (by omega),
            List.getElem?_eq_getElem (by omega), List.getD_eq_getElem?_getD,
            List.getElem?_eq_getElem (by omega), Option.getD_some]
        have hpacked : (packBits (padBits bits)).length = (padBits bits).length / 8 := by
          rw [← hslice, Memory.length_slice]
        refine ⟨⟨hpacked.symm, by rw [hpacked]; exact hslice⟩, hstay⟩

theorem zeroEncode_bodyEnds : BodyEnds zeroEncodeBody Codec.Zero.encode where
  ends := fun input buffer capacity limit hinput hcap hlim =>
    (zeroEncodeBody_spec input buffer capacity limit hinput hcap hlim).1
  refuses := fun input capacity limit hentry => by rw [Codec.Zero.encode, if_pos hentry]

end Written
end Atoman.Codec.Entry
