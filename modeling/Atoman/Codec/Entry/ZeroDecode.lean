import Atoman.Codec.Entry.ZeroEncode

/-!
# The zero-count decoder

`codec_zero_decode` bit by bit. The runs of ones and of zeros are counted in single
bytes, and a nibble waits until the one behind it completes a byte.
-/

namespace Atoman.Codec.Entry
open Codec.Zero (byteBits segmentMax)
open Lib (Memory)

/-- `codec_zero_get_bit` -/
def zeroGetBit (input : List UInt8) (bitIndex : ℕ) : UInt8 :=
  (input.getD (bitIndex >>> 3) 0 >>> UInt8.ofNat (7 - (bitIndex &&& 7))) &&& 1

/-- Count the bits equal to `bit` from `bitIndex` on: where they end and how many. -/
def zeroRun (bit : UInt8) (input : List UInt8) (bitIndex : ℕ) (count : UInt8) : ℕ × UInt8 :=
  if bitIndex < input.length * 8 ∧ zeroGetBit input bitIndex = bit then
    zeroRun bit input (bitIndex + 1) (count + 1)
  else (bitIndex, count)
termination_by input.length * 8 - bitIndex

theorem le_zeroRun (bit : UInt8) (input : List UInt8) (bitIndex : ℕ) (count : UInt8) :
    bitIndex ≤ (zeroRun bit input bitIndex count).1 := by
  induction bitIndex, count using zeroRun.induct bit input with
  | case1 bitIndex count h ih => rw [zeroRun, if_pos h]; omega
  | case2 bitIndex count h => rw [zeroRun, if_neg h]

/-- The loop of `codec_zero_decode`; `pending` is the high nibble, once there is one. -/
def zeroDecodeLoop (capacity limit : ℕ) (input : List UInt8) (bitIndex : ℕ)
    (pending : Option UInt8) (s : Output) : Except Output (Option UInt8 × Output) :=
  if bitIndex < input.length * 8 then
    let ones := zeroRun 1 input bitIndex 0
    let segment := ones.2
    if input.length * 8 ≤ ones.1 then .ok (pending, s)
    else if 3 < segment then .error s.fail
    else
      let zeros := zeroRun 0 input ones.1 0
      let offsetCount := zeros.2
      if input.length * 8 ≤ zeros.1 then .error s.fail
      else if offsetCount = 0 ∨ 4 < offsetCount then .error s.fail
      else
        let offset := offsetCount - 1
        let nibble := segment <<< 2 ||| offset
        match pending with
        | none => zeroDecodeLoop capacity limit input (zeros.1 + 1) (some nibble) s
        | some high =>
          if capacity ≤ s.outLen then .error s.fail
          else if limit ≤ s.outLen + 1 then .error s.fail
          else
            zeroDecodeLoop capacity limit input (zeros.1 + 1) none
              (s.append [high <<< 4 ||| nibble])
  else .ok (pending, s)
termination_by input.length * 8 - bitIndex
decreasing_by all_goals
  have h₁ := le_zeroRun 1 input bitIndex 0
  have h₂ := le_zeroRun 0 input (zeroRun 1 input bitIndex 0).1 0
  omega

/-- A nibble that still waits is an error. -/
def zeroNoPending (r : Option UInt8 × Output) : Except Output Output :=
  if r.1 = none then .ok r.2 else .error r.2.fail

/-- `codec_zero_decode` -/
def codecZeroDecode : Option (List UInt8) → Option UInt16 → Option (Memory UInt8) → UInt16 →
    Outcome :=
  call (frame fun capacity limit input s =>
    (zeroDecodeLoop capacity limit input 0 none s).bind zeroNoPending)

/-! ## Runs of bits -/

theorem getElem?_flatMap_byteBits (input : List UInt8) (i : ℕ) :
    (input.flatMap byteBits)[i]? =
      (input[i / 8]?).map fun b => b.toNat.testBit (7 - i % 8) := by
  induction input generalizing i with
  | nil => simp
  | cons b input ih =>
    have hlen : (byteBits b).length = 8 := by simp [byteBits]
    rw [List.flatMap_cons]
    by_cases hi : i < 8
    · have hdiv : i / 8 = 0 := by omega
      have hmod : i % 8 = i := by omega
      rw [List.getElem?_append_left (by omega), getElem?_byteBits b hi, hdiv, hmod]
      rfl
    · obtain ⟨j, rfl⟩ := Nat.exists_eq_add_of_le' (Nat.not_lt.mp hi)
      rw [List.getElem?_append_right (by omega), hlen, Nat.add_sub_cancel, ih,
        Nat.add_div_right j (Nat.succ_pos 7), Nat.add_mod_right, List.getElem?_cons_succ]

theorem length_flatMap_byteBits (input : List UInt8) :
    (input.flatMap byteBits).length = input.length * 8 := by
  induction input with
  | nil => rfl
  | cons b input ih =>
    rw [List.flatMap_cons, List.length_append, ih, List.length_cons]
    simp [byteBits]
    omega

/-- The bit the source reads is the bit of the list. -/
theorem zeroGetBit_eq {input : List UInt8} {i : ℕ} {bit : Bool}
    (h : (input.flatMap byteBits)[i]? = some bit) :
    zeroGetBit input i = if bit then 1 else 0 := by
  rw [getElem?_flatMap_byteBits] at h
  obtain ⟨b, hb, rfl⟩ := Option.map_eq_some_iff.mp h
  have hbyte : i >>> 3 = i / 8 := Nat.shiftRight_eq_div_pow i 3
  have hlow : i &&& 7 = i % 8 := Nat.and_two_pow_sub_one_eq_mod i 3
  have hshift : (UInt8.ofNat (7 - i % 8)).toNat % 8 = 7 - i % 8 := by
    rw [UInt8.toNat_ofNat']; omega
  have hval : ((b >>> UInt8.ofNat (7 - i % 8)) &&& 1).toNat =
      (b.toNat.testBit (7 - i % 8)).toNat := by
    rw [UInt8.toNat_and, UInt8.toNat_shiftRight, hshift, Nat.toNat_testBit,
      Nat.shiftRight_eq_div_pow]
    exact Nat.and_one_is_mod _
  rw [zeroGetBit, hbyte, hlow, List.getD_eq_getElem?_getD, hb, Option.getD_some,
    ← UInt8.toNat_inj, hval]
  cases b.toNat.testBit (7 - i % 8) <;> rfl

/-- A run of the source is the run at the head of the remaining bits. -/
theorem zeroRun_eq {bit : UInt8} {keep : Bool → Bool}
    (hkeep : ∀ b : Bool, (if b then 1 else 0 : UInt8) = bit ↔ keep b = true) {input : List UInt8}
    {i : ℕ} (hi : i ≤ input.length * 8) (count : UInt8) :
    zeroRun bit input i count =
      (i + (((input.flatMap byteBits).drop i).takeWhile keep).length,
        count + UInt8.ofNat (((input.flatMap byteBits).drop i).takeWhile keep).length) := by
  have hlen := length_flatMap_byteBits input
  induction i, count using zeroRun.induct bit input with
  | case1 i count h ih =>
    have hin : i < (input.flatMap byteBits).length := by omega
    have hbit := zeroGetBit_eq (List.getElem?_eq_getElem hin)
    have hhead : keep (input.flatMap byteBits)[i] = true := (hkeep _).mp (hbit.symm.trans h.2)
    rw [zeroRun, if_pos h, ih (by omega), List.drop_eq_getElem_cons hin,
      List.takeWhile_cons_of_pos hhead, List.length_cons, UInt8.ofNat_add]
    refine Prod.ext ?_ ?_
    · dsimp only; omega
    · dsimp only
      rw [UInt8.add_assoc, UInt8.add_comm 1]
      rfl
  | case2 i count h =>
    rw [zeroRun, if_neg h]
    have hnil : ((input.flatMap byteBits).drop i).takeWhile keep = [] := by
      rcases Nat.lt_or_ge i (input.flatMap byteBits).length with hin | hout
      · rw [List.drop_eq_getElem_cons hin, List.takeWhile_cons_of_neg]
        intro hhead
        have hbit := zeroGetBit_eq (List.getElem?_eq_getElem hin)
        exact h ⟨by omega, hbit.trans ((hkeep _).mpr hhead)⟩
      · rw [List.drop_eq_nil_of_le hout]
        rfl
    simp [hnil]

theorem drop_length_takeWhile (keep : Bool → Bool) (bits : List Bool) :
    bits.drop (bits.takeWhile keep).length = bits.dropWhile keep := by
  have : (bits.takeWhile keep ++ bits.dropWhile keep).drop (bits.takeWhile keep).length =
      bits.dropWhile keep := List.drop_left
  rwa [List.takeWhile_append_dropWhile] at this

/-! ## Against the lists -/

theorem keep_one (b : Bool) : (if b then 1 else 0 : UInt8) = 1 ↔ id b = true := by
  cases b <;> decide

theorem keep_zero (b : Bool) : (if b then 1 else 0 : UInt8) = 0 ↔ (!b) = true := by
  cases b <;> decide

/-- A nibble of the source is the one of the list. -/
theorem nibble_eq {segment count : ℕ} (hs : segment % 256 ≤ 3) (hpos : count % 256 ≠ 0)
    (hc : count % 256 ≤ 4) :
    UInt8.ofNat segment <<< 2 ||| (UInt8.ofNat count - 1) =
        UInt8.ofNat (4 * (segment % 256) + (count % 256 - 1)) ∧
      4 * (segment % 256) + (count % 256 - 1) < 16 := by
  have hall : ∀ s < 4, ∀ c < 5, c ≠ 0 →
      UInt8.ofNat s <<< 2 ||| (UInt8.ofNat c - 1) = UInt8.ofNat (4 * s + (c - 1)) := by decide
  have hmod (n : ℕ) : UInt8.ofNat n = UInt8.ofNat (n % 256) := by
    rw [← UInt8.toNat_inj, UInt8.toNat_ofNat', UInt8.toNat_ofNat']
    omega
  rw [hmod segment, hmod count]
  exact ⟨hall _ (by omega) _ (by omega) hpos, by omega⟩

theorem byte_eq {high nibble : ℕ} (hhigh : high < 16) (hnibble : nibble < 16) :
    UInt8.ofNat high <<< 4 ||| UInt8.ofNat nibble = UInt8.ofNat (16 * high + nibble) := by
  have hall : ∀ h < 16, ∀ n < 16,
      UInt8.ofNat h <<< 4 ||| UInt8.ofNat n = UInt8.ofNat (16 * h + n) := by decide +kernel
  exact hall _ hhigh _ hnibble

variable {capacity limit : ℕ} {input out : List UInt8} {s : Output}

/-- Ones to the end of the input are padding. -/
theorem decodeLoop_ones {bits : List Bool} {pending : Option ℕ} (h : bits.dropWhile id = []) :
    Codec.Zero.decodeLoop capacity limit bits pending out =
      if pending = none then some out else none := by
  rw [Codec.Zero.decodeLoop.eq_def]
  split
  · rfl
  · next h' => exact absurd (h.symm.trans h') (List.cons_ne_nil _ _).symm

/-- Behind ones, zeros and a closing one make a nibble. -/
theorem decodeLoop_zeros {bits more rest : List Bool} {zero one : Bool} {pending : Option ℕ}
    (h : bits.dropWhile id = zero :: more) (hmore : (zero :: more).dropWhile not = one :: rest) :
    Codec.Zero.decodeLoop capacity limit bits pending out =
      if segmentMax < (bits.takeWhile id).length % 256 then none
      else
        let offsetCount := ((zero :: more).takeWhile not).length % 256
        if offsetCount = 0 ∨ segmentMax + 1 < offsetCount then none
        else
          let nibble := 4 * ((bits.takeWhile id).length % 256) + (offsetCount - 1)
          match pending with
          | none => Codec.Zero.decodeLoop capacity limit rest (some nibble) out
          | some high =>
            if capacity ≤ out.length ∨ limit ≤ out.length + 1 then none
            else
              Codec.Zero.decodeLoop capacity limit rest none
                (out ++ [UInt8.ofNat (16 * high + nibble)]) := by
  rw [Codec.Zero.decodeLoop.eq_def]
  split
  · next h' => exact absurd (h'.symm.trans h) (List.cons_ne_nil _ _).symm
  · next h' =>
    obtain ⟨rfl, rfl⟩ := List.cons.inj (h'.symm.trans h)
    dsimp only
    split
    · rfl
    · split
      · next h'' => exact absurd (h''.symm.trans hmore) (List.cons_ne_nil _ _).symm
      · next h'' =>
        obtain ⟨rfl, rfl⟩ := List.cons.inj (h''.symm.trans hmore)
        rfl

/-- Zeros to the end of the input are an error. -/
theorem decodeLoop_truncated {bits more : List Bool} {zero : Bool} {pending : Option ℕ}
    (h : bits.dropWhile id = zero :: more) (hmore : (zero :: more).dropWhile not = []) :
    Codec.Zero.decodeLoop capacity limit bits pending out = none := by
  rw [Codec.Zero.decodeLoop.eq_def]
  split
  · next h' => exact absurd (h'.symm.trans h) (List.cons_ne_nil _ _).symm
  · next h' =>
    obtain ⟨rfl, rfl⟩ := List.cons.inj (h'.symm.trans h)
    dsimp only
    split
    · rfl
    · split
      · rfl
      · next h'' => exact absurd (h''.symm.trans hmore) (List.cons_ne_nil _ _)

theorem lt_count {n c : ℕ} (hc : c < 256) : UInt8.ofNat c < 0 + UInt8.ofNat n ↔ c < n % 256 := by
  rw [UInt8.zero_add, UInt8.lt_iff_toNat_lt, UInt8.toNat_ofNat', UInt8.toNat_ofNat',
    Nat.mod_eq_of_lt hc]

theorem segment_long (k : ℕ) : (3 : UInt8) < 0 + UInt8.ofNat k ↔ segmentMax < k % 256 :=
  lt_count (c := 3) (by decide)

theorem offset_bad (l : ℕ) : 0 + UInt8.ofNat l = 0 ∨ (4 : UInt8) < 0 + UInt8.ofNat l ↔
    l % 256 = 0 ∨ segmentMax + 1 < l % 256 := by
  have hzero : 0 + UInt8.ofNat l = 0 ↔ l % 256 = 0 := by
    rw [UInt8.zero_add, ← UInt8.toNat_inj, UInt8.toNat_ofNat']
    rfl
  exact or_congr hzero (lt_count (c := 4) (by decide))

/-- The decoder's loop from a bit on is the list's on the remaining bits. -/
theorem tracks_zeroDecodeLoop {i : ℕ} (pending : Option ℕ) (h : s.Holds capacity out)
    (hi : i ≤ input.length * 8) (hpending : ∀ n, pending = some n → n < 16) :
    Tracks capacity
      ((zeroDecodeLoop capacity limit input i (pending.map UInt8.ofNat) s).bind zeroNoPending)
      (Codec.Zero.decodeLoop capacity limit ((input.flatMap byteBits).drop i) pending out) := by
  have hlen := length_flatMap_byteBits input
  induction hm : input.length * 8 - i using Nat.strong_induction_on
    generalizing i pending s out with
  | _ m ih =>
    have hones := zeroRun_eq keep_one hi 0
    have hdrop := drop_length_takeWhile id ((input.flatMap byteBits).drop i)
    rw [List.drop_drop] at hdrop
    rw [zeroDecodeLoop]
    generalize hk : (((input.flatMap byteBits).drop i).takeWhile id).length = k at hones hdrop
    dsimp only
    rw [hones]
    dsimp only
    rcases hrest : ((input.flatMap byteBits).drop i).dropWhile id with _ | ⟨zero, more⟩
    · -- the ones run to the end of the input
      rw [hrest, List.drop_eq_nil_iff] at hdrop
      rw [if_pos (show input.length * 8 ≤ i + k by omega), ite_self, decodeLoop_ones hrest]
      cases pending with
      | none => exact h
      | some n => exact h.toClean.fail
    · rw [hrest] at hdrop
      have hin : i + k < input.length * 8 := by
        by_contra hout
        rw [List.drop_eq_nil_of_le (by omega)] at hdrop
        exact List.cons_ne_nil _ _ hdrop.symm
      have hzeros := zeroRun_eq keep_zero (Nat.le_of_lt hin) 0
      have hdrop' := drop_length_takeWhile not (zero :: more)
      rw [hdrop] at hzeros
      rw [← hdrop, List.drop_drop, hdrop] at hdrop'
      generalize hl : ((zero :: more).takeWhile not).length = l at hzeros hdrop'
      rw [if_pos (by omega), if_neg (by omega), hzeros]
      dsimp only
      rcases hclose : (zero :: more).dropWhile not with _ | ⟨one, rest⟩
      · -- the zeros run to the end of the input
        rw [hclose, List.drop_eq_nil_iff] at hdrop'
        rw [decodeLoop_truncated hrest hclose]
        split
        · exact h.toClean.fail
        · rw [if_pos (by omega)]
          exact h.toClean.fail
      · rw [hclose] at hdrop'
        have hin' : i + k + l < input.length * 8 := by
          by_contra hout
          rw [List.drop_eq_nil_of_le (by omega)] at hdrop'
          exact List.cons_ne_nil _ _ hdrop'.symm
        have hnext : (input.flatMap byteBits).drop (i + k + l + 1) = rest := by
          rw [← List.drop_drop, hdrop', List.drop_one, List.tail_cons]
        rw [decodeLoop_zeros hrest hclose, hk, hl]
        dsimp only
        by_cases hsegment : segmentMax < k % 256
        · rw [if_pos hsegment, if_pos ((segment_long k).mpr hsegment)]
          exact h.toClean.fail
        · rw [if_neg hsegment, if_neg (mt (segment_long k).mp hsegment), if_neg (by omega)]
          by_cases hoffset : l % 256 = 0 ∨ segmentMax + 1 < l % 256
          · rw [if_pos hoffset, if_pos ((offset_bad l).mpr hoffset)]
            exact h.toClean.fail
          · rw [if_neg hoffset, if_neg (mt (offset_bad l).mp hoffset)]
            rw [not_or, Nat.not_lt] at hoffset
            obtain ⟨hnibble, hsmall⟩ := nibble_eq (Nat.not_lt.mp hsegment) hoffset.1 hoffset.2
            rw [UInt8.zero_add, UInt8.zero_add, hnibble, ← hnext]
            cases pending with
            | none =>
              exact ih _ (by omega) (some _) h hin' (fun n hn => by
                obtain rfl := Option.some.inj hn; exact hsmall) rfl
            | some high =>
              dsimp only [Option.map_some]
              rw [h.length, byte_eq (hpending high rfl) hsmall]
              by_cases hfull : capacity ≤ out.length
              · rw [if_pos hfull, if_pos (Or.inl hfull)]
                exact h.toClean.fail
              · rw [if_neg hfull]
                by_cases hlimit : limit ≤ out.length + 1
                · rw [if_pos hlimit, if_pos (Or.inr hlimit)]
                  exact h.toClean.fail
                · rw [if_neg hlimit, if_neg (by rw [not_or]; exact ⟨hfull, hlimit⟩)]
                  have happend : out.length + [UInt8.ofNat (16 * high + (4 * (k % 256) +
                      (l % 256 - 1)))].length ≤ capacity := Nat.not_le.mp hfull
                  exact ih _ (by omega) none (h.append happend) hin'
                    (fun n hn => absurd hn (Option.some_ne_none n).symm) rfl

theorem zeroDecode_loopTracks :
    LoopTracks (fun capacity limit input s =>
        (zeroDecodeLoop capacity limit input 0 none s).bind zeroNoPending)
      fun capacity limit input =>
        Codec.Zero.decodeLoop capacity limit (input.flatMap byteBits) none [] :=
  fun _ _ _ _ h => tracks_zeroDecodeLoop none h (Nat.zero_le _)
    (fun n hn => absurd hn (Option.some_ne_none n).symm)

/-- **Zero-count coding loses nothing.** Whatever `codec_zero_encode` succeeds in
encoding, `codec_zero_decode` takes back from the bytes produced, into every buffer
that holds the input and under every limit above its length. -/
theorem zero_round_trip (input : List UInt8) (buffer buffer' : Memory UInt8)
    (capacity limit capacity' limit' : UInt16)
    (hencode : (codecZeroEncode (some input) (some capacity) (some buffer) limit).ret = 1)
    (hcap : input.length ≤ capacity'.toNat) (hlim : input.length < limit'.toNat) :
    (codecZeroDecode
      (some (codecZeroEncode (some input) (some capacity) (some buffer) limit).produced)
      (some capacity') (some buffer') limit').Returns input :=
  zeroEncode_bodyEnds.implements.round_trip zeroDecode_loopTracks.bodyEnds.implements
    Codec.Zero.decode_encode hencode buffer' hcap hlim

/-- Two bytes of small nibbles, and one of the largest. -/
theorem zero_round_trip_padded :
    (codecZeroDecode
      (some (codecZeroEncode (some [0, 1, 0xFF]) (some 8) (some fun _ => 0) 6).produced)
      (some 3) (some fun _ => 0) 4).Returns [0, 1, 0xFF] :=
  zero_round_trip _ _ _ 8 6 3 4
    (zeroEncode_bodyEnds.implements.returns _ _ 8 6 _ rfl).1
    (by decide) (by decide)

end Atoman.Codec.Entry
