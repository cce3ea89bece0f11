import Mathlib.Data.List.Basic
import Mathlib.Data.List.TakeDrop
import Mathlib.Data.List.TakeWhile

/-!
# Zero-count coding

A nibble is written as its upper two bits in ones, its lower two bits plus one in
zeros, and a closing one; the last byte is filled up with ones. The most
significant bit of a byte comes first.
-/

namespace Atoman.Codec.Zero

/-- `CODEC_ZERO_SEGMENT_MAX` -/
abbrev segmentMax : ℕ := 3

/-- The bits of a byte, the most significant first. -/
def byteBits (b : UInt8) : List Bool := (List.range 8).map fun i => b.toNat.testBit (7 - i)

/-- The byte that eight bits make. -/
def byteOfBits (bits : List Bool) : UInt8 :=
  UInt8.ofNat (bits.foldl (fun value bit => 2 * value + bit.toNat) 0)

/-- The bytes that a bit string makes, eight bits a byte. -/
def packBits (bits : List Bool) : List UInt8 :=
  match bits with
  | [] => []
  | bit :: rest => byteOfBits ((bit :: rest).take 8) :: packBits ((bit :: rest).drop 8)
termination_by bits.length

/-- The codeword of a nibble. -/
def nibbleCode (nibble : ℕ) : List Bool :=
  List.replicate (nibble / 4) true ++ List.replicate (nibble % 4 + 1) false ++ [true]

/-- The nibbles of the input, high nibble first. -/
def nibbles (input : List UInt8) : List ℕ :=
  input.flatMap fun b => [b.toNat / 16, b.toNat % 16]

/-- The encoder's loop: it gives up as soon as the size reaches the limit. -/
def encodeLoop (limit : ℕ) : List ℕ → List Bool → Option (List Bool)
  | [], bits => some bits
  | nibble :: rest, bits =>
    let bits := bits ++ nibbleCode nibble
    if limit ≤ (bits.length + 7) / 8 then none else encodeLoop limit rest bits

/-- Fill the last byte up with ones. -/
def padBits (bits : List Bool) : List Bool :=
  bits ++ List.replicate ((8 - bits.length % 8) % 8) true

/-- `codec_zero_encode` -/
def encode (input : List UInt8) (capacity limit : ℕ) : Option (List UInt8) :=
  if input = [] ∨ limit = 0 ∨ capacity = 0 then none
  else (encodeLoop limit (nibbles input) []).bind fun bits =>
    let bits := padBits bits
    let outLen := bits.length / 8
    if outLen = 0 ∨ capacity < outLen ∨ limit ≤ outLen then none else some (packBits bits)

/-- The decoder's loop over the bits of the input. Both counters are one byte wide
and wrap around. `pending` is a high nibble that waits for its low one. -/
def decodeLoop (capacity limit : ℕ) (bits : List Bool) (pending : Option ℕ) (out : List UInt8) :
    Option (List UInt8) :=
  match _ : bits.dropWhile id with
  | [] => if pending = none then some out else none
  | zero :: more =>
    let segment := (bits.takeWhile id).length % 256
    if segmentMax < segment then none
    else
      match _ : (zero :: more).dropWhile not with
      | [] => none
      | _ :: rest =>
        let offsetCount := ((zero :: more).takeWhile not).length % 256
        if offsetCount = 0 ∨ segmentMax + 1 < offsetCount then none
        else
          let nibble := 4 * segment + (offsetCount - 1)
          match pending with
          | none => decodeLoop capacity limit rest (some nibble) out
          | some high =>
            if capacity ≤ out.length ∨ limit ≤ out.length + 1 then none
            else decodeLoop capacity limit rest none (out ++ [UInt8.ofNat (16 * high + nibble)])
termination_by bits.length
decreasing_by all_goals
  have h₁ := (List.dropWhile_suffix id (l := bits)).length_le
  have h₂ := (List.dropWhile_suffix not (l := zero :: more)).length_le
  rw [‹bits.dropWhile id = _›] at h₁; rw [‹(zero :: more).dropWhile not = _›] at h₂
  simp only [List.length_cons] at h₁ h₂ ⊢; omega

/-- `codec_zero_decode` -/
def decode (input : List UInt8) (capacity limit : ℕ) : Option (List UInt8) :=
  if input = [] ∨ limit = 0 ∨ capacity = 0 then none
  else (decodeLoop capacity limit (input.flatMap byteBits) none []).bind fun out =>
    if out = [] ∨ limit ≤ out.length then none else some out

/-! ## Bits and bytes -/

theorem byteBits_byteOfBits : ∀ a b c d e f g h : Bool,
    byteBits (byteOfBits [a, b, c, d, e, f, g, h]) = [a, b, c, d, e, f, g, h] := by
  decide +kernel

theorem byteBits_byteOfBits_of_length {bits : List Bool} (h : bits.length = 8) :
    byteBits (byteOfBits bits) = bits := by
  match bits, h with
  | [a, b, c, d, e, f, g, i], _ => exact byteBits_byteOfBits a b c d e f g i

/-- Packed bits are read back. -/
theorem flatMap_packBits {bits : List Bool} (h : bits.length % 8 = 0) :
    (packBits bits).flatMap byteBits = bits := by
  induction bits using packBits.induct with
  | case1 => simp [packBits]
  | case2 bit rest ih =>
    have hlen : 8 ≤ (bit :: rest).length := by
      simp only [List.length_cons] at h ⊢; omega
    rw [packBits, List.flatMap_cons,
      byteBits_byteOfBits_of_length (List.length_take_of_le hlen),
      ih (by rw [List.length_drop]; omega), List.take_append_drop]

theorem length_padBits (bits : List Bool) : (padBits bits).length % 8 = 0 := by
  simp only [padBits, List.length_append, List.length_replicate]; omega

/-! ## Round trip -/

variable {capacity limit : ℕ}

/-- The encoder appends the codewords. -/
theorem encodeLoop_eq {ns : List ℕ} {bits r : List Bool} (h : encodeLoop limit ns bits = some r) :
    r = bits ++ ns.flatMap nibbleCode := by
  induction ns generalizing bits with
  | nil => simpa [encodeLoop] using h.symm
  | cons n ns ih =>
    simp only [encodeLoop] at h
    split at h
    · exact absurd h (by simp)
    · rw [ih h, List.flatMap_cons, List.append_assoc]

/-- The two runs of a codeword. -/
theorem nibbleCode_runs (n : ℕ) (rest : List Bool) :
    ((nibbleCode n ++ rest).takeWhile id = List.replicate (n / 4) true ∧
      (nibbleCode n ++ rest).dropWhile id =
        false :: (List.replicate (n % 4) false ++ true :: rest)) ∧
    ((false :: (List.replicate (n % 4) false ++ true :: rest)).takeWhile not =
        List.replicate (n % 4 + 1) false ∧
      (false :: (List.replicate (n % 4) false ++ true :: rest)).dropWhile not = true :: rest) := by
  have hones : ∀ b ∈ List.replicate (n / 4) true, id b = true := fun b hb =>
    List.eq_of_mem_replicate hb
  have hzeros : ∀ b ∈ List.replicate (n % 4 + 1) false, (!b) = true := fun b hb => by
    rw [List.eq_of_mem_replicate hb]; rfl
  have hcode : nibbleCode n ++ rest =
      List.replicate (n / 4) true ++ (List.replicate (n % 4 + 1) false ++ true :: rest) := by
    simp [nibbleCode]
  have hmore : false :: (List.replicate (n % 4) false ++ true :: rest) =
      List.replicate (n % 4 + 1) false ++ true :: rest := by
    rw [List.replicate_succ, List.cons_append]
  rw [hcode, hmore, List.takeWhile_append_of_pos hones, List.dropWhile_append_of_pos hones,
    List.takeWhile_append_of_pos hzeros, List.dropWhile_append_of_pos hzeros]
  simp [List.replicate_succ]

/-- A codeword is decoded to its nibble. -/
theorem decodeLoop_nibble {n : ℕ} (hn : n < 16) (rest : List Bool) (pending : Option ℕ)
    (out : List UInt8) :
    decodeLoop capacity limit (nibbleCode n ++ rest) pending out =
      match pending with
      | none => decodeLoop capacity limit rest (some n) out
      | some high =>
        if capacity ≤ out.length ∨ limit ≤ out.length + 1 then none
        else decodeLoop capacity limit rest none (out ++ [UInt8.ofNat (16 * high + n)]) := by
  obtain ⟨⟨hones, hmore⟩, hzeros, hrest⟩ := nibbleCode_runs n rest
  have hsegment : (List.replicate (n / 4) true).length % 256 = n / 4 := by
    rw [List.length_replicate]; omega
  have hoffset : (List.replicate (n % 4 + 1) false).length % 256 = n % 4 + 1 := by
    rw [List.length_replicate]; omega
  have hnibble : 4 * (n / 4) + (n % 4 + 1 - 1) = n := by omega
  rw [decodeLoop.eq_def]
  split
  · next h => rw [hmore] at h; simp at h
  · next zero more h =>
    obtain ⟨rfl, rfl⟩ := List.cons.inj (hmore.symm.trans h)
    dsimp only
    rw [hones, hsegment, if_neg (by simp only [segmentMax]; omega)]
    split
    · next h => rw [hrest] at h; simp at h
    · next last rest' h =>
      obtain ⟨rfl, rfl⟩ := List.cons.inj (hrest.symm.trans h)
      rw [hzeros, hoffset, if_neg (by simp only [segmentMax]; omega), hnibble]

/-- Ones at the end are padding. -/
theorem decodeLoop_padding (k : ℕ) (out : List UInt8) :
    decodeLoop capacity limit (List.replicate k true) none out = some out := by
  have hdrop : (List.replicate k true).dropWhile id = [] :=
    List.dropWhile_eq_nil_iff.mpr fun b hb => List.eq_of_mem_replicate hb
  rw [decodeLoop.eq_def]
  split
  · rfl
  · next h => rw [hdrop] at h; simp at h

/-- The codewords of the input are decoded to the input. -/
theorem decodeLoop_nibbles (input : List UInt8) (k : ℕ) (out : List UInt8)
    (hcap : out.length + input.length ≤ capacity) (hlim : out.length + input.length < limit) :
    decodeLoop capacity limit
      ((nibbles input).flatMap nibbleCode ++ List.replicate k true) none out =
      some (out ++ input) := by
  induction input generalizing out with
  | nil => simpa [nibbles] using decodeLoop_padding k out
  | cons b input ih =>
    have hb := b.toNat_lt
    have hbyte : UInt8.ofNat (16 * (b.toNat / 16) + b.toNat % 16) = b := by
      rw [Nat.div_add_mod]; simp
    have hcode : (nibbles (b :: input)).flatMap nibbleCode ++ List.replicate k true =
        nibbleCode (b.toNat / 16) ++ (nibbleCode (b.toNat % 16) ++
          ((nibbles input).flatMap nibbleCode ++ List.replicate k true)) := by
      simp [nibbles]
    simp only [List.length_cons] at hcap hlim
    rw [hcode, decodeLoop_nibble (by omega), decodeLoop_nibble (by omega)]
    dsimp only
    rw [if_neg (by omega), hbyte,
      ih (out ++ [b]) (by simp only [List.length_append, List.length_singleton]; omega)
        (by simp only [List.length_append, List.length_singleton]; omega),
      List.append_assoc, List.singleton_append]

/-- What the encoder produces is decoded to the input, wherever the input fits. -/
theorem decode_encode {input code : List UInt8} {capacity' limit' : ℕ}
    (h : encode input capacity limit = some code) (hcap : input.length ≤ capacity')
    (hlim : input.length < limit') : decode code capacity' limit' = some input := by
  unfold encode at h
  split at h
  · exact absurd h (by simp)
  · next hentry =>
    simp only [not_or] at hentry
    obtain ⟨bits, hloop, h⟩ := Option.bind_eq_some_iff.mp h
    dsimp only at h
    split at h
    · exact absurd h (by simp)
    · next hlen =>
      simp only [not_or] at hlen
      obtain rfl := Option.some.inj h
      have hbits := encodeLoop_eq hloop
      rw [List.nil_append] at hbits
      have hcode : packBits (padBits bits) ≠ [] := by
        intro h0
        have := flatMap_packBits (length_padBits bits)
        rw [h0] at this
        rw [← this] at hlen
        exact hlen.1 rfl
      have hpos := List.length_pos_iff.mpr hentry.1
      rw [decode, if_neg (by simp only [not_or]; exact ⟨hcode, by omega, by omega⟩),
        flatMap_packBits (length_padBits bits), padBits, hbits,
        decodeLoop_nibbles input _ [] (by simpa using hcap) (by simpa using hlim),
        List.nil_append, Option.bind_some, if_neg]
      simp only [not_or, Nat.not_le]
      exact ⟨hentry.1, hlim⟩

end Atoman.Codec.Zero
