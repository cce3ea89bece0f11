import Atoman.Codec.Entry.Language

/-!
# What the zero-count decoder accepts

A byte is two nibbles, a nibble up to three ones, one to four zeros and a closing one,
and the padding is ones. The decoder counts the ones and the zeros in single bytes, so
it reads runs by their length modulo 256: beyond its language it accepts the bit
strings in which a run is too long by a multiple of 256.
-/

namespace Atoman.Codec.Entry
open Codec.Zero (byteBits segmentMax)
open Lib (Memory TokenGrammar)

/-- The lengths of the two runs of a codeword. -/
structure Codeword where
  ones : ℕ
  zeros : ℕ

namespace Codeword

/-- The bits: ones, zeros and a closing one. -/
def bits (c : Codeword) : List Bool :=
  List.replicate c.ones true ++ List.replicate c.zeros false ++ [true]

/-- The runs of a nibble: `k` ones and `m + 1` zeros, `k` and `m` at most 3. -/
abbrev InRange (c : Codeword) : Prop := c.ones ≤ 3 ∧ 1 ≤ c.zeros ∧ c.zeros ≤ 4

/-- The nibble `4 * k + m`. -/
def nibble (c : Codeword) : ℕ := 4 * c.ones + (c.zeros - 1)

/-- The codeword as counters see it. -/
def seen (count : ℕ → ℕ) (c : Codeword) : Codeword := ⟨count c.ones, count c.zeros⟩

/-- The runs are found again in front of whatever follows. -/
theorem runs (c : Codeword) (h : 0 < c.zeros) (rest : List Bool) :
    (((c.bits ++ rest).takeWhile id).length = c.ones ∧
        ∃ more, (c.bits ++ rest).dropWhile id = false :: more) ∧
      (((c.bits ++ rest).dropWhile id).takeWhile not).length = c.zeros ∧
        ((c.bits ++ rest).dropWhile id).dropWhile not = true :: rest := by
  obtain ⟨m, hm⟩ : ∃ m, c.zeros = m + 1 := Nat.exists_eq_succ_of_ne_zero (Nat.ne_of_gt h)
  have hones : ∀ b ∈ List.replicate c.ones true, id b = true := fun b hb =>
    List.eq_of_mem_replicate hb
  have hzeros : ∀ b ∈ List.replicate c.zeros false, (!b) = true := fun b hb => by
    rw [List.eq_of_mem_replicate hb]
    rfl
  have hbits : c.bits ++ rest = List.replicate c.ones true ++
      (List.replicate c.zeros false ++ true :: rest) := by
    simp [bits]
  have hhead : List.replicate c.zeros false ++ true :: rest =
      false :: (List.replicate m false ++ true :: rest) := by
    rw [hm, List.replicate_succ, List.cons_append]
  have hdrop : (c.bits ++ rest).dropWhile id = List.replicate c.zeros false ++ true :: rest := by
    rw [hbits, List.dropWhile_append_of_pos hones, hhead]
    simp
  refine ⟨⟨?_, _, hdrop.trans hhead⟩, ?_, ?_⟩
  · rw [hbits, List.takeWhile_append_of_pos hones, hhead]
    simp
  · rw [hdrop, List.takeWhile_append_of_pos hzeros]
    simp
  · rw [hdrop, List.dropWhile_append_of_pos hzeros]
    simp

/-- A codeword and what follows it are found in only one way. -/
theorem bits_append_inj {c c' : Codeword} {rest rest' : List Bool} (h : 0 < c.zeros)
    (h' : 0 < c'.zeros) (heq : c.bits ++ rest = c'.bits ++ rest') : c = c' ∧ rest = rest' := by
  obtain ⟨⟨hones, -⟩, hzeros, hrest⟩ := c.runs h rest
  obtain ⟨⟨hones', -⟩, hzeros', hrest'⟩ := c'.runs h' rest'
  rw [heq] at hones hzeros hrest
  refine ⟨?_, List.cons.inj (hrest.symm.trans hrest') |>.2⟩
  cases c
  cases c'
  simp only [mk.injEq]
  exact ⟨hones.symm.trans hones', hzeros.symm.trans hzeros'⟩

end Codeword

/-- The byte of two codewords, the high nibble first. -/
def zeroByte (count : ℕ → ℕ) (t : Codeword × Codeword) : UInt8 :=
  UInt8.ofNat (16 * (t.1.seen count).nibble + (t.2.seen count).nibble)

/-- Two codewords make a byte, and ones fill the last byte up. The runs are as long as
`count` says. -/
def zeroGrammar (count : ℕ → ℕ) : TokenGrammar (Codeword × Codeword) Bool UInt8 where
  wire := fun t => t.1.bits ++ t.2.bits
  Valid := fun _ t => (t.1.seen count).InRange ∧ (t.2.seen count).InRange
  expand := fun _ t => [zeroByte count t]
  Padding := fun pad => ∀ b ∈ pad, b = true

/-- A counter of one byte. -/
def byteCount (n : ℕ) : ℕ := n % 256

/-! ## One codeword -/

section Codeword
variable {capacity limit : ℕ} {out : List UInt8} {pending : Option ℕ}

/-- What the loop does behind a codeword. -/
def afterCodeword (capacity limit nibble : ℕ) (rest : List Bool) (pending : Option ℕ)
    (out : List UInt8) : Option (List UInt8) :=
  match pending with
  | none => Codec.Zero.decodeLoop capacity limit rest (some nibble) out
  | some high =>
    if capacity ≤ out.length ∨ limit ≤ out.length + 1 then none
    else
      Codec.Zero.decodeLoop capacity limit rest none (out ++ [UInt8.ofNat (16 * high + nibble)])

/-- A codeword whose runs are counted in range makes its nibble. -/
theorem decodeLoop_codeword {c : Codeword} (h : (c.seen byteCount).InRange) (rest : List Bool) :
    Codec.Zero.decodeLoop capacity limit (c.bits ++ rest) pending out =
      afterCodeword capacity limit (c.seen byteCount).nibble rest pending out := by
  obtain ⟨hones, hzeros, hzeros'⟩ := h
  simp only [Codeword.seen, byteCount] at hones hzeros hzeros'
  obtain ⟨⟨htake, more, hdrop⟩, htake', hdrop'⟩ :=
    c.runs (Nat.lt_of_lt_of_le hzeros (Nat.mod_le _ _)) rest
  rw [hdrop] at htake' hdrop'
  rw [decodeLoop_zeros hdrop hdrop', htake, htake', if_neg (by simp only [segmentMax]; omega)]
  dsimp only
  rw [if_neg (by simp only [segmentMax]; omega)]
  rfl

/-- Bits are padding, or begin with a codeword whose runs are counted in range, or are
refused. -/
theorem decodeLoop_cases (bits : List Bool) :
    (∀ b ∈ bits, b = true) ∨
      (∃ c rest, (Codeword.seen byteCount c).InRange ∧ bits = c.bits ++ rest) ∨
      ∀ pending out, Codec.Zero.decodeLoop capacity limit bits pending out = none := by
  rcases hdrop : bits.dropWhile id with _ | ⟨zero, more⟩
  · exact .inl (List.dropWhile_eq_nil_iff.mp hdrop)
  rcases hdrop' : (zero :: more).dropWhile not with _ | ⟨one, rest⟩
  · exact .inr (.inr fun _ _ => decodeLoop_truncated hdrop hdrop')
  by_cases hrange : (Codeword.seen byteCount
      ⟨(bits.takeWhile id).length, ((zero :: more).takeWhile not).length⟩).InRange
  · refine .inr (.inl ⟨_, rest, hrange, ?_⟩)
    have hones : bits.takeWhile id = List.replicate (bits.takeWhile id).length true :=
      List.eq_replicate_iff.mpr ⟨rfl, fun b hb => List.mem_takeWhile_imp hb⟩
    have hzeros : (zero :: more).takeWhile not =
        List.replicate ((zero :: more).takeWhile not).length false :=
      List.eq_replicate_iff.mpr ⟨rfl, fun b hb => by simpa using List.mem_takeWhile_imp hb⟩
    have hone : one = true := by
      have hhead := List.head?_dropWhile_not (p := not) (zero :: more)
      rw [hdrop'] at hhead
      simpa using hhead
    calc bits = bits.takeWhile id ++ ((zero :: more).takeWhile not ++ one :: rest) := by
          rw [← hdrop', List.takeWhile_append_dropWhile, ← hdrop, List.takeWhile_append_dropWhile]
      _ = _ := by
          rw [Codeword.bits, ← hones, ← hzeros, hone]
          simp
  · refine .inr (.inr fun pending out => ?_)
    simp only [Codeword.InRange, Codeword.seen, byteCount, not_and_or, Nat.not_le] at hrange
    rw [decodeLoop_zeros hdrop hdrop']
    simp only [segmentMax]
    split
    · rfl
    · next hones =>
      rw [if_pos (by omega)]

end Codeword

/-! ## The decoder's loop -/

section Loop
variable {capacity limit : ℕ} {input : List UInt8}

theorem bits_ne_nil (c : Codeword) : c.bits ≠ [] := by
  simp [Codeword.bits]

/-- The loop reads what its counters take for a string of the language. -/
theorem zeroReader : (zeroGrammar byteCount).Reader (Fits capacity limit) fun bits out =>
    Codec.Zero.decodeLoop capacity limit bits none out where
  padding := by
    intro done pad hpad
    rw [decodeLoop_ones (List.dropWhile_eq_nil_iff.mpr hpad), if_pos rfl]
  token := by
    rintro done ⟨high, low⟩ rest ⟨hhigh, hlow⟩
    simp only [zeroGrammar, List.append_assoc]
    rw [decodeLoop_codeword hhigh]
    simp only [afterCodeword]
    rw [decodeLoop_codeword hlow]
    simp only [afterCodeword, List.length_append, List.length_singleton]
    by_cases hfit : Fits capacity limit (done.length + 1)
    · rw [if_pos hfit, if_neg (by omega)]
      rfl
    · rw [if_neg hfit, if_pos (by omega)]
  stuck := by
    intro done input hpad hbegins
    rcases decodeLoop_cases input with hones | ⟨high, rest, hhigh, rfl⟩ | hnone
    · exact absurd hones hpad
    · rw [decodeLoop_codeword hhigh]
      rcases decodeLoop_cases rest with hones | ⟨low, rest', hlow, rfl⟩ | hnone
      · exact decodeLoop_ones (List.dropWhile_eq_nil_iff.mpr hones)
      · exact absurd (List.append_assoc _ _ _).symm (hbegins (high, low) rest' ⟨hhigh, hlow⟩)
      · exact hnone _ _
    · exact hnone _ _
  wire_ne_nil := by
    intro _ t _ hnil
    exact bits_ne_nil t.1 (List.append_eq_nil_iff.mp hnil).1
  expand_ne_nil := fun _ _ _ => List.cons_ne_nil _ _
  mono := fun _ _ hle hfit => hfit.mono hle

theorem byteBits_flatMap_ne_nil (h : input.flatMap byteBits ≠ []) : input ≠ [] := by
  rintro rfl
  exact h rfl

theorem zeroDecode_iff {data : List UInt8} :
    Codec.Zero.decode input capacity limit = some data ↔
      (zeroGrammar byteCount).Denotes (input.flatMap byteBits) data ∧
        Fits capacity limit data.length :=
  bounded_reader zeroReader byteBits_flatMap_ne_nil

end Loop

/-! ## Long runs -/

section Long
variable {count : ℕ → ℕ} {ts ts' : List (Codeword × Codeword)} {pad pad' : List Bool}

theorem zeroGrammar_wellFormed (done : List UInt8) : (zeroGrammar count).WellFormed done ts ↔
    ∀ t ∈ ts, (t.1.seen count).InRange ∧ (t.2.seen count).InRange := by
  induction ts generalizing done with
  | nil => simp [TokenGrammar.WellFormed]
  | cons t ts ih =>
    rw [TokenGrammar.WellFormed, ih, List.forall_mem_cons]
    rfl

theorem zeroGrammar_denote (done : List UInt8) :
    (zeroGrammar count).denote done ts = done ++ ts.map (zeroByte count) := by
  induction ts generalizing done with
  | nil => simp [TokenGrammar.denote]
  | cons t ts ih =>
    rw [TokenGrammar.denote, ih]
    simp [zeroGrammar]

/-- A bit string is codewords and padding in at most one way. -/
theorem codewords_unique (hzeros : ∀ t ∈ ts, 0 < t.1.zeros ∧ 0 < t.2.zeros)
    (hzeros' : ∀ t ∈ ts', 0 < t.1.zeros ∧ 0 < t.2.zeros) (hpad : ∀ b ∈ pad, b = true)
    (hpad' : ∀ b ∈ pad', b = true)
    (heq : ts.flatMap (fun t => t.1.bits ++ t.2.bits) ++ pad =
      ts'.flatMap (fun t => t.1.bits ++ t.2.bits) ++ pad') : ts = ts' := by
  have hfalse {c : Codeword} (hc : 0 < c.zeros) (rest : List Bool) :
      ¬ ∀ b ∈ c.bits ++ rest, b = true := by
    intro hall
    have hmem : false ∈ c.bits ++ rest := by
      simp [Codeword.bits, List.mem_replicate, Nat.ne_of_gt hc]
    exact Bool.false_ne_true (hall false hmem)
  induction ts generalizing ts' with
  | nil =>
    cases ts' with
    | nil => rfl
    | cons t' ts' =>
      rw [List.flatMap_nil, List.nil_append, List.flatMap_cons, List.append_assoc,
        List.append_assoc] at heq
      exact absurd (heq ▸ hpad) (hfalse (hzeros' t' List.mem_cons_self).1 _)
  | cons t ts ih =>
    cases ts' with
    | nil =>
      rw [List.flatMap_nil, List.nil_append, List.flatMap_cons, List.append_assoc,
        List.append_assoc] at heq
      exact absurd (heq ▸ hpad') (hfalse (hzeros t List.mem_cons_self).1 _)
    | cons t' ts' =>
      obtain ⟨hhead, htail⟩ := List.forall_mem_cons.mp hzeros
      obtain ⟨hhead', htail'⟩ := List.forall_mem_cons.mp hzeros'
      simp only [List.flatMap_cons, List.append_assoc] at heq
      obtain ⟨hhigh, heq⟩ := Codeword.bits_append_inj hhead.1 hhead'.1 heq
      obtain ⟨hlow, heq⟩ := Codeword.bits_append_inj hhead.2 hhead'.2 heq
      rw [ih htail htail' heq, Prod.ext hhigh hlow]

/-- A run that a counter of one byte cannot hold. -/
abbrev Codeword.Long (c : Codeword) : Prop := 256 ≤ c.ones ∨ 256 ≤ c.zeros

/-- The input is an even number of codewords and padding when its runs are counted
modulo 256, and one of the runs is 256 bits long or longer. -/
def Miscounted (input : List UInt8) (capacity limit : ℕ) : Prop :=
  ∃ (ts : List (Codeword × Codeword)) (pad : List Bool), ts ≠ [] ∧
    (∀ t ∈ ts, (t.1.seen byteCount).InRange ∧ (t.2.seen byteCount).InRange) ∧
    (∀ b ∈ pad, b = true) ∧
    input.flatMap byteBits = ts.flatMap (fun t => t.1.bits ++ t.2.bits) ++ pad ∧
    Fits capacity limit ts.length ∧ ∃ t ∈ ts, t.1.Long ∨ t.2.Long

/-- Runs in range are counted as they are. -/
theorem seen_of_inRange {c : Codeword} (h : (c.seen id).InRange) :
    c.seen byteCount = c.seen id ∧ ¬ c.Long := by
  obtain ⟨hones, hzeros, hzeros'⟩ := h
  simp only [Codeword.seen, id_eq] at hones hzeros hzeros'
  simp only [Codeword.seen, byteCount, id_eq, Codeword.mk.injEq, Codeword.Long]
  omega

theorem seen_of_not_long {c : Codeword} (h : ¬ c.Long) : c.seen byteCount = c.seen id := by
  simp only [Codeword.Long, not_or, Nat.not_le] at h
  simp only [Codeword.seen, byteCount, id_eq, Nat.mod_eq_of_lt h.1, Nat.mod_eq_of_lt h.2]

theorem zeros_pos {c : Codeword} (h : (c.seen byteCount).InRange) : 0 < c.zeros :=
  Nat.lt_of_lt_of_le h.2.1 (Nat.mod_le _ _)

/-- A string of the language is read as what it denotes. -/
theorem denotes_counted {symbols : List Bool} {data : List UInt8}
    (h : (zeroGrammar id).Denotes symbols data) : (zeroGrammar byteCount).Denotes symbols data := by
  obtain ⟨ts, pad, hne, hts, hpad, hsymbols, hdata⟩ := h
  rw [zeroGrammar_denote] at hdata
  rw [zeroGrammar_wellFormed] at hts
  have hseen (t : Codeword × Codeword) (ht : t ∈ ts) :
      t.1.seen byteCount = t.1.seen id ∧ t.2.seen byteCount = t.2.seen id :=
    ⟨(seen_of_inRange (hts t ht).1).1, (seen_of_inRange (hts t ht).2).1⟩
  refine ⟨ts, pad, hne, (zeroGrammar_wellFormed _).mpr fun t ht => ?_, hpad, hsymbols, ?_⟩
  · rw [(hseen t ht).1, (hseen t ht).2]
    exact hts t ht
  · rw [zeroGrammar_denote, hdata]
    congr 1
    refine List.map_congr_left fun t ht => ?_
    rw [zeroByte, zeroByte, (hseen t ht).1, (hseen t ht).2]

/-- Without long runs, only strings of the language are read. -/
theorem denotes_of_not_miscounted {input : List UInt8} {capacity limit : ℕ} {data : List UInt8}
    (hlong : ¬ Miscounted input capacity limit) (hfit : Fits capacity limit data.length)
    (h : (zeroGrammar byteCount).Denotes (input.flatMap byteBits) data) :
    (zeroGrammar id).Denotes (input.flatMap byteBits) data := by
  obtain ⟨ts, pad, hne, hts, hpad, hsymbols, hdata⟩ := h
  rw [zeroGrammar_denote, List.nil_append] at hdata
  rw [zeroGrammar_wellFormed] at hts
  have hlen : data.length = ts.length := by rw [hdata, List.length_map]
  have hshort (t : Codeword × Codeword) (ht : t ∈ ts) : ¬ t.1.Long ∧ ¬ t.2.Long := by
    rw [← not_or]
    exact fun hl => hlong ⟨ts, pad, hne, hts, hpad, hsymbols, hlen ▸ hfit, t, ht, hl⟩
  have hseen (t : Codeword × Codeword) (ht : t ∈ ts) :
      t.1.seen byteCount = t.1.seen id ∧ t.2.seen byteCount = t.2.seen id :=
    ⟨seen_of_not_long (hshort t ht).1, seen_of_not_long (hshort t ht).2⟩
  refine ⟨ts, pad, hne, (zeroGrammar_wellFormed _).mpr fun t ht => ?_, hpad, hsymbols, ?_⟩
  · rw [← (hseen t ht).1, ← (hseen t ht).2]
    exact hts t ht
  · rw [zeroGrammar_denote, List.nil_append, hdata]
    refine List.map_congr_left fun t ht => ?_
    rw [zeroByte, zeroByte, (hseen t ht).1, (hseen t ht).2]

/-- A long run is read although the string is not in the language. -/
theorem Miscounted.denotes {input : List UInt8} {capacity limit : ℕ}
    (h : Miscounted input capacity limit) :
    ∃ data, (zeroGrammar byteCount).Denotes (input.flatMap byteBits) data ∧
      Fits capacity limit data.length ∧
      ∀ data', ¬ (zeroGrammar id).Denotes (input.flatMap byteBits) data' := by
  obtain ⟨ts, pad, hne, hts, hpad, hsymbols, hfit, t, ht, hlong⟩ := h
  have hdenote : (zeroGrammar byteCount).denote [] ts = ts.map (zeroByte byteCount) :=
    zeroGrammar_denote []
  refine ⟨ts.map (zeroByte byteCount),
    ⟨ts, pad, hne, (zeroGrammar_wellFormed _).mpr hts, hpad, hsymbols, hdenote.symm⟩,
    by rwa [List.length_map], ?_⟩
  rintro data' ⟨ts', pad', -, hts', hpad', hsymbols', -⟩
  rw [zeroGrammar_wellFormed] at hts'
  have hsame : ts = ts' :=
    codewords_unique (fun u hu => ⟨zeros_pos (hts u hu).1, zeros_pos (hts u hu).2⟩)
      (fun u hu => ⟨(hts' u hu).1.2.1, (hts' u hu).2.2.1⟩) hpad hpad'
      (hsymbols.symm.trans hsymbols')
  obtain ⟨hhigh, hlow⟩ := hts' t (hsame ▸ ht)
  exact hlong.elim (seen_of_inRange hhigh).2 (seen_of_inRange hlow).2

end Long

/-! ## The whole decoder -/

section Decoder
variable (input : List UInt8) (buffer : Memory UInt8) (capacity limit : UInt16)

/-- What a call returns, by the grammar of its counters. -/
theorem zeroDecode_returns_iff (data : List UInt8) :
    (codecZeroDecode (some input) (some capacity) (some buffer) limit).Returns data ↔
      (zeroGrammar byteCount).Denotes (input.flatMap byteBits) data ∧
        Fits capacity.toNat limit.toNat data.length :=
  zeroDecode_loopTracks.bodyEnds.implements.returns_iff.trans zeroDecode_iff

/-- **The zero-count decoder accepts exactly its language, long runs apart.** On a byte
string the decoder returns what the string denotes, if it denotes something that fits,
and fails otherwise: except when some run is 256 bits long or longer and the string
would be in the language with its runs counted modulo 256. -/
theorem zero_decode_accepts_iff :
    (codecZeroDecode (some input) (some capacity) (some buffer) limit).Decides (fun data =>
        (zeroGrammar id).Denotes (input.flatMap byteBits) data ∧
          Fits capacity.toNat limit.toNat data.length) ↔
      ¬ Miscounted input capacity.toNat limit.toNat := by
  constructor
  · rintro ⟨hreturns, -⟩ hlong
    obtain ⟨data, hdata, hfit, hnot⟩ := hlong.denotes
    have hreturned := (zeroDecode_returns_iff input buffer capacity limit data).mpr ⟨hdata, hfit⟩
    exact hnot data ((hreturns data).mp hreturned).1
  · intro hshort
    refine zeroDecode_loopTracks.bodyEnds.implements.decides fun data => zeroDecode_iff.trans ?_
    constructor
    · rintro ⟨hdata, hfit⟩
      exact ⟨denotes_of_not_miscounted hshort hfit hdata, hfit⟩
    · rintro ⟨hdata, hfit⟩
      exact ⟨denotes_counted hdata, hfit⟩

end Decoder

/-- 256 ones are counted as none: 32 bytes of ones and the codewords of a zero byte. -/
theorem zero_decode_accepts_overlong :
    ¬ ∀ (input : List UInt8) (buffer : Memory UInt8) (capacity limit : UInt16),
      (codecZeroDecode (some input) (some capacity) (some buffer) limit).Decides fun data =>
        (zeroGrammar id).Denotes (input.flatMap byteBits) data ∧
          Fits capacity.toNat limit.toNat data.length := by
  intro hall
  have hlong : Miscounted (List.replicate 32 0xFF ++ [0x5F]) 1 2 :=
    ⟨[(⟨256, 1⟩, ⟨0, 1⟩)], List.replicate 4 true, List.cons_ne_nil _ _, by decide, by decide,
      by decide +kernel, by decide, _, List.mem_singleton_self _, by decide⟩
  obtain ⟨data, hdata, hfit, hnot⟩ := hlong.denotes
  have hreturned := (zeroDecode_returns_iff _ (fun _ => 0) 1 2 data).mpr ⟨hdata, hfit⟩
  exact hnot data (((hall _ (fun _ => 0) 1 2).1 data).mp hreturned).1

end Atoman.Codec.Entry
