import Atoman.Codec.Entry.Output
import Atoman.Codec.Lzss
import Mathlib.Data.List.GetD
import Mathlib.Data.Nat.Init

/-!
# The LZSS entry points

`codec_lzss_encode` and `codec_lzss_decode` with the indices of the source. The
encoder keeps the pending literal run as a start and a length in the input, and its
search breaks off at a match of the greatest length.
-/

namespace Atoman.Codec.Entry
open Lzss (refLenMin refLenMax literalMax window matchLen bestMatch copyBack)
open Lib (Memory)

/-- Count the bytes from `index + matchLen` on that repeat those `offset` before. -/
def lzssMatch (input : List UInt8) (index offset len : ℕ) : ℕ :=
  if len < refLenMax ∧ index + len < input.length ∧
      input[index + len]? = input[index - offset + len]? then
    lzssMatch input index offset (len + 1)
  else len
termination_by refLenMax - len

/-- Search the offsets from `offset` to `max_offset` for a longer match than the best
one so far, and stop at one of the greatest length. -/
def lzssSearch (input : List UInt8) (index maxOffset offset bestLen bestOffset : ℕ) : ℕ × ℕ :=
  if offset ≤ maxOffset then
    let len := lzssMatch input index offset 0
    if bestLen < len then
      if len = refLenMax then (len, offset)
      else lzssSearch input index maxOffset (offset + 1) len offset
    else lzssSearch input index maxOffset (offset + 1) bestLen bestOffset
  else (bestLen, bestOffset)
termination_by maxOffset + 1 - offset

/-- The offsets to search at `index`: `max_offset`. -/
def lzssMaxOffset (index : ℕ) : ℕ := if index < window then index else window

/-! ## The search -/

/-- The common prefix goes on as long as the bytes agree. -/
theorem lt_commonPrefix {as bs : List UInt8} {k : ℕ} (hk : k ≤ Lzss.commonPrefix as bs)
    (hlen : k < as.length) (h : as[k]? = bs[k]?) : k < Lzss.commonPrefix as bs := by
  induction as, bs using Lzss.commonPrefix.induct generalizing k with
  | case1 as b bs ih =>
    simp only [Lzss.commonPrefix, if_true] at hk ⊢
    cases k with
    | zero => omega
    | succ k =>
      exact Nat.succ_lt_succ (ih (by omega) (Nat.lt_of_succ_lt_succ hlen) (by simpa using h))
  | case2 a as b bs hne =>
    simp only [Lzss.commonPrefix, if_neg hne] at hk ⊢
    obtain rfl := Nat.le_zero.mp hk
    exact absurd (Option.some.inj h) hne
  | case3 as bs hne =>
    simp only [Lzss.commonPrefix] at hk
    obtain rfl := Nat.le_zero.mp hk
    cases as with
    | nil => exact absurd hlen (by simp)
    | cons a as =>
      cases bs with
      | nil => exact absurd h (by simp)
      | cons b bs => exact absurd rfl (hne a as b bs rfl)

/-- Counting from inside the match counts all of it. -/
theorem lzssMatch_eq {input : List UInt8} {index offset len : ℕ}
    (hlen : len ≤ matchLen input index offset) :
    lzssMatch input index offset len = matchLen input index offset := by
  induction len using lzssMatch.induct input index offset with
  | case1 len h ih =>
    rw [lzssMatch, if_pos h]
    refine ih (Nat.lt_min.mpr ⟨h.1, lt_commonPrefix (Nat.le_min.mp hlen).2 ?_ ?_⟩)
    · rw [List.length_drop]; omega
    · rw [List.getElem?_drop, List.getElem?_drop]; exact h.2.2
  | case2 len h =>
    rw [lzssMatch, if_neg h]
    refine Nat.le_antisymm hlen (Nat.not_lt.mp fun hlt => h ⟨(Nat.lt_min.mp hlt).1, ?_, ?_⟩)
    · have := (Lzss.matchLen_le input index offset).2
      omega
    · have := Lzss.getElem?_commonPrefix (Nat.lt_min.mp hlt).2
      rwa [List.getElem?_drop, List.getElem?_drop] at this

/-- The better of two matches, the earlier one among equals. -/
def better (input : List UInt8) (index : ℕ) (best : ℕ × ℕ) (offset : ℕ) : ℕ × ℕ :=
  if best.1 < matchLen input index offset then (matchLen input index offset, offset) else best

/-- A match of the greatest length stays the best one. -/
theorem foldl_better_max {input : List UInt8} {index : ℕ} (offset : ℕ) (offsets : List ℕ) :
    offsets.foldl (better input index) (refLenMax, offset) = (refLenMax, offset) := by
  induction offsets with
  | nil => rfl
  | cons o offsets ih =>
    have := (Lzss.matchLen_le input index o).1
    rw [List.foldl_cons, better, if_neg (Nat.not_lt.mpr this), ih]

/-- The search of the source finds the best match. -/
theorem lzssSearch_eq (input : List UInt8) (index maxOffset : ℕ) {offset bestLen bestOffset : ℕ}
    (h : offset ≤ maxOffset + 1) :
    lzssSearch input index maxOffset offset bestLen bestOffset =
      (List.range' offset (maxOffset + 1 - offset)).foldl (better input index)
        (bestLen, bestOffset) := by
  have hmatch (offset : ℕ) := lzssMatch_eq (Nat.zero_le (matchLen input index offset))
  induction offset, bestLen, bestOffset using lzssSearch.induct input index maxOffset with
  | case1 offset bestLen bestOffset hle len hlt hmax =>
    rw [lzssSearch, if_pos hle, Nat.succ_sub hle, List.range'_succ, List.foldl_cons, better]
    simp only [len, hmatch] at hlt hmax
    simp only [hmatch, if_pos hlt]
    rw [if_pos hmax, hmax, foldl_better_max]
  | case2 offset bestLen bestOffset hle len hlt hmax ih =>
    rw [lzssSearch, if_pos hle, Nat.succ_sub hle, List.range'_succ, List.foldl_cons, better]
    simp only [len, hmatch] at hlt hmax ih
    simp only [hmatch, if_pos hlt, if_neg hmax]
    rw [ih (by omega), Nat.add_sub_add_right]
  | case3 offset bestLen bestOffset hle len hlt ih =>
    rw [lzssSearch, if_pos hle, Nat.succ_sub hle, List.range'_succ, List.foldl_cons, better]
    simp only [len, hmatch] at hlt
    simp only [hmatch, if_neg hlt]
    rw [ih (by omega), Nat.add_sub_add_right]
  | case4 offset bestLen bestOffset hgt =>
    rw [lzssSearch, if_neg hgt, Nat.sub_eq_zero_of_le (by omega)]
    rfl

/-- The offsets the source searches are those of the window. -/
theorem lzssSearch_bestMatch (input : List UInt8) (index : ℕ) :
    lzssSearch input index (lzssMaxOffset index) 1 0 0 = bestMatch input index := by
  have hmax : lzssMaxOffset index = min index window := by
    unfold lzssMaxOffset
    split <;> omega
  rw [hmax, lzssSearch_eq input index _ (Nat.le_add_left _ _), Nat.add_sub_cancel]
  rfl

/-! ## The entry points -/

/-- The loop of `codec_lzss_encode`. -/
def lzssEncodeLoop (capacity limit : ℕ) (input : List UInt8) (index literalStart literalLen : ℕ)
    (s : Output) : Except Output Output :=
  if h : index < input.length then
    let best := lzssSearch input index (lzssMaxOffset index) 1 0 0
    if hbest : refLenMin ≤ best.1 then
      (flushLiteral capacity limit input literalStart literalLen s).bind fun s =>
        (s.encoderRoom capacity limit 2).bind fun s =>
          let s := s.append [0x80 ||| UInt8.ofNat (best.1 - refLenMin)]
          let s := s.append [UInt8.ofNat (best.2 - 1)]
          lzssEncodeLoop capacity limit input (index + best.1) (index + best.1) 0 s
    else
      let literalLen := literalLen + 1
      if literalLen = literalMax then
        (storeLiteral capacity limit input literalStart literalLen s).bind
          (lzssEncodeLoop capacity limit input (index + 1) (index + 1) 0)
      else lzssEncodeLoop capacity limit input (index + 1) literalStart literalLen s
  else flushLiteral capacity limit input literalStart literalLen s
termination_by input.length - index
decreasing_by
  · have hpos : 0 < best.1 := Nat.lt_of_lt_of_le (Nat.succ_pos 2) hbest
    simp only [best] at hpos
    omega
  · omega
  · omega

/-- `codec_lzss_encode` -/
def codecLzssEncode : Option (List UInt8) → Option UInt16 → Option (Memory UInt8) → UInt16 →
    Outcome :=
  call (frame fun capacity limit input s => lzssEncodeLoop capacity limit input 0 0 0 s)

/-- Copy `n` bytes one at a time from `offset` positions before the end of the output. -/
def lzssCopy (offset : ℕ) : ℕ → Output → Output
  | 0, s => s
  | n + 1, s => lzssCopy offset n (s.append [s.bytes (s.outLen - offset)])

/-- The loop of `codec_lzss_decode`. -/
def lzssDecodeLoop (capacity limit : ℕ) (input : List UInt8) (index : ℕ) (s : Output) :
    Except Output Output :=
  if h : index < input.length then
    let token := input[index]
    let index := index + 1
    if token ≤ 0x7F then
      let literalLen := token.toNat + 1
      if input.length - index < literalLen then .error s.fail
      else
        (s.decoderRoom capacity limit literalLen).bind fun s =>
          let s := s.append ((input.drop index).take literalLen)
          lzssDecodeLoop capacity limit input (index + literalLen) s
    else
      let refLen := (token &&& 0x7F).toNat + refLenMin
      if hoffset : index < input.length then
        let offset := input[index].toNat + 1
        if s.outLen < offset then .error s.fail
        else
          (s.decoderRoom capacity limit refLen).bind fun s =>
            lzssDecodeLoop capacity limit input (index + 1) (lzssCopy offset refLen s)
      else .error s.fail
  else .ok s
termination_by input.length - index

/-- `codec_lzss_decode` -/
def codecLzssDecode : Option (List UInt8) → Option UInt16 → Option (Memory UInt8) → UInt16 →
    Outcome :=
  call (frame fun capacity limit input s => lzssDecodeLoop capacity limit input 0 s)

/-! ## Against the lists -/

variable {capacity limit : ℕ} {input out pending : List UInt8} {index start len : ℕ} {s : Output}

/-- The encoder's loop is the list's, with the literal run collected so far pending. -/
theorem tracks_lzssEncodeLoop (h : s.Holds capacity out)
    (hc : Collected input start len index pending) :
    Tracks capacity (lzssEncodeLoop capacity limit input index start len s)
      (Lzss.encodeLoop capacity limit input index pending out) := by
  induction hm : input.length - index using Nat.strong_induction_on
    generalizing index start len pending s out with
  | _ m ih =>
    rw [lzssEncodeLoop, Lzss.encodeLoop, lzssSearch_bestMatch]
    dsimp only
    by_cases hlt : index < input.length
    · rw [dif_pos hlt, dif_pos hlt]
      by_cases hbest : refLenMin ≤ (bestMatch input index).1
      · rw [dif_pos hbest, dif_pos hbest]
        have hpos : 0 < (bestMatch input index).1 := Nat.lt_of_lt_of_le (Nat.succ_pos 2) hbest
        have hroom : (bestMatch input index).1 ≤ input.length - index := by
          have hmatch := ((Lzss.bestMatch_spec input index).resolve_left (by omega)).2
          rw [hmatch]
          exact (Lzss.matchLen_le input index _).2
        simp only [Output.append_append, List.singleton_append]
        refine tracks_flushLiteral h hc fun s₁ out₁ h₁ => ?_
        refine (guards_encoderRoom capacity limit 2 s₁).tracks h₁ rfl fun s₂ h₂ => ?_
        exact ih _ (by omega) h₂ (.start (by omega)) rfl
      · rw [dif_neg hbest, dif_neg hbest]
        have hpush := hc.push hlt
        rw [hpush.length]
        by_cases hfull : len + 1 = literalMax
        · rw [if_pos hfull, if_pos hfull]
          refine tracks_storeLiteral h hpush fun s₁ h₁ => ?_
          exact ih _ (by omega) h₁ (.start hlt) rfl
        · rw [if_neg hfull, if_neg hfull]
          exact ih _ (by omega) h hpush rfl
    · rw [dif_neg hlt, dif_neg hlt]
      exact tracks_flushLiteral_end h hc

/-- Copying in the buffer copies on the list. -/
theorem holds_lzssCopy {offset : ℕ} (hpos : 0 < offset) (n : ℕ) (h : s.Holds capacity out)
    (hoff : offset ≤ out.length) (hfit : out.length + n ≤ capacity) :
    (lzssCopy offset n s).Holds capacity (copyBack offset n out) := by
  induction n generalizing s out with
  | zero => exact h
  | succ n ih =>
    have hlt : out.length - offset < out.length := by omega
    have hbyte : s.bytes (s.outLen - offset) = out.getD (out.length - offset) 0 := by
      have hlen : out.length - offset < (s.bytes.slice 0 out.length).length := by
        rw [Memory.length_slice]; exact hlt
      have hget := Memory.getElem_slice s.bytes 0 out.length (out.length - offset) hlen
      simp only [h.bytes, Nat.zero_add] at hget
      rw [h.length, ← hget, List.getD_eq_getElem _ _ hlt]
    rw [lzssCopy, copyBack, hbyte]
    have hpiece : out.length + [out.getD (out.length - offset) 0].length ≤ capacity := by
      rw [List.length_singleton]; omega
    refine ih (h.append hpiece) ?_ ?_
    · rw [List.length_append]; omega
    · rw [List.length_append, List.length_singleton]; omega

/-- The decoder's loop from `index` on is the list's on the rest of the input. -/
theorem tracks_lzssDecodeLoop (h : s.Holds capacity out) (hin : index ≤ input.length) :
    Tracks capacity (lzssDecodeLoop capacity limit input index s)
      (Lzss.decodeLoop capacity limit (input.drop index) out) := by
  induction hm : input.length - index using Nat.strong_induction_on generalizing index s out with
  | _ m ih =>
    rw [lzssDecodeLoop]
    by_cases hlt : index < input.length
    · have hdrop := List.drop_eq_getElem_cons hlt
      rw [dif_pos hlt, hdrop, Lzss.decodeLoop.eq_def]
      dsimp only
      by_cases htoken : input[index] ≤ 0x7F
      · rw [if_pos htoken, if_pos htoken, List.drop_drop]
        refine tracks_takeLiteral h fun hroom s' hs' => ?_
        exact ih _ (by omega) hs' (by omega) rfl
      · rw [if_neg htoken, if_neg htoken]
        by_cases hback : index + 1 < input.length
        · rw [dif_pos hback, List.drop_eq_getElem_cons hback]
          dsimp only
          rw [h.length]
          by_cases hfar : out.length < input[index + 1].toNat + 1
          · rw [if_pos hfar, if_pos hfar]
            exact h.toClean.fail
          · rw [if_neg hfar, if_neg hfar]
            obtain ⟨hok, herr⟩ := guards_decoderRoom capacity limit
              ((input[index] &&& 0x7F).toNat + refLenMin) s
            rw [h.length] at hok herr
            by_cases hfit : Fits capacity limit
                (out.length + ((input[index] &&& 0x7F).toNat + refLenMin))
            · rw [hok hfit, if_pos hfit]
              have hcopy := holds_lzssCopy (Nat.succ_pos _) _ h (Nat.not_lt.mp hfar) hfit.1
              exact ih _ (by omega) hcopy (by omega) rfl
            · obtain ⟨s', hs', hclean⟩ := herr hfit
              rw [hs', if_neg hfit]
              exact hclean h.toClean
        · rw [dif_neg hback, List.drop_eq_nil_of_le (by omega)]
          exact h.toClean.fail
    · rw [dif_neg hlt, List.drop_eq_nil_of_le (by omega), Lzss.decodeLoop]
      exact h

theorem lzssEncode_loopTracks :
    LoopTracks (fun capacity limit input s => lzssEncodeLoop capacity limit input 0 0 0 s)
      fun capacity limit input => Lzss.encodeLoop capacity limit input 0 [] [] :=
  fun _ _ _ _ h => tracks_lzssEncodeLoop h (.start (Nat.zero_le _))

theorem lzssDecode_loopTracks :
    LoopTracks (fun capacity limit input s => lzssDecodeLoop capacity limit input 0 s)
      fun capacity limit input => Lzss.decodeLoop capacity limit input [] :=
  fun _ _ _ _ h => tracks_lzssDecodeLoop h (Nat.zero_le _)

/-- **LZSS coding loses nothing.** Whatever `codec_lzss_encode` succeeds in encoding,
`codec_lzss_decode` takes back from the bytes produced, into every buffer that holds
the input and under every limit above its length. -/
theorem lzss_round_trip (input : List UInt8) (buffer buffer' : Memory UInt8)
    (capacity limit capacity' limit' : UInt16)
    (hencode : (codecLzssEncode (some input) (some capacity) (some buffer) limit).ret = 1)
    (hcap : input.length ≤ capacity'.toNat) (hlim : input.length < limit'.toNat) :
    (codecLzssDecode
      (some (codecLzssEncode (some input) (some capacity) (some buffer) limit).produced)
      (some capacity') (some buffer') limit').Returns input :=
  lzssEncode_loopTracks.bodyEnds.implements.round_trip lzssDecode_loopTracks.bodyEnds.implements
    Lzss.decode_encode hencode buffer' hcap hlim

/-- A byte and a reference that overlaps what it produces. -/
theorem lzss_round_trip_overlap :
    (codecLzssDecode
      (some (codecLzssEncode (some [7, 7, 7, 7, 7, 7]) (some 8) (some fun _ => 0) 6).produced)
      (some 6) (some fun _ => 0) 7).Returns [7, 7, 7, 7, 7, 7] := by
  have h0 : bestMatch [7, 7, 7, 7, 7, 7] 0 = (0, 0) := by decide
  have h1 : bestMatch [7, 7, 7, 7, 7, 7] 1 = (5, 1) := by decide
  exact lzss_round_trip _ _ _ 8 6 6 7
    (lzssEncode_loopTracks.bodyEnds.implements.returns _ _ 8 6 [0, 7, 0x80 ||| 2, 0]
      (by simp [boundedCodec, bounded, Lzss.encodeLoop, h0, h1, refLenMin, literalMax, flush,
        literalToken, emit, Fits])).1
    (by decide) (by decide)

end Atoman.Codec.Entry
