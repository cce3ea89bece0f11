import Atoman.Codec.Dict
import Atoman.Codec.Lzss
import Atoman.Codec.Rle
import Atoman.Codec.Zero

/-!
# Encodings without a limit

`stream` is what an encoder writes when none of its tests stops it: its loop with the
tests left out. The tests only cut off: an encoder with a capacity and a limit
produces its stream when the whole of it fits, and nothing otherwise.

## Main definitions

* `Appends` — a guarded writer adds a fixed piece, or gives up when it does not fit.
* `Rle.stream`, `Dict.stream`, `Lzss.stream`, `Zero.stream` — the encodings.
* `Rle.encode_iff`, `Dict.encode_iff`, `Lzss.encode_iff`, `Zero.encode_iff` — the
  encoders cut off.
-/

namespace Atoman.Codec

variable {capacity limit : ℕ} {input out code code' pending r : List UInt8}

/-- A guarded writer behind `out` adds `code`, or gives up because the whole of it does
not fit. -/
def Appends (capacity limit : ℕ) (out code : List UInt8) (c : Option (List UInt8)) : Prop :=
  c = if code = [] ∨ Fits capacity limit (out ++ code).length then some (out ++ code) else none

theorem Appends.nil (capacity limit : ℕ) (out : List UInt8) :
    Appends capacity limit out [] (some out) := by
  simp [Appends]

theorem appends_emit {piece : List UInt8} (h : piece ≠ []) :
    Appends capacity limit out piece (emit capacity limit out piece) := by
  simp [Appends, emit, h]

/-- A writer that goes on where another one stops. -/
theorem Appends.bind {c : Option (List UInt8)} {f : List UInt8 → Option (List UInt8)}
    (h : Appends capacity limit out code c)
    (hf : Appends capacity limit (out ++ code) code' (f (out ++ code))) :
    Appends capacity limit out (code ++ code') (c.bind f) := by
  have hmono (hfit : Fits capacity limit (out ++ (code ++ code')).length) :
      Fits capacity limit (out ++ code).length := by
    refine hfit.mono ?_
    simp
  simp only [Appends] at h hf ⊢
  by_cases hcode : code = [] ∨ Fits capacity limit (out ++ code).length
  · rw [h, if_pos hcode, Option.bind_some, hf, List.append_assoc]
    refine if_congr ?_ rfl rfl
    simp only [List.append_eq_nil_iff]
    constructor
    · rintro (rfl | hfit)
      · rw [List.append_nil]
        exact hcode.imp_left fun hc => ⟨hc, rfl⟩
      · exact .inr hfit
    · rintro (⟨-, hnil⟩ | hfit)
      · exact .inl hnil
      · exact .inr hfit
  · rw [h, if_neg hcode, Option.bind_none, if_neg]
    rintro (hnil | hfit)
    · exact hcode (.inl (List.append_eq_nil_iff.mp hnil).1)
    · exact hcode (.inr (hmono hfit))

/-- What a writer yields that had nothing before it. -/
theorem Appends.eq_some_iff {c : Option (List UInt8)} (h : Appends capacity limit [] code c)
    (hne : code ≠ []) : c = some r ↔ r = code ∧ Fits capacity limit r.length := by
  simp only [Appends, List.nil_append, hne, false_or] at h
  rw [h]
  split
  · next hfit =>
    simp only [Option.some.injEq]
    constructor
    · rintro rfl
      exact ⟨rfl, hfit⟩
    · exact fun hr => hr.1.symm
  · next hfit =>
    simp only [reduceCtorEq, false_iff]
    rintro ⟨rfl, hfit'⟩
    exact hfit hfit'

/-- The checks around a guarded writer add that there is an input. -/
theorem Appends.bounded_iff {c : Option (List UInt8)} (h : Appends capacity limit [] code c)
    (hne : input ≠ [] → code ≠ []) :
    bounded capacity limit input c = some r ↔
      input ≠ [] ∧ r = code ∧ Fits capacity limit r.length := by
  rw [bounded_eq_some]
  by_cases hinput : input = []
  · simp [hinput]
  · rw [h.eq_some_iff (hne hinput)]
    constructor
    · rintro ⟨-, hr, -, -⟩
      exact ⟨hinput, hr⟩
    · rintro ⟨-, rfl, hfit⟩
      have hpos := List.length_pos_iff.mpr (hne hinput)
      have hcap := hfit.1
      have hlim := hfit.2
      exact ⟨⟨hinput, by omega, by omega⟩, ⟨rfl, hfit⟩, hne hinput, hlim⟩

/-- A pending literal run without a limit. -/
def literals (pending : List UInt8) : List UInt8 :=
  if pending = [] then [] else literalToken pending

theorem appends_flush : Appends capacity limit out (literals pending)
    (flush capacity limit out pending) := by
  by_cases hpending : pending = []
  · simp only [flush, literals, hpending, if_true]
    exact .nil _ _ _
  · simp only [flush, literals, if_neg hpending]
    exact appends_emit (List.cons_ne_nil _ _)

/-- A code that is read as something is not empty. -/
theorem Reads.ne_nil {decodeLoop : ℕ → ℕ → List UInt8 → List UInt8 → Option (List UInt8)}
    {done piece : List UInt8} (h : Reads decodeLoop done code piece)
    (hend : ∀ capacity limit done, decodeLoop capacity limit [] done = some done)
    (hpiece : piece ≠ []) : code ≠ [] := by
  rintro rfl
  have hfit : Fits (done.length + piece.length) (done.length + piece.length + 1)
      (done.length + piece.length) := ⟨le_rfl, Nat.lt_succ_self _⟩
  have hread := h _ _ [] hfit
  rw [List.nil_append, hend, hend] at hread
  exact hpiece (List.self_eq_append_right.mp (Option.some.inj hread))

/-- Bounds wide enough for the whole code. -/
theorem Appends.of_wide {c : Option (List UInt8)}
    (h : Appends code.length (code.length + 1) [] code c) : c = some code := by
  rw [h, List.nil_append, if_pos (.inr ⟨le_rfl, Nat.lt_succ_self _⟩)]

/-! ## Run-length coding -/

namespace Rle

/-- `codec_rle_encode` without its tests. -/
def stream (input : List UInt8) : List UInt8 :=
  match input with
  | [] => []
  | b :: rest =>
    let run := runLength (b :: rest)
    if _ : repeatMin ≤ run then
      [0x80 ||| UInt8.ofNat (run - repeatMin), b] ++ stream ((b :: rest).drop run)
    else
      let n := literalLength 0 (b :: rest)
      literalToken ((b :: rest).take n) ++ stream ((b :: rest).drop n)
termination_by input.length
decreasing_by
  · have := runLength_pos b rest
    simp only [List.length_drop, List.length_cons]
    omega
  · have := literalLength_pos b rest (by assumption)
    simp only [List.length_drop, List.length_cons]
    omega

theorem appends_encodeLoop (capacity limit : ℕ) (input out : List UInt8) :
    Appends capacity limit out (stream input) (encodeLoop capacity limit input out) := by
  induction input, out using encodeLoop.induct with
  | case1 out =>
    rw [encodeLoop, stream]
    exact .nil _ _ _
  | case2 out b rest run hrun ih =>
    rw [encodeLoop, stream]
    simp only [run] at hrun
    simp only [hrun, dif_pos]
    exact (appends_emit (List.cons_ne_nil _ _)).bind (ih _)
  | case3 out b rest run hrun n ih =>
    rw [encodeLoop, stream]
    simp only [run] at hrun
    simp only [hrun, dif_neg, not_false_eq_true]
    exact (appends_emit (List.cons_ne_nil _ _)).bind (ih _)

theorem stream_ne_nil (h : input ≠ []) : stream input ≠ [] := by
  obtain ⟨code, hcode, hreads⟩ := encodeLoop_reads (appends_encodeLoop _ _ input []).of_wide []
  rw [List.nil_append] at hcode
  exact hcode ▸ hreads.ne_nil decodeLoop_nil h

/-- The encoder cuts off. -/
theorem encode_iff : encode input capacity limit = some r ↔
    input ≠ [] ∧ r = stream input ∧ Fits capacity limit r.length :=
  (appends_encodeLoop capacity limit input []).bounded_iff stream_ne_nil

end Rle

/-! ## Dictionary coding -/

namespace Dict

/-- `codec_dict_encode` without its tests; `pending` is the literal run collected so
far. -/
def stream (input pending : List UInt8) : List UInt8 :=
  match input with
  | [] => literals pending
  | b :: rest =>
    let best := bestEntry (b :: rest)
    if _ : best.1 = 0 then
      let pending := pending ++ [b]
      if pending.length = literalMax then literalToken pending ++ stream rest []
      else stream rest pending
    else
      literals pending ++
        ([0x80 ||| UInt8.ofNat best.2] ++ stream ((b :: rest).drop best.1) [])
termination_by input.length
decreasing_by
  · simp
  · simp
  · simp only [List.length_drop, List.length_cons]
    exact Nat.sub_lt (Nat.succ_pos _) (Nat.pos_of_ne_zero (by assumption))

theorem appends_encodeLoop (capacity limit : ℕ) (input pending out : List UInt8) :
    Appends capacity limit out (stream input pending)
      (encodeLoop capacity limit input pending out) := by
  induction input, pending, out using encodeLoop.induct with
  | case1 pending out =>
    rw [encodeLoop, stream]
    exact appends_flush
  | case2 pending out b rest best hbest pending' hfull ih =>
    rw [encodeLoop, stream]
    simp only [best] at hbest
    simp only [pending'] at hfull
    simp only [dif_pos hbest, if_pos hfull]
    exact (appends_emit (List.cons_ne_nil _ _)).bind (ih _)
  | case3 pending out b rest best hbest pending' hfull ih =>
    rw [encodeLoop, stream]
    simp only [best] at hbest
    simp only [pending'] at hfull ih
    simp only [dif_pos hbest, if_neg hfull]
    exact ih
  | case4 pending out b rest best hbest ih =>
    rw [encodeLoop, stream]
    simp only [best] at hbest
    simp only [dif_neg hbest]
    exact appends_flush.bind ((appends_emit (List.cons_ne_nil _ _)).bind (ih _))

theorem stream_ne_nil (h : input ≠ []) : stream input [] ≠ [] := by
  obtain ⟨code, hcode, hreads⟩ :=
    encodeLoop_reads (appends_encodeLoop _ _ input [] []).of_wide (by decide) []
  rw [List.nil_append] at hcode
  exact hcode ▸ hreads.ne_nil decodeLoop_nil h

/-- The encoder cuts off. -/
theorem encode_iff : encode input capacity limit = some r ↔
    input ≠ [] ∧ r = stream input [] ∧ Fits capacity limit r.length :=
  (appends_encodeLoop capacity limit input [] []).bounded_iff stream_ne_nil

end Dict

/-! ## LZSS coding -/

namespace Lzss

/-- `codec_lzss_encode` from `index` on without its tests; `pending` is the literal run
collected so far. -/
def stream (input : List UInt8) (index : ℕ) (pending : List UInt8) : List UInt8 :=
  if h : index < input.length then
    let best := bestMatch input index
    if hb : refLenMin ≤ best.1 then
      literals pending ++
        ([0x80 ||| UInt8.ofNat (best.1 - refLenMin), UInt8.ofNat (best.2 - 1)] ++
          stream input (index + best.1) [])
    else
      let pending := pending ++ [input[index]]
      if pending.length = literalMax then literalToken pending ++ stream input (index + 1) []
      else stream input (index + 1) pending
  else literals pending
termination_by input.length - index
decreasing_by
  · have hpos : 0 < (bestMatch input index).1 := Nat.lt_of_lt_of_le (by decide) hb
    omega
  · omega
  · omega

theorem appends_encodeLoop (capacity limit : ℕ) (input : List UInt8) (index : ℕ)
    (pending out : List UInt8) :
    Appends capacity limit out (stream input index pending)
      (encodeLoop capacity limit input index pending out) := by
  induction index, pending, out using encodeLoop.induct input with
  | case1 index pending out hlt best hbest ih =>
    rw [encodeLoop, stream]
    simp only [best] at hbest
    simp only [dif_pos hlt, dif_pos hbest]
    exact appends_flush.bind ((appends_emit (List.cons_ne_nil _ _)).bind (ih _))
  | case2 index pending out hlt best hbest pending' hfull ih =>
    rw [encodeLoop, stream]
    simp only [best] at hbest
    simp only [pending'] at hfull
    simp only [dif_pos hlt, dif_neg hbest, if_pos hfull]
    exact (appends_emit (List.cons_ne_nil _ _)).bind (ih _)
  | case3 index pending out hlt best hbest pending' hfull ih =>
    rw [encodeLoop, stream]
    simp only [best] at hbest
    simp only [pending'] at hfull ih
    simp only [dif_pos hlt, dif_neg hbest, if_neg hfull]
    exact ih
  | case4 index pending out hge =>
    rw [encodeLoop, stream, dif_neg hge, dif_neg hge]
    exact appends_flush

theorem stream_ne_nil (h : input ≠ []) : stream input 0 [] ≠ [] := by
  obtain ⟨code, hcode, hreads⟩ :=
    encodeLoop_reads (appends_encodeLoop _ _ input 0 [] []).of_wide (by decide) [] (by simp)
  rw [List.nil_append] at hcode
  exact hcode ▸ hreads.ne_nil decodeLoop_nil h

/-- The encoder cuts off. -/
theorem encode_iff : encode input capacity limit = some r ↔
    input ≠ [] ∧ r = stream input 0 [] ∧ Fits capacity limit r.length :=
  (appends_encodeLoop capacity limit input 0 [] []).bounded_iff stream_ne_nil

end Lzss

/-! ## Zero-count coding -/

namespace Zero

/-- `codec_zero_encode` without its tests. -/
def stream (input : List UInt8) : List UInt8 :=
  packBits (padBits ((nibbles input).flatMap nibbleCode))

theorem length_packBits {bits : List Bool} (h : bits.length % 8 = 0) :
    (packBits bits).length = bits.length / 8 := by
  induction bits using packBits.induct with
  | case1 => simp [packBits]
  | case2 bit rest ih =>
    have hlen : 8 ≤ (bit :: rest).length := by
      simp only [List.length_cons] at h ⊢
      omega
    have hdrop : ((bit :: rest).drop 8).length = (bit :: rest).length - 8 := List.length_drop
    rw [packBits, List.length_cons, ih (by omega), hdrop]
    omega

theorem length_stream (input : List UInt8) :
    (stream input).length = (((nibbles input).flatMap nibbleCode).length + 7) / 8 := by
  rw [stream, length_packBits (length_padBits _)]
  simp only [padBits, List.length_append, List.length_replicate]
  omega

/-- The loop goes on as long as the bits written so far stay below the limit, so it
ends exactly when all of them do. -/
theorem encodeLoop_iff {ns : List ℕ} {bits bits' : List Bool}
    (hbits : (bits.length + 7) / 8 < limit) :
    encodeLoop limit ns bits = some bits' ↔
      bits' = bits ++ ns.flatMap nibbleCode ∧ (bits'.length + 7) / 8 < limit := by
  induction ns generalizing bits with
  | nil =>
    simp only [encodeLoop, Option.some.injEq, List.flatMap_nil, List.append_nil]
    constructor
    · rintro rfl
      exact ⟨rfl, hbits⟩
    · exact fun h => h.1.symm
  | cons n ns ih =>
    simp only [encodeLoop, List.flatMap_cons]
    by_cases hstop : limit ≤ ((bits ++ nibbleCode n).length + 7) / 8
    · simp only [if_pos hstop, reduceCtorEq, false_iff]
      rintro ⟨rfl, hlt⟩
      simp only [List.length_append] at hstop hlt
      omega
    · rw [if_neg hstop, ih (by omega), List.append_assoc]

theorem nibbles_ne_nil (h : input ≠ []) : (nibbles input).flatMap nibbleCode ≠ [] := by
  obtain ⟨b, rest, rfl⟩ := List.exists_cons_of_ne_nil h
  simp [nibbles, nibbleCode]

theorem stream_ne_nil (h : input ≠ []) : stream input ≠ [] := by
  have hpos := List.length_pos_iff.mpr (nibbles_ne_nil h)
  rw [← List.length_pos_iff, length_stream]
  omega

/-- The encoder cuts off. -/
theorem encode_iff : encode input capacity limit = some r ↔
    input ≠ [] ∧ r = stream input ∧ Fits capacity limit r.length := by
  by_cases hinput : input = []
  · simp [encode, hinput]
  have hpos := List.length_pos_iff.mpr (stream_ne_nil hinput)
  by_cases hentry : limit = 0 ∨ capacity = 0
  · rw [encode, if_pos (.inr hentry)]
    simp only [reduceCtorEq, false_iff]
    rintro ⟨-, rfl, hcap, hlim⟩
    omega
  have hsize : (padBits ((nibbles input).flatMap nibbleCode)).length / 8 =
      (stream input).length := (length_packBits (length_padBits _)).symm
  have hloop (bits : List Bool) : encodeLoop limit (nibbles input) [] = some bits ↔
      bits = (nibbles input).flatMap nibbleCode ∧ (bits.length + 7) / 8 < limit :=
    encodeLoop_iff (by simp; omega)
  rw [encode, if_neg (by tauto), Option.bind_eq_some_iff]
  simp only [hloop]
  constructor
  · rintro ⟨bits, ⟨rfl, -⟩, hend⟩
    rw [hsize] at hend
    split at hend
    · simp at hend
    · next hfit =>
      obtain rfl := Option.some.inj hend
      rw [not_or, not_or, Nat.not_lt, Nat.not_le] at hfit
      exact ⟨hinput, rfl, hfit.2⟩
  · rintro ⟨-, rfl, hfit⟩
    refine ⟨_, ⟨rfl, by rw [← length_stream]; exact hfit.2⟩, ?_⟩
    rw [hsize, if_neg]
    · rfl
    · rw [not_or, not_or, Nat.not_lt, Nat.not_le]
      exact ⟨Nat.ne_of_gt hpos, hfit⟩

end Zero

end Atoman.Codec
