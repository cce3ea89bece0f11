import Atoman.Codec.Entry.Dict
import Atoman.Codec.Entry.Lzss
import Atoman.Codec.Entry.Rle
import Atoman.Codec.Entry.ZeroDecode
import Atoman.Codec.Stream
import Atoman.Codec.Grammar

/-!
# Stores, limits and languages of the codecs

Seven of the eight entry points check the room in front of every store. The
zero-count encoder sets its bits first and compares with the capacity afterwards, so
it writes behind a buffer that is too small for what it gets to encode.

The abort tests of an encoder are interleaved with what it emits. They decide only
whether there is a result: an encoder returns its stream, the encoding without any
test, when that fits the capacity and is shorter than the limit, and fails otherwise.
A decoder of the run-length, LZSS or dictionary code succeeds exactly on the token
sequences of its grammar whose output fits, and returns that output.
-/

namespace Atoman.Codec.Entry
open Lib (Memory)

inductive Kind
  | dict | rle | lzss | zero

inductive Direction
  | encode | decode

/-- The entry point of a codec. -/
def entryPoint (t : DictTable) (p_input : Option (List UInt8)) (p_output_len : Option UInt16)
    (p_output : Option (Memory UInt8)) (limit_len : UInt16) : Kind → Direction → Outcome
  | .dict, .encode => (codecDictEncode t p_input p_output_len p_output limit_len).2
  | .dict, .decode => codecDictDecode p_input p_output_len p_output limit_len
  | .rle, .encode => codecRleEncode p_input p_output_len p_output limit_len
  | .rle, .decode => codecRleDecode p_input p_output_len p_output limit_len
  | .lzss, .encode => codecLzssEncode p_input p_output_len p_output limit_len
  | .lzss, .decode => codecLzssDecode p_input p_output_len p_output limit_len
  | .zero, .encode => codecZeroEncode p_input p_output_len p_output limit_len
  | .zero, .decode => codecZeroDecode p_input p_output_len p_output limit_len

/-- What the zero-count encoder writes before it ends, the whole code or as many bytes
as the limit, is not longer than the buffer. -/
def ZeroEncodeFits (p_input : Option (List UInt8)) (p_output_len : Option UInt16)
    (p_output : Option (Memory UInt8)) (limit_len : UInt16) : Prop :=
  ∀ input capacity buffer, p_input = some input → p_output_len = some capacity →
    p_output = some buffer → capacity ≠ 0 →
    min (encodedSize input) limit_len.toNat ≤ capacity.toNat

/-- The zero-count encoder is safe exactly when what it writes fits. -/
theorem codecZeroEncode_safe_iff (p_input : Option (List UInt8)) (p_output_len : Option UInt16)
    (p_output : Option (Memory UInt8)) (limit_len : UInt16) :
    (codecZeroEncode p_input p_output_len p_output limit_len).Safe p_output_len ↔
      ZeroEncodeFits p_input p_output_len p_output limit_len := by
  rw [codecZeroEncode, zeroEncode_bodyEnds.safe_iff]
  refine forall_congr' fun input => forall_congr' fun capacity => forall_congr' fun buffer =>
    forall_congr' fun _ => forall_congr' fun _ => forall_congr' fun _ => ?_
  constructor
  · intro h hcap
    by_cases hinput : input = []
    · subst hinput
      exact Nat.le_trans (Nat.min_le_left _ _) (Nat.zero_le _)
    · by_cases hlim : limit_len = 0
      · subst hlim
        exact Nat.le_trans (Nat.min_le_right _ _) (Nat.zero_le _)
      · exact (zeroEncodeBody_spec input buffer capacity limit_len hinput hcap hlim).2.mp
          (h hinput hcap hlim)
  · intro h hinput hcap hlim
    exact (zeroEncodeBody_spec input buffer capacity limit_len hinput hcap hlim).2.mpr (h hcap)

/-- **Which calls stay inside the buffer.** No entry point stores at or behind the
capacity, and every failing call reports the length zero, with one exception: the
zero-count encoder does so exactly when what it writes before it ends fits. -/
theorem entryPoint_safe_iff (t : DictTable) (p_input : Option (List UInt8))
    (p_output_len : Option UInt16) (p_output : Option (Memory UInt8)) (limit_len : UInt16)
    (kind : Kind) (direction : Direction) :
    (entryPoint t p_input p_output_len p_output limit_len kind direction).Safe p_output_len ↔
      (kind = .zero → direction = .encode →
        ZeroEncodeFits p_input p_output_len p_output limit_len) := by
  cases kind <;> cases direction
  case zero.encode =>
    exact (codecZeroEncode_safe_iff p_input p_output_len p_output limit_len).trans (by simp)
  case dict.encode =>
    exact iff_of_true ((dictEncode_loopTracks t).safe _ _ _ _) (by simp)
  case dict.decode => exact iff_of_true (dictDecode_loopTracks.safe _ _ _ _) (by simp)
  case rle.encode => exact iff_of_true (rleEncode_loopTracks.safe _ _ _ _) (by simp)
  case rle.decode => exact iff_of_true (rleDecode_loopTracks.safe _ _ _ _) (by simp)
  case lzss.encode => exact iff_of_true (lzssEncode_loopTracks.safe _ _ _ _) (by simp)
  case lzss.decode => exact iff_of_true (lzssDecode_loopTracks.safe _ _ _ _) (by simp)
  case zero.decode => exact iff_of_true (zeroDecode_loopTracks.safe _ _ _ _) (by simp)

/-- One byte whose code has two bytes, into a buffer of one byte. -/
theorem entryPoint_unsafe :
    ¬ ∀ (t : DictTable) (p_input : Option (List UInt8)) (p_output_len : Option UInt16)
      (p_output : Option (Memory UInt8)) (limit_len : UInt16) (kind : Kind)
      (direction : Direction),
      (entryPoint t p_input p_output_len p_output limit_len kind direction).Safe p_output_len := by
  intro hall
  have hsafe := hall .blank (some [0xFF]) (some 1) (some fun _ => 0) 10 .zero .encode
  have hfits := (codecZeroEncode_safe_iff _ _ _ _).mp hsafe [0xFF] 1 _ rfl rfl rfl (by decide)
  have hsize : min (encodedSize [0xFF]) (UInt16.toNat 10) = 2 := by decide
  rw [hsize] at hfits
  exact absurd hfits (by decide)

/-! ## Limits of the encoders -/

/-- What the encoder of a codec writes when no test stops it. -/
def stream : Kind → List UInt8 → List UInt8
  | .dict, input => Dict.stream input []
  | .rle, input => Rle.stream input
  | .lzss, input => Lzss.stream input 0 []
  | .zero, input => Zero.stream input

/-- A call returns exactly what the list-level codec computes. -/
theorem Implements.returns_iff {body : Body} {codec : List UInt8 → ℕ → ℕ → Option (List UInt8)}
    (h : Implements body codec) {input : List UInt8} {buffer : Memory UInt8}
    {capacity limit : UInt16} {data : List UInt8} :
    (call body (some input) (some capacity) (some buffer) limit).Returns data ↔
      codec input capacity.toNat limit.toNat = some data := by
  refine ⟨fun hreturns => ?_, h.returns input buffer capacity limit data⟩
  obtain ⟨data', hcodec, hreturns'⟩ := h.of_ret hreturns.1
  rw [hcodec, ← hreturns.2.2, hreturns'.2.2]

/-- The encoder of a codec on lists. -/
def listEncode : Kind → List UInt8 → ℕ → ℕ → Option (List UInt8)
  | .dict => Dict.encode
  | .rle => Rle.encode
  | .lzss => Lzss.encode
  | .zero => Codec.Zero.encode

theorem listEncode_iff {kind : Kind} {input r : List UInt8} {capacity limit : ℕ} :
    listEncode kind input capacity limit = some r ↔
      input ≠ [] ∧ r = stream kind input ∧ Fits capacity limit r.length := by
  cases kind with
  | dict => exact Dict.encode_iff
  | rle => exact Rle.encode_iff
  | lzss => exact Lzss.encode_iff
  | zero => exact Zero.encode_iff

section Encode
variable (t : DictTable) (kind : Kind) (input : List UInt8) (buffer : Memory UInt8)
variable (capacity limit : UInt16)

/-- An encoder on the buffer returns what the one on lists computes. -/
theorem encode_returns_list (data : List UInt8) :
    (entryPoint t (some input) (some capacity) (some buffer) limit kind .encode).Returns data ↔
      listEncode kind input capacity.toNat limit.toNat = some data := by
  cases kind with
  | dict => exact (dictEncode_loopTracks t).bodyEnds.implements.returns_iff
  | rle => exact rleEncode_loopTracks.bodyEnds.implements.returns_iff
  | lzss => exact lzssEncode_loopTracks.bodyEnds.implements.returns_iff
  | zero => exact zeroEncode_bodyEnds.implements.returns_iff

/-- An encoder returns its stream, or nothing. -/
theorem encode_returns_iff (data : List UInt8) :
    (entryPoint t (some input) (some capacity) (some buffer) limit kind .encode).Returns data ↔
      input ≠ [] ∧ data = stream kind input ∧
        Fits capacity.toNat limit.toNat data.length :=
  (encode_returns_list t kind input buffer capacity limit data).trans listEncode_iff

theorem encode_ret_iff :
    (entryPoint t (some input) (some capacity) (some buffer) limit kind .encode).ret = 1 ↔
      ∃ data,
        (entryPoint t (some input) (some capacity) (some buffer) limit kind .encode).Returns
          data := by
  refine ⟨fun hret => ?_, fun ⟨data, hdata⟩ => hdata.1⟩
  cases kind with
  | dict =>
    obtain ⟨data, -, hdata⟩ := (dictEncode_loopTracks t).bodyEnds.implements.of_ret hret
    exact ⟨data, hdata⟩
  | rle =>
    obtain ⟨data, -, hdata⟩ := rleEncode_loopTracks.bodyEnds.implements.of_ret hret
    exact ⟨data, hdata⟩
  | lzss =>
    obtain ⟨data, -, hdata⟩ := lzssEncode_loopTracks.bodyEnds.implements.of_ret hret
    exact ⟨data, hdata⟩
  | zero =>
    obtain ⟨data, -, hdata⟩ := zeroEncode_bodyEnds.implements.of_ret hret
    exact ⟨data, hdata⟩

/-- **Limits only cut off.** An encoder succeeds exactly when its encoding without
any limit fits the capacity and is shorter than the limit; the bytes are then those of
that encoding, and every larger limit gives them too. -/
theorem encode_cuts_off :
    ((entryPoint t (some input) (some capacity) (some buffer) limit kind .encode).ret = 1 ↔
      input ≠ [] ∧ (stream kind input).length ≤ capacity.toNat ∧
        (stream kind input).length < limit.toNat) ∧
    ∀ data, (entryPoint t (some input) (some capacity) (some buffer) limit kind .encode).Returns
        data → data = stream kind input ∧
      ∀ limit', limit ≤ limit' →
        (entryPoint t (some input) (some capacity) (some buffer) limit' kind .encode).Returns
          data := by
  constructor
  · rw [encode_ret_iff]
    simp only [encode_returns_iff]
    constructor
    · rintro ⟨data, hinput, rfl, hfit⟩
      exact ⟨hinput, hfit⟩
    · rintro ⟨hinput, hfit⟩
      exact ⟨_, hinput, rfl, hfit⟩
  · intro data hdata
    obtain ⟨hinput, hstream, hcap, hlim⟩ :=
      (encode_returns_iff t kind input buffer capacity limit data).mp hdata
    refine ⟨hstream, fun limit' hle => ?_⟩
    exact (encode_returns_iff t kind input buffer capacity limit' data).mpr
      ⟨hinput, hstream, hcap, hlim.trans_le (UInt16.le_iff_toNat_le.mp hle)⟩

end Encode

/-- A run of three under the limits 3 and 9. -/
theorem encode_cuts_off_run :
    (entryPoint .blank (some [7, 7, 7]) (some 8) (some fun _ => 0) 9 .rle .encode).Returns
      [0x80, 7] := by
  have hstream : stream .rle [7, 7, 7] = [0x80, 7] := by
    simp [stream, Rle.stream, Rle.runLength, Rle.repeatMin, Rle.repeatMax]
  have hshort := encode_cuts_off .blank .rle [7, 7, 7] (fun _ => 0) 8 3
  obtain ⟨data, hdata⟩ :=
    (encode_ret_iff .blank .rle [7, 7, 7] (fun _ => 0) 8 3).mp
      (hshort.1.mpr ⟨List.cons_ne_nil _ _, by rw [hstream]; decide, by rw [hstream]; decide⟩)
  obtain ⟨rfl, hmono⟩ := hshort.2 data hdata
  rw [← hstream]
  exact hmono 9 (by decide)

/-! ## What the decoders accept -/

/-- The call returns the data accepted, and fails when there is none. -/
def Outcome.Decides (o : Outcome) (accepts : List UInt8 → Prop) : Prop :=
  (∀ data, o.Returns data ↔ accepts data) ∧ ((∀ data, ¬ accepts data) → o.ret = 0)

/-- A call decides what its list-level codec does. -/
theorem Implements.decides {body : Body} {codec : List UInt8 → ℕ → ℕ → Option (List UInt8)}
    (h : Implements body codec) {input : List UInt8} {buffer : Memory UInt8}
    {capacity limit : UInt16} {accepts : List UInt8 → Prop}
    (haccepts : ∀ data, codec input capacity.toNat limit.toNat = some data ↔ accepts data) :
    (call body (some input) (some capacity) (some buffer) limit).Decides accepts := by
  refine ⟨fun data => h.returns_iff.trans (haccepts data), fun hnone => ?_⟩
  refine h.fails input buffer capacity limit (Option.eq_none_iff_forall_ne_some.mpr ?_)
  exact fun data hdata => hnone data ((haccepts data).mp hdata)

/-- **The byte decoders accept exactly their token grammars.** On every byte string, each
of them returns what the string denotes as a token sequence, when it is one and its
output fits the capacity and stays below the limit, and fails otherwise. -/
theorem decode_accepts (input : List UInt8) (buffer : Memory UInt8) (capacity limit : UInt16) :
    (codecLzssDecode (some input) (some capacity) (some buffer) limit).Decides
        (fun data => Lzss.grammar.Denotes input data ∧
          Fits capacity.toNat limit.toNat data.length) ∧
      (codecRleDecode (some input) (some capacity) (some buffer) limit).Decides
        (fun data => Rle.grammar.Denotes input data ∧
          Fits capacity.toNat limit.toNat data.length) ∧
      (codecDictDecode (some input) (some capacity) (some buffer) limit).Decides
        (fun data => Dict.grammar.Denotes input data ∧
          Fits capacity.toNat limit.toNat data.length) :=
  ⟨lzssDecode_loopTracks.bodyEnds.implements.decides fun _ => Lzss.decode_iff,
    rleDecode_loopTracks.bodyEnds.implements.decides fun _ => Rle.decode_iff,
    dictDecode_loopTracks.bodyEnds.implements.decides fun _ => Dict.decode_iff⟩

end Atoman.Codec.Entry
