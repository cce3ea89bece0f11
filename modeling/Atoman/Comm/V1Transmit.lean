import Atoman.Codec.Stream
import Atoman.Comm.V1RoundTrip
import Mathlib.Data.List.MinMax
import Atoman.Codec.Entry.Language

/-!
# The choice of the codec and the transmit buffers

The sender runs the encoders one after the other, each under a limit that the best
encoding so far lowers. What is left is the earliest of the shortest encodings, among
the raw payload and the encodings that save enough; and the length byte tells the
receiver how many bytes follow.

`comm_v1_send` puts the frame together in a transmit buffer and lets every encoder
write into one candidate buffer. An encoding that is shorter than the best so far is
copied into the frame before the next encoder overwrites the candidate; the frame that
goes out is the one that the choice of the codec on lists describes.

## Main definitions

* `options` — the encodings that may be sent, in the order in which they are tried.
* `argmin_options` — the first shortest of them is selected.
* `payload_read` — a parser reads as many bytes as the length byte says.
-/

namespace Atoman.Comm.V1
open Codec
open Codec.Entry (DictTable Kind entryPoint listEncode)
open Lib (Memory)

/-- The encoding saves the bytes it has to. -/
abbrev Saves (raw code : List UInt8) : Prop := code.length + minSaved raw.length ≤ raw.length

/-- An encoding, when it saves enough. -/
def offer (raw : List UInt8) (codec : UInt8) (code : List UInt8) : List (UInt8 × List UInt8) :=
  if Saves raw code then [(codec, code)] else []

/-- The encodings of a payload that may be sent, in the order in which they are tried:
a codec negotiation is sent raw, run-length coding is for more than 16 bytes and LZSS
for 64 bytes and more. -/
def options (codecSelect : Bool) (raw : List UInt8) : List (UInt8 × List UInt8) :=
  (codecRaw, raw) ::
    if codecSelect then []
    else
      offer raw codecDict (Dict.stream raw []) ++
        (if minSavedRawSmall < raw.length then offer raw codecRle (Rle.stream raw) else []) ++
        (if 64 ≤ raw.length then offer raw codecLzss (Lzss.stream raw 0 []) else []) ++
        offer raw codecZero (Zero.stream raw)

/-- Bytes on the wire. -/
def wireLength (o : UInt8 × List UInt8) : ℕ := o.2.length

/-! ## One encoder -/

section Try
variable {raw code : List UInt8} {codec : UInt8} {best : UInt8 × List UInt8}
variable {encode : List UInt8 → ℕ → ℕ → Option (List UInt8)}
variable {tried : List (UInt8 × List UInt8)}

/-- The encoder cuts off, and `code` is what it writes without a limit. -/
def CutsOff (encode : List UInt8 → ℕ → ℕ → Option (List UInt8)) (raw code : List UInt8) : Prop :=
  ∀ capacity limit r, encode raw capacity limit = some r ↔
    raw ≠ [] ∧ r = code ∧ Fits capacity limit r.length

/-- The earliest shortest of the encodings tried so far. -/
structure Leads (raw : List UInt8) (tried : List (UInt8 × List UInt8)) (best : UInt8 × List UInt8) :
    Prop where
  argmin : tried.argmin wireLength = some best
  length_le : best.2.length ≤ raw.length

/-- The limit neither loses an encoding that would win nor lets one in that saves too
little. -/
theorem tryCodec_eq (h : CutsOff encode raw code) (hraw : minSaved raw.length < raw.length)
    (hbest : best.2.length ≤ raw.length) (hmax : raw.length ≤ maxData) :
    tryCodec codec encode raw best =
      if Saves raw code ∧ code.length < best.2.length then (codec, code) else best := by
  have hne : raw ≠ [] := List.ne_nil_of_length_pos (Nat.zero_lt_of_lt hraw)
  unfold tryCodec
  by_cases hwins : Saves raw code ∧ code.length < best.2.length
  · have hfit : Fits maxData (min best.2.length (raw.length - minSaved raw.length + 1))
        code.length := by
      refine ⟨hwins.2.le.trans (hbest.trans hmax), ?_⟩
      have hsaves := hwins.1
      omega
    rw [(h _ _ code).mpr ⟨hne, rfl, hfit⟩, if_pos hwins]
    simp only [hwins.2, if_true]
  · rw [if_neg hwins]
    cases hcode : encode raw maxData (min best.2.length (raw.length - minSaved raw.length + 1)) with
    | none => rfl
    | some r =>
      obtain ⟨-, rfl, -, hlt⟩ := (h _ _ r).mp hcode
      exact absurd ⟨by omega, by omega⟩ hwins

/-- Trying one more encoder keeps the earliest shortest encoding. -/
theorem Leads.tryCodec (hlead : Leads raw tried best) (codec : UInt8) (h : CutsOff encode raw code)
    (hraw : minSaved raw.length < raw.length) (hmax : raw.length ≤ maxData) :
    Leads raw (tried ++ offer raw codec code) (tryCodec codec encode raw best) := by
  rw [tryCodec_eq h hraw hlead.length_le hmax, offer]
  by_cases hsaves : Saves raw code
  · have hmin := List.argmin_concat wireLength (codec, code) tried
    rw [hlead.argmin] at hmin
    simp only [wireLength] at hmin
    simp only [hsaves, true_and]
    by_cases hlt : code.length < best.2.length
    · simp only [hlt, if_true] at hmin ⊢
      exact ⟨hmin, hlt.le.trans hlead.length_le⟩
    · simp only [hlt, if_false] at hmin ⊢
      exact ⟨hmin, hlead.length_le⟩
  · rw [if_neg hsaves, List.append_nil, if_neg fun hwins => hsaves hwins.1]
    exact hlead

/-- An encoder that is tried under a condition. -/
theorem Leads.ite {p : Prop} [Decidable p] {more : List (UInt8 × List UInt8)}
    {best' : UInt8 × List UInt8} (h : Leads raw tried best)
    (h' : Leads raw (tried ++ more) best') :
    Leads raw (tried ++ if p then more else []) (if p then best' else best) := by
  split
  · exact h'
  · rwa [List.append_nil]

end Try

/-! ## All of them -/

/-- No encoding of a payload saves as many bytes as the payload has. -/
theorem offer_of_short {raw code : List UInt8} {codec : UInt8} (hcode : raw ≠ [] → code ≠ [])
    (hraw : raw.length ≤ minSaved raw.length) : offer raw codec code = [] := by
  refine if_neg fun hsaves => ?_
  have hmin : 2 ≤ minSaved raw.length := by
    unfold minSaved
    split <;> omega
  have hpos := List.length_pos_iff.mpr (hcode (List.ne_nil_of_length_pos (by omega)))
  omega

/-- **The earliest of the shortest encodings is selected.** -/
theorem argmin_options (codecSelect : Bool) {raw : List UInt8} (hmax : raw.length ≤ maxData) :
    (options codecSelect raw).argmin wireLength = some (selectCodec codecSelect raw) := by
  unfold selectCodec options
  dsimp only
  by_cases hselect : codecSelect
  · simp [hselect]
  by_cases hraw : minSaved raw.length < raw.length
  · have hstart : Leads raw [(codecRaw, raw)] (codecRaw, raw) := ⟨List.argmin_singleton, le_rfl⟩
    have hdict := hstart.tryCodec codecDict (fun _ _ _ => Dict.encode_iff) hraw hmax
    have hrle := hdict.ite (p := minSavedRawSmall < raw.length)
      (hdict.tryCodec codecRle (fun _ _ _ => Rle.encode_iff) hraw hmax)
    have hlzss := hrle.ite (p := 64 ≤ raw.length)
      (hrle.tryCodec codecLzss (fun _ _ _ => Lzss.encode_iff) hraw hmax)
    have hzero := hlzss.tryCodec codecZero (fun _ _ _ => Zero.encode_iff) hraw hmax
    simp only [hselect, hraw, Bool.not_false, and_self, if_true, Bool.false_eq_true, if_false]
    simpa only [List.cons_append, List.nil_append, List.append_assoc] using hzero.argmin
  · rw [offer_of_short Dict.stream_ne_nil (Nat.not_lt.mp hraw),
      offer_of_short Rle.stream_ne_nil (Nat.not_lt.mp hraw),
      offer_of_short Lzss.stream_ne_nil (Nat.not_lt.mp hraw),
      offer_of_short Zero.stream_ne_nil (Nat.not_lt.mp hraw)]
    simp [hraw]

/-! ## The length byte -/

/-- The length byte in front of a payload. -/
def lengthByte (n : ℕ) : UInt8 := if n = maxData then 0 else UInt8.ofNat n

/-- A parser that awaits payload bytes counts them down. -/
theorem data_read (net : Network) {c : Ctx} (hstatus : c.status = .data) (bytes : List UInt8)
    (hle : bytes.length ≤ c.len.toNat) (hpos : 0 < c.len.toNat) :
    (bytes.foldl (fun d b => d.take net b) c).status =
      if bytes.length < c.len.toNat then .data else .sum := by
  induction bytes generalizing c with
  | nil => simpa [hpos] using hstatus
  | cons b bytes ih =>
    simp only [List.length_cons] at hle
    have hlen : (c.len - 1).toNat = c.len.toNat - 1 := by
      have hone : (1 : UInt16) ≤ c.len := UInt16.le_iff_toNat_le.mpr hpos
      rw [UInt16.toNat_sub_of_le _ _ hone, UInt16.toNat_one]
    rw [List.foldl_cons]
    by_cases hlast : c.len.toNat = 1
    · have hnil : bytes = [] := List.length_eq_zero_iff.mp (by omega)
      have hzero : c.len - 1 = 0 := UInt16.toNat_inj.mp (by rw [hlen, hlast]; rfl)
      simp [hnil, Ctx.take, Ctx.capture, hstatus, hzero, hlast]
    · have hne : c.len - 1 ≠ 0 := fun h0 => by
        rw [h0] at hlen
        simp at hlen
        omega
      have hnext : (c.take net b).status = .data ∧ (c.take net b).len = c.len - 1 := by
        simp [Ctx.take, Ctx.capture, hstatus, hne]
      rw [ih hnext.1 (by rw [hnext.2]; omega) (by rw [hnext.2]; omega), hnext.2, hlen,
        List.length_cons]
      refine if_congr ?_ rfl rfl
      omega

/-- **A parser reads as many bytes as were emitted.** Behind the length byte it stays in
the payload until the last byte of it has come, whatever the bytes are. -/
theorem payload_read (net : Network) {c : Ctx} (hstatus : c.status = .len) {n : ℕ} (hpos : 0 < n)
    (hle : n ≤ maxData) (bytes : List UInt8) (hbytes : bytes.length ≤ n) :
    ((lengthByte n :: bytes).foldl (fun d b => d.take net b) c).status =
      if bytes.length < n then .data else .sum := by
  have hlen : (c.take net (lengthByte n)).len.toNat = n := by
    simp only [Ctx.take, hstatus]
    exact lengthByte_spec hpos hle
  have hdata : (c.take net (lengthByte n)).status = .data := by
    simp only [Ctx.take, hstatus]
    rfl
  rw [List.foldl_cons, data_read net hdata bytes (by omega) (by omega), hlen]

/-! ## The transmit buffers -/

/-- `COMM_V1_FRAME_PREFIX` -/
abbrev framePrefix : ℕ := 6
/-- `COMM_V1_PURE_CMD_LEN` -/
abbrev pureCmdLen : ℕ := 6

/-- `comm_v1_tx_buffer_t`, once it is acquired -/
structure TxBuffer where
  data : Memory UInt8
  candidate : Memory UInt8

/-- What the sender has chosen so far. -/
structure Selection where
  tx : TxBuffer
  /-- `best_len` -/
  bestLen : ℕ
  /-- `best_codec` -/
  bestCodec : UInt8

namespace Selection

/-- One candidate: encode into the candidate buffer, and copy what is shorter into the
frame. -/
def candidate (s : Selection) (t : DictTable) (raw : List UInt8) (codec : UInt8) (kind : Kind) :
    Selection :=
  let limit_len := min s.bestLen (raw.length - minSaved raw.length + 1)
  let result := entryPoint t (some raw) (some (UInt16.ofNat maxData)) (some s.tx.candidate)
    (UInt16.ofNat limit_len) kind .encode
  let buffer := result.output.getD s.tx.candidate
  let candidate_len := result.outputLen.getD 0
  if result.ret = 1 ∧ candidate_len < s.bestLen then
    { tx :=
        { data := s.tx.data.write framePrefix (buffer.slice 0 candidate_len), candidate := buffer }
      bestLen := candidate_len
      bestCodec := codec }
  else { s with tx := { s.tx with candidate := buffer } }

/-- The candidates one after the other, each where the length permits it. -/
def candidates (s : Selection) (t : DictTable) (raw : List UInt8) : Selection :=
  let s := s.candidate t raw codecDict .dict
  let s := if minSavedRawSmall < raw.length then s.candidate t raw codecRle .rle else s
  let s := if 64 ≤ raw.length then s.candidate t raw codecLzss .lzss else s
  s.candidate t raw codecZero .zero

end Selection

/-- The payload in the transmit buffer, raw first. -/
def selectInto (t : DictTable) (codecSelect : Bool) (raw : List UInt8) (tx : TxBuffer) :
    Selection :=
  if raw = [] then ⟨tx, 0, codecRaw⟩
  else
    let s : Selection :=
      ⟨{ tx with data := tx.data.write framePrefix raw }, raw.length, codecRaw⟩
    if minSaved raw.length < raw.length ∧ !codecSelect then s.candidates t raw else s

/-- The bytes handed to the transmit function: header, length byte and checksum around
the payload. -/
def buildFrame (pack : Pack) (raw : List UInt8) (s : Selection) : List UInt8 :=
  let cmd : UInt32 := if raw = [] then 1 else 0
  let ack : UInt32 := if pack.isAck ≠ 0 then 1 else 0
  let data := s.tx.data.write 0 (sopByte :: msgBytes (msgWord pack s.bestCodec cmd ack))
  let data := if cmd = 1 then data else data.write 5 [lengthByte s.bestLen]
  let frame_len := if cmd = 1 then pureCmdLen else framePrefix + s.bestLen + 1
  let data := data.write (frame_len - 1) [sumEncode (data.slice 0 (frame_len - 1))]
  data.slice 0 frame_len

/-- `comm_v1_send` in a transmit buffer; `data` is the memory the payload pointer points
to. -/
def commV1Send (t : DictTable) (pack : Pack) (data : Memory UInt8) (tx : TxBuffer)
    (printf : Output) : List Event :=
  if sendAccepts pack then
    let raw := data.slice 0 pack.len.toNat
    transmit printf (buildFrame pack raw (selectInto t (isCodecSelect pack) raw tx))
  else []

/-! ## The payload in the buffer -/

/-- The frame holds the encoding chosen on lists, which is not longer than the payload. -/
structure Selection.Holds (s : Selection) (raw : List UInt8) (best : UInt8 × List UInt8) :
    Prop where
  payload : s.tx.data.slice framePrefix s.bestLen = best.2
  bestLen : s.bestLen = best.2.length
  bestCodec : s.bestCodec = best.1
  length_le : best.2.length ≤ raw.length

section Holds
variable {s : Selection} {best : UInt8 × List UInt8} {t : DictTable} {raw : List UInt8}

/-- What a call returns lies in the buffer it was given. -/
theorem returned_slice {o : Codec.Entry.Outcome} {data : List UInt8} (h : o.Returns data)
    (buffer : Memory UInt8) : (o.output.getD buffer).slice 0 (o.outputLen.getD 0) = data := by
  obtain ⟨-, hlen, hproduced⟩ := h
  simp only [Codec.Entry.Outcome.produced, hlen] at hproduced
  rw [hlen, Option.getD_some]
  cases ho : o.output with
  | none =>
    rw [ho] at hproduced
    rw [← hproduced]
    rfl
  | some m =>
    rw [ho] at hproduced
    exact hproduced

/-- An encoder that only touches the candidate buffer leaves the choice alone. -/
theorem Selection.Holds.candidate (h : s.Holds raw best) (hraw : raw.length ≤ maxData)
    (codec : UInt8) (kind : Kind) :
    (s.candidate t raw codec kind).Holds raw (tryCodec codec (listEncode kind) raw best) := by
  have hcap : (UInt16.ofNat maxData).toNat = maxData := rfl
  have hlimit : (UInt16.ofNat (min s.bestLen (raw.length - minSaved raw.length + 1))).toNat =
      min best.2.length (raw.length - minSaved raw.length + 1) := by
    simp only [maxData] at hraw
    rw [UInt16.toNat_ofNat', h.bestLen]
    have hle := h.length_le
    omega
  have hreturns := fun data => Codec.Entry.encode_returns_list t kind raw s.tx.candidate
    (UInt16.ofNat maxData) (UInt16.ofNat (min s.bestLen (raw.length - minSaved raw.length + 1)))
      data
  rw [hcap, hlimit] at hreturns
  have hret := Codec.Entry.encode_ret_iff t kind raw s.tx.candidate
    (UInt16.ofNat maxData) (UInt16.ofNat (min s.bestLen (raw.length - minSaved raw.length + 1)))
  unfold Selection.candidate tryCodec
  dsimp only
  generalize entryPoint t (some raw) (some (UInt16.ofNat maxData)) (some s.tx.candidate)
    (UInt16.ofNat (min s.bestLen (raw.length - minSaved raw.length + 1))) kind .encode = o
    at hreturns hret ⊢
  cases hcode : listEncode kind raw maxData
      (min best.2.length (raw.length - minSaved raw.length + 1)) with
  | none =>
    have hfails : ¬ o.ret = 1 := by
      rw [hret]
      rintro ⟨data, hdata⟩
      have hsome := (hreturns data).mp hdata
      rw [hcode] at hsome
      simp at hsome
    rw [if_neg fun hwins => hfails hwins.1]
    exact ⟨h.payload, h.bestLen, h.bestCodec, h.length_le⟩
  | some code =>
    have hdata := (hreturns code).mpr hcode
    have hlen : o.outputLen.getD 0 = code.length := by rw [hdata.2.1, Option.getD_some]
    have hslice := returned_slice hdata s.tx.candidate
    rw [hlen] at hslice
    simp only [hdata.1, true_and, hlen, hslice, h.bestLen]
    split
    · next hlt => exact ⟨Memory.slice_write_self _ _ _, rfl, rfl, hlt.le.trans h.length_le⟩
    · exact ⟨h.bestLen ▸ h.payload, rfl, h.bestCodec, h.length_le⟩

/-- An encoder that is tried under a condition. -/
theorem Selection.Holds.ite {p : Prop} [Decidable p] {s' : Selection} {best' : UInt8 × List UInt8}
    (h : s.Holds raw best) (h' : s'.Holds raw best') :
    (if p then s else s').Holds raw (if p then best else best') := by
  split
  · exact h
  · exact h'

/-- The choice in the buffers is the choice on lists. -/
theorem selectInto_holds (t : DictTable) (codecSelect : Bool) (tx : TxBuffer)
    (hraw : raw.length ≤ maxData) :
    (selectInto t codecSelect raw tx).Holds raw (selectCodec codecSelect raw) := by
  by_cases hnil : raw = []
  · rw [selectInto, if_pos hnil, hnil, selectCodec_nil]
    exact ⟨rfl, rfl, rfl, le_rfl⟩
  have hstart : Selection.Holds
      ⟨{ tx with data := tx.data.write framePrefix raw }, raw.length, codecRaw⟩ raw
      (codecRaw, raw) := ⟨Memory.slice_write_self _ _ _, rfl, rfl, le_rfl⟩
  rw [selectInto, if_neg hnil, selectCodec]
  dsimp only
  split
  · have hdict := hstart.candidate (t := t) hraw codecDict .dict
    have hrle := (hdict.candidate (t := t) hraw codecRle .rle).ite
      (p := minSavedRawSmall < raw.length) hdict
    have hlzss := (hrle.candidate (t := t) hraw codecLzss .lzss).ite (p := 64 ≤ raw.length) hrle
    exact hlzss.candidate hraw codecZero .zero
  · exact hstart

end Holds

/-! ## The frame -/

/-- The frame in the buffer is the frame on lists. -/
theorem buildFrame_eq {pack : Pack} {raw : List UInt8} {s : Selection}
    (h : s.Holds raw (selectCodec (isCodecSelect pack) raw)) :
    buildFrame pack raw s = frameBytes pack raw := by
  simp only [buildFrame, frameBytes, h.bestCodec]
  by_cases hraw : raw = []
  · simp only [if_pos hraw, if_true, pureCmdLen]
    generalize hhead : sopByte :: msgBytes (msgWord pack
      (selectCodec (isCodecSelect pack) raw).1 1 (if pack.isAck ≠ 0 then 1 else 0)) = head
    have hlen : head.length = 5 := by rw [← hhead]; rfl
    have hslice : (s.tx.data.write 0 head).slice 0 5 = head := Memory.slice_write_of_length hlen
    rw [hslice]
    exact Memory.slice_write_extend _ hslice
  · simp only [if_neg hraw, show ¬ (0 : UInt32) = 1 by decide, if_false, framePrefix,
      Nat.add_sub_cancel]
    generalize hhead : sopByte :: msgBytes (msgWord pack
      (selectCodec (isCodecSelect pack) raw).1 0 (if pack.isAck ≠ 0 then 1 else 0)) = head
    have hlen : head.length = 5 := by rw [← hhead]; rfl
    have hslice : (s.tx.data.write 0 head).slice 0 5 = head := Memory.slice_write_of_length hlen
    have hprefix : ((s.tx.data.write 0 head).write 5 [lengthByte s.bestLen]).slice 0 6 =
        head ++ [lengthByte s.bestLen] := Memory.slice_write_extend [lengthByte s.bestLen] hslice
    have hpayload : ((s.tx.data.write 0 head).write 5 [lengthByte s.bestLen]).slice 6 s.bestLen =
        (selectCodec (isCodecSelect pack) raw).2 := by
      rw [Memory.slice_write_disjoint _ _ (by simp), Memory.slice_write_disjoint _ _ (by omega)]
      exact h.payload
    have hbody : ((s.tx.data.write 0 head).write 5 [lengthByte s.bestLen]).slice 0
        (6 + s.bestLen) =
          head ++ (lengthByte s.bestLen :: (selectCodec (isCodecSelect pack) raw).2) := by
      rw [Memory.slice_append, hprefix, Nat.zero_add, hpayload, List.append_assoc]
      rfl
    rw [hbody]
    have hframe := Memory.slice_write_extend
      [sumEncode (head ++ (lengthByte s.bestLen :: (selectCodec (isCodecSelect pack) raw).2))] hbody
    rw [Nat.zero_add] at hframe
    rw [List.length_singleton] at hframe
    rw [hframe, h.bestLen]
    rfl

/-- The header word of a data frame. -/
def dataWord (pack : Pack) (codec : UInt8) : UInt32 :=
  msgWord pack codec 0 (if pack.isAck ≠ 0 then 1 else 0)

/-- The data frame of a codec and its payload. -/
def dataFrame (pack : Pack) (best : UInt8 × List UInt8) : List UInt8 :=
  let body := (sopByte :: msgBytes (dataWord pack best.1)) ++ (lengthByte best.2.length :: best.2)
  body ++ [sumEncode body]

/-- **The sender sends the best encoding.** Of every pack it accepts, in whatever state
the transmit buffer and the table of first bytes are: it selects the earliest of the
shortest encodings, among the raw payload and the eligible encodings that save enough;
that is the payload of the frame; the codec field names it, and behind the length byte
a parser reads exactly its bytes. -/
theorem send_optimal (t : DictTable) (pack : Pack) (data : Memory UInt8) (tx : TxBuffer)
    (output : ℕ) (hacc : sendAccepts pack) :
    ∃ best frame,
      (options (isCodecSelect pack) (data.slice 0 pack.len.toNat)).argmin wireLength = some best ∧
      commV1Send t pack data tx (some output) = [.sent output frame] ∧
      (pack.len ≠ 0 → frame = dataFrame pack best ∧
        (field (dataWord pack best.1) 27 0x07).toUInt8 = best.1 ∧
        ∀ (net : Network) (c : Ctx) (bytes : List UInt8), c.status = .len →
          bytes.length ≤ best.2.length →
          ((lengthByte best.2.length :: bytes).foldl (fun d b => d.take net b) c).status =
            if bytes.length < best.2.length then .data else .sum) := by
  have hmax : (data.slice 0 pack.len.toNat).length ≤ maxData := by
    simp only [sendAccepts, Bool.and_eq_true, decide_eq_true_eq] at hacc
    simpa using hacc.1.1.1.1.1.1.1.1.2
  have henc := selectCodec_encodes (isCodecSelect pack) hmax
  refine ⟨_, frameBytes pack (data.slice 0 pack.len.toNat), argmin_options _ hmax, ?_,
    fun hlen => ?_⟩
  · simp only [commV1Send, hacc, if_true, transmit]
    rw [buildFrame_eq (selectInto_holds t (isCodecSelect pack) tx hmax)]
  · have hne : data.slice 0 pack.len.toNat ≠ [] := by
      refine List.ne_nil_of_length_pos ?_
      rw [Memory.length_slice, Nat.pos_iff_ne_zero]
      exact fun h0 => hlen (UInt16.toNat_inj.mp h0)
    refine ⟨?_, field_codec ?_, fun net c bytes hstatus hbytes => ?_⟩
    · simp only [frameBytes, if_neg hne, dataFrame, dataWord]
      rfl
    · refine headerFits_of_sendAccepts hacc _ _ _ (Nat.lt_of_le_of_lt henc.codec_le (by decide))
        (by decide) ?_
      split <;> decide
    · exact payload_read net hstatus (henc.length_pos hne) (henc.length_le.trans hmax) bytes hbytes

/-- Twenty equal bytes, which run-length coding makes shortest. -/
theorem send_optimal_demo :
    ∃ best frame,
      (options false (Memory.slice (fun _ => 0x55) 0 20)).argmin wireLength = some best ∧
      commV1Send .blank demoPack (fun _ => 0x55) ⟨fun _ => 0, fun _ => 0⟩ (some 0) =
        [.sent 0 frame] := by
  obtain ⟨best, frame, hbest, hsent, -⟩ := send_optimal .blank demoPack (fun _ => 0x55)
    ⟨fun _ => 0, fun _ => 0⟩ 0 (by decide)
  exact ⟨best, frame, hbest, hsent⟩

end Atoman.Comm.V1
