import Atoman.Codec.Dict
import Atoman.Codec.Lzss
import Atoman.Codec.Rle
import Atoman.Codec.Zero
import Atoman.Comm.Network

/-!
# Sending 0xE9 frames

A payload is sent raw or in the shortest of the encodings that are tried, when it
saves enough. A frame is the start byte, four bytes of packed header, a length byte
with the payload unless the payload is empty, and a checksum.
-/

namespace Atoman.Comm.V1
open Lib

/-- `COMM_V1_SOP` -/
def sopByte : UInt8 := 0xE9
/-- `COMM_V1_VERSION` -/
def version : UInt8 := 0x01
/-- `COMM_V1_MAX_DATA` -/
abbrev maxData : ℕ := 256
/-- `COMM_V1_SEQ_MASK` -/
def seqMask : UInt8 := 0x07
/-- `COMM_V1_ADDR_MAX` -/
def addrMax : UInt8 := 0x0F
/-- `COMM_V1_DADDR_MAX` -/
def daddrMax : UInt8 := 0x07
/-- `COMM_V1_CMD_SET_MAX` -/
def cmdSetMax : UInt8 := 0x0F
/-- `COMM_V1_CMD_WORD_MAX` -/
def cmdWordMax : UInt8 := 0x3F
/-- `COMM_V1_MIN_SAVED_RAW_SMALL` -/
abbrev minSavedRawSmall : ℕ := 16

def codecRaw : UInt8 := 0
def codecDict : UInt8 := 1
def codecRle : UInt8 := 2
def codecLzss : UInt8 := 3
def codecZero : UInt8 := 4

/-- `comm_sum_encode` -/
def sumEncode (data : List UInt8) : UInt8 :=
  let sum := data.foldl (· + ·) 0
  if sum = 0x00 then 0x55 else if sum = 0xFF then 0xAA else sum

/-- `comm_v1_is_codec_select` -/
def isCodecSelect (pack : Pack) : Bool := pack.cmdSet == 0 && pack.cmdWord == 0

/-- Bytes an encoding has to save. -/
def minSaved (rawLen : ℕ) : ℕ :=
  if rawLen ≤ minSavedRawSmall then 2 else max 2 ((rawLen + 15) / 16)

/-- Try one encoding: it replaces the best so far when it is shorter. -/
def tryCodec (codec : UInt8) (encode : List UInt8 → ℕ → ℕ → Option (List UInt8))
    (raw : List UInt8) (best : UInt8 × List UInt8) : UInt8 × List UInt8 :=
  match encode raw maxData (min best.2.length (raw.length - minSaved raw.length + 1)) with
  | none => best
  | some candidate => if candidate.length < best.2.length then (codec, candidate) else best

/-- The codec and the payload bytes of a frame. -/
def selectCodec (codecSelect : Bool) (raw : List UInt8) : UInt8 × List UInt8 :=
  let best := (codecRaw, raw)
  if minSaved raw.length < raw.length ∧ !codecSelect then
    let best := tryCodec codecDict Codec.Dict.encode raw best
    let best := if minSavedRawSmall < raw.length then tryCodec codecRle Codec.Rle.encode raw best
      else best
    let best := if 64 ≤ raw.length then tryCodec codecLzss Codec.Lzss.encode raw best else best
    tryCodec codecZero Codec.Zero.encode raw best
  else best

/-- The packed header. -/
def msgWord (pack : Pack) (codec : UInt8) (cmd ack : UInt32) : UInt32 :=
  pack.seq.toUInt32 ||| (pack.dst.toUInt32 <<< 3) ||| (pack.dDst.toUInt32 <<< 7) |||
    (pack.src.toUInt32 <<< 10) ||| (pack.dSrc.toUInt32 <<< 14) ||| (pack.cmdSet.toUInt32 <<< 17) |||
    (pack.cmdWord.toUInt32 <<< 21) ||| (codec.toUInt32 <<< 27) ||| (cmd <<< 30) ||| (ack <<< 31)

/-- The header on the wire, low byte first. -/
def msgBytes (msg : UInt32) : List UInt8 :=
  [(msg &&& 0xFF).toUInt8, ((msg >>> 8) &&& 0xFF).toUInt8, ((msg >>> 16) &&& 0xFF).toUInt8,
    ((msg >>> 24) &&& 0xFF).toUInt8]

/-- The range checks of `comm_v1_send`. -/
def sendAccepts (pack : Pack) : Bool :=
  pack.version == version && decide (pack.len.toNat ≤ maxData) &&
    !(decide (0 < pack.len) && pack.pData == .null) && decide (pack.seq ≤ seqMask) &&
    decide (pack.src ≤ addrMax) && decide (pack.dst ≤ addrMax) && decide (pack.dSrc ≤ daddrMax) &&
    decide (pack.dDst ≤ daddrMax) && decide (pack.cmdSet ≤ cmdSetMax) &&
    decide (pack.cmdWord ≤ cmdWordMax)

/-- The frame of a pack with its payload. -/
def frameBytes (pack : Pack) (raw : List UInt8) : List UInt8 :=
  let cmd : UInt32 := if raw = [] then 1 else 0
  let ack : UInt32 := if pack.isAck ≠ 0 then 1 else 0
  let best := selectCodec (isCodecSelect pack) raw
  let head := sopByte :: msgBytes (msgWord pack best.1 cmd ack)
  let body :=
    if raw = [] then head
    else head ++ ((if best.2.length = maxData then 0 else UInt8.ofNat best.2.length) :: best.2)
  body ++ [sumEncode body]

/-- `comm_v1_send`; `data` is the memory the payload pointer points to. -/
def send (pack : Pack) (data : Memory UInt8) (printf : Output) : List Event :=
  if sendAccepts pack then transmit printf (frameBytes pack (data.slice 0 pack.len.toNat)) else []

end Atoman.Comm.V1
