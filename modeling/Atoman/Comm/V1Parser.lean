import Atoman.Comm.V1Send
import Atoman.Lib.BlockParser

/-!
# The 0xE9 parser

`run` takes one byte at a tick; `runBuffer` takes a block. A frame is captured as it
arrives. When its checksum is right and its payload can be decoded, it is answered
if it negotiates the codec, forwarded if it is for a routed address, and otherwise
dispatched; only then is its sequence number remembered.
-/

namespace Atoman.Comm.V1
open Lib

/-- `COMM_V1_STA_E` -/
inductive Sta
  | idle | msgL0 | msgL1 | msgL2 | msgL3 | len | data | sum
  deriving DecidableEq, Repr

/-- `comm_v1_ctx_t`, with the buffers it points to. -/
structure Ctx where
  dataBuffer : Memory UInt8
  candidateBuffer : Memory UInt8
  candidateSize : UInt16
  wireBuffer : Memory UInt8
  status : Sta
  index : UInt16
  len : UInt16
  sum : UInt8
  msg : UInt32
  msgCnt : UInt8
  wireLen : UInt16
  isRoute : Bool
  isLocal : Bool
  pack : Pack
  func : Option ℕ
  lastSeq : UInt8
  lastSeqValid : Bool
  lastRxTick : UInt32
  src : UInt8
  dSrc : UInt8
  linkId : UInt8

/-- A context with the command list all contexts share, and what has happened so far. -/
structure Node where
  ctx : Ctx
  commands : CommandList
  log : List Event

/-- `COMM_V1_FRAME_TIMEOUT_TICK` -/
def frameTimeoutTick : UInt32 := 1000

/-- `comm_v1_reset`: the last valid sequence number stays. -/
def Ctx.reset (c : Ctx) : Ctx :=
  { c with
    status := .idle, index := 0, len := 0, sum := 0, msg := 0, msgCnt := 0, wireLen := 0,
    isRoute := false, isLocal := false, func := none }

/-- `comm_v1_decode_data`; the limit admits 256 bytes. -/
def decodeData (codec : UInt8) (input : List UInt8) (capacity : ℕ) : Option (List UInt8) :=
  if codec = codecDict then Codec.Dict.decode input capacity 257
  else if codec = codecRle then Codec.Rle.decode input capacity 257
  else if codec = codecLzss then Codec.Lzss.decode input capacity 257
  else if codec = codecZero then Codec.Zero.decode input capacity 257
  else none

/-- `comm_v1_is_route_target` -/
def isRouteTarget (net : Network) (linkId dstAddr : UInt8) : Bool :=
  net.routes.any fun r => r.srcLinkId == linkId && r.dstAddr == dstAddr

/-- The wire bytes captured so far. -/
def Ctx.wire (c : Ctx) : List UInt8 := c.wireBuffer.slice 0 c.wireLen.toNat

/-- `comm_v1_route_forward` -/
def Ctx.routeForward (c : Ctx) (net : Network) : List Event :=
  match net.findRoute c.linkId c.pack.dst with
  | none => []
  | some r =>
    match net.findLinkById r.dstLinkId with
    | none => []
    | some l => transmit l.output c.wire

/-- The payload of the answer to a codec negotiation. -/
def codecSelectResponse : List UInt8 :=
  let crc := Codec.Dict.codebookCrc32
  [0, codecDict, Codec.Dict.codebookId, Codec.Dict.codebookVersion, (crc &&& 0xFF).toUInt8,
    ((crc >>> 8) &&& 0xFF).toUInt8, ((crc >>> 16) &&& 0xFF).toUInt8,
    ((crc >>> 24) &&& 0xFF).toUInt8]

/-- `comm_v1_codec_select_handle`: requests are answered, answers are not. -/
def Ctx.codecSelectHandle (c : Ctx) (printf : Output) : List Event :=
  if c.pack.isAck ≠ 0 then []
  else
    send
      { sop := sopByte, version := version, src := c.pack.dst, dSrc := c.pack.dDst
        dst := c.pack.src, dDst := c.pack.dSrc, cmdSet := 0, cmdWord := 0, isAck := 1
        len := 8, pData := .buffer, crc := 0, eop := 0, seq := c.pack.seq }
      (fun i => codecSelectResponse.getD i 0) printf

/-! ## Receiving -/

/-- The start of `comm_v1_run`: a late byte finds the parser reset. -/
def Ctx.receive (c : Ctx) (now : UInt32) : Ctx :=
  let c := if c.status ≠ .idle ∧ frameTimeoutTick < now - c.lastRxTick then c.reset else c
  { c with lastRxTick := now }

/-- A byte of the frame is summed and captured. -/
def Ctx.capture (c : Ctx) (data : UInt8) : Ctx :=
  { c with
    sum := c.sum + data
    wireBuffer := c.wireBuffer.write c.wireLen.toNat [data]
    wireLen := c.wireLen + 1 }

/-- The first header byte: a repeated sequence number and an address that is neither
local nor routed are refused. -/
def Ctx.takeL0 (c : Ctx) (net : Network) (data : UInt8) : Ctx :=
  let seq := data &&& seqMask
  let dst := (data >>> 3) &&& 0x0F
  let isDuplicate := c.lastSeqValid && seq == c.lastSeq
  let isLocalStatic := dst == 0 || dst == c.src
  let target := isRouteTarget net c.linkId dst
  if !isDuplicate && (isLocalStatic || target) then
    { c with
      isLocal := isLocalStatic, isRoute := !isLocalStatic && target
      msg := data.toUInt32, msgCnt := 1, status := .msgL1 }.capture data
  else c.reset

/-- Some bits of the header. -/
def field (msg shift mask : UInt32) : UInt32 := (msg >>> shift) &&& mask

/-- The fields of the header. -/
def extract (pack : Pack) (msg : UInt32) : Pack :=
  { pack with
    sop := sopByte
    version := version
    seq := (msg &&& 0x07).toUInt8
    dst := (field msg 3 0x0F).toUInt8
    dDst := (field msg 7 0x01 ||| (field msg 8 0x03 <<< 1)).toUInt8
    src := (field msg 10 0x0F).toUInt8
    dSrc := (field msg 14 0x03 ||| (field msg 16 0x01 <<< 2)).toUInt8
    cmdSet := (field msg 17 0x0F).toUInt8
    cmdWord := (field msg 21 0x07 ||| (field msg 24 0x07 <<< 3)).toUInt8
    isAck := (field msg 31 0x01).toUInt8 }

/-- The last header byte: the codec and, for a local frame, the dynamic address are
checked. -/
def Ctx.takeL3 (c : Ctx) (data : UInt8) : Ctx :=
  let msgCmd := (data >>> 6) &&& 0x01
  let msgCodec := (data >>> 3) &&& 0x07
  let msg := c.msg ||| (data.toUInt32 <<< 24)
  let c := { c with msg := msg, msgCnt := 4, pack := extract c.pack msg }.capture data
  if msgCmd = 1 ∧ msgCodec ≠ codecRaw ∨ codecZero < msgCodec then c.reset
  else if !c.isRoute && !(c.pack.dDst == 0 || c.pack.dDst == c.dSrc) then c.reset
  else if msgCmd = 1 then
    { c with pack := { c.pack with pData := .null, len := 0 }, status := .sum }
  else { c with status := .len }

/-- `comm_v1_run` behind the timeout check, up to the checksum. -/
def Ctx.take (c : Ctx) (net : Network) (data : UInt8) : Ctx :=
  match c.status with
  | .idle =>
    if data = sopByte then
      { c with
        wireBuffer := c.wireBuffer.write 0 [data], wireLen := 1, sum := data, msg := 0, msgCnt := 0
        index := 0, len := 0, isRoute := false, isLocal := false, func := none, status := .msgL0 }
    else c
  | .msgL0 => c.takeL0 net data
  | .msgL1 =>
    { c with msg := c.msg ||| (data.toUInt32 <<< 8), msgCnt := 2, status := .msgL2 }.capture data
  | .msgL2 =>
    { c with msg := c.msg ||| (data.toUInt32 <<< 16), msgCnt := 3, status := .msgL3 }.capture data
  | .msgL3 => c.takeL3 data
  | .len =>
    { c with
      len := if data = 0 then 256 else data.toUInt16, index := 0, status := .data }.capture data
  | .data =>
    let c := { c with
      dataBuffer := c.dataBuffer.write c.index.toNat [data]
      index := c.index + 1, len := c.len - 1 }.capture data
    if c.len = 0 then { c with status := .sum } else c
  | .sum => c

/-- The payload of a frame with the right checksum: where it is and its length. What a
failed decoding leaves in the candidate buffer is never read. -/
def Ctx.decodePayload (c : Ctx) : Option Ctx :=
  let msgCodec := (field c.msg 27 0x07).toUInt8
  if msgCodec ≠ codecRaw then
    (decodeData msgCodec (c.dataBuffer.slice 0 c.index.toNat) c.candidateSize.toNat).map
      fun output =>
        { c with
          candidateBuffer := c.candidateBuffer.write 0 output
          pack := { c.pack with pData := .candidate, len := UInt16.ofNat output.length } }
  else some { c with pack := { c.pack with pData := .buffer, len := c.index } }

/-- The memory the payload pointer points to. -/
def Ctx.dataMemory (c : Ctx) : Memory UInt8 :=
  match c.pack.pData with
  | .candidate => c.candidateBuffer
  | _ => c.dataBuffer

/-- The frame is valid: its sequence number is the last one. -/
def Ctx.remember (c : Ctx) : Ctx := { c with lastSeq := c.pack.seq, lastSeqValid := true }

/-- Call the callback. -/
def Node.callFunc (s : Node) (net : Network) (printf : Output) (func : ℕ) : Node :=
  let c := s.ctx
  let result := net.callback s.log func c.pack c.dataMemory
  let c := { c with pack := result.1 }
  { s with
    ctx := match s.ctx.pack.pData with
      | .candidate => { c with candidateBuffer := result.2 }
      | _ => { c with dataBuffer := result.2 }
    log := s.log ++
      [.dispatched func printf s.ctx.pack (s.ctx.dataMemory.slice 0 s.ctx.pack.len.toNat)] }

/-- The frame is complete and valid. -/
def Node.deliver (s : Node) (net : Network) (printf : Output) : Node :=
  let c := { s.ctx with pack := { s.ctx.pack with crc := 0, eop := 0 } }
  if isCodecSelect c.pack then
    { s with ctx := c.remember.reset, log := s.log ++ c.codecSelectHandle printf }
  else if c.isRoute then
    { s with ctx := c.remember.reset, log := s.log ++ c.routeForward net }
  else
    match s.commands.findFunc c.pack.cmdSet c.pack.cmdWord with
    | none => { s with ctx := c.reset }
    | some func =>
      let s := { s with ctx := { c with func := some func }.remember }.callFunc net printf func
      { s with ctx := s.ctx.reset }

/-- The checksum byte. -/
def Node.takeSum (s : Node) (net : Network) (printf : Output) (data : UInt8) : Node :=
  if data ≠ sumEncode s.ctx.wire then { s with ctx := s.ctx.reset }
  else
    match s.ctx.decodePayload with
    | none => { s with ctx := s.ctx.reset }
    | some c => { s with ctx := c }.deliver net printf

/-- `comm_v1_run` behind the timeout check. -/
def Node.take (s : Node) (net : Network) (printf : Output) (data : UInt8) : Node :=
  if s.ctx.status = .sum then s.takeSum net printf data
  else { s with ctx := s.ctx.take net data }

/-- `comm_v1_run` -/
def run (net : Network) (printf : Output) (now : UInt32) (data : UInt8) (s : Node) : Node :=
  { s with ctx := s.ctx.receive now }.take net printf data

/-- The bulk path of `comm_v1_run_buffer`. It does not look at the time of the last byte. -/
def Ctx.copyData (c : Ctx) (now : UInt32) (data : List UInt8) : Ctx :=
  let len := UInt16.ofNat (c.len.toNat - data.length)
  { c with
    dataBuffer := c.dataBuffer.write c.index.toNat data
    wireBuffer := c.wireBuffer.write c.wireLen.toNat data
    sum := data.foldl (· + ·) c.sum
    index := UInt16.ofNat (c.index.toNat + data.length)
    wireLen := UInt16.ofNat (c.wireLen.toNat + data.length)
    len := len
    status := if len = 0 then .sum else c.status
    lastRxTick := now }

/-- The 0xE9 parser with the shortcuts of `comm_v1_run_buffer`. -/
def parser (net : Network) (printf : Output) : BlockParser Node UInt32 UInt8 where
  step := run net printf
  idle s := s.ctx.status = .idle
  marker b := b == sopByte
  awaited s := if s.ctx.status = .data then s.ctx.len.toNat else 0
  copy now data s := { s with ctx := s.ctx.copyData now data }

/-- `comm_v1_run_buffer` -/
def runBuffer (net : Network) (printf : Output) : UInt32 → List UInt8 → Node → Node :=
  (parser net printf).runBuffer

end Atoman.Comm.V1
