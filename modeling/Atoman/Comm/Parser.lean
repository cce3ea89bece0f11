import Atoman.Comm.V1Send
import Atoman.Lib.BlockParser

/-!
# The 0xE8 parser

`commRun` takes one byte at a tick; `commRunBuffer` takes a block. A frame for
this node is dispatched to its callback, one for another node is sent on the
route's link. The payload pointer of the frame being received always points to the
buffer of the context.
-/

namespace Atoman.Comm
open Lib

/-- `SECTION_PACKFORM_STA_E` -/
inductive PackformSta
  | sop | ver | src | dst | cmd | ack | len | data | crc | eop | route
  deriving DecidableEq, Repr

/-- `comm_ctx_t`, with the payload buffer it points to. -/
structure Ctx where
  dataBuffer : Memory UInt8
  bufferSize : UInt16
  index : UInt16
  status : PackformSta
  crc : UInt16
  pack : Pack
  func : Option ℕ
  len : UInt16
  src : UInt8
  dSrc : UInt8
  lastRxTick : UInt32
  srcFlag : Bool
  dstFlag : Bool
  cmdFlag : Bool
  lenFlag : Bool
  eopFlag : Bool
  isRoute : Bool
  linkId : UInt8

/-- A context with the command list all contexts share, and what has happened so far. -/
structure Node where
  ctx : Ctx
  commands : CommandList
  log : List Event

/-- `COMM_SOP_BYTE` -/
def commSopByte : UInt8 := 0xE8
/-- `COMM_VER_1` -/
def commVer1 : UInt8 := 0x01
/-- `COMM_EOP_WORD` -/
def commEopWord : UInt16 := 0x0A0D
/-- `COMM_FRAME_TIMEOUT_TICK` -/
def commFrameTimeoutTick : UInt32 := 1000
/-- `COMM_TX_BUFFER_SIZE` -/
abbrev commTxBufferSize : ℕ := 512

/-! ## Sending -/

/-- The bytes of a frame up to its payload. -/
def frameHead (pack : Pack) : List UInt8 :=
  [commSopByte, pack.version, pack.src, pack.dSrc, pack.dst, pack.dDst, pack.cmdSet, pack.cmdWord,
    pack.isAck, (pack.len &&& 0xFF).toUInt8, ((pack.len >>> 8) &&& 0xFF).toUInt8]

/-- `comm_send_data`: the frame cache as it leaves it, and the transmission. `data` is
the memory the payload pointer points to. -/
def commSendData (pack : Pack) (data : Memory UInt8) (printf : Output) : Pack × List Event :=
  if pack.sop = V1.sopByte then (pack, V1.send pack data printf)
  else if pack.sop ≠ commSopByte then (pack, [])
  else if 0 < pack.len ∧ pack.pData = .null then (pack, [])
  else if commTxBufferSize < 15 + pack.len.toNat then (pack, [])
  else
    let pack := { pack with version := commVer1 }
    let body := frameHead pack ++ data.slice 0 pack.len.toNat
    let pack := { pack with crc := crc16Final (crc16UpdateBlock crc16Init body) }
    (pack, transmit printf
      (body ++ [(pack.crc &&& 0xFF).toUInt8, ((pack.crc >>> 8) &&& 0xFF).toUInt8, 0x0D, 0x0A]))

/-! ## Receiving -/

/-- `is_addr_match` -/
def isAddrMatch (addr loc : UInt8) : Bool := addr == 0x00 || addr == loc

/-- `comm_reset_ctx` -/
def Ctx.reset (c : Ctx) : Ctx :=
  { c with
    status := .sop, index := 0, len := 0, crc := 0, func := none, srcFlag := false,
    dstFlag := false, cmdFlag := false, lenFlag := false, eopFlag := false, isRoute := false }

/-- The bytes the payload pointer of the frame spans. -/
def Ctx.payload (c : Ctx) : List UInt8 := c.dataBuffer.slice 0 c.pack.len.toNat

/-- `comm_route_run` -/
def Node.routeRun (s : Node) (net : Network) : Node :=
  match net.findRoute s.ctx.linkId s.ctx.pack.dst with
  | none => s
  | some r =>
    match net.findLinkById r.dstLinkId with
    | none => s
    | some l =>
      let sent := commSendData s.ctx.pack s.ctx.dataBuffer l.output
      { s with ctx := { s.ctx with pack := sent.1 }, log := s.log ++ sent.2 }

/-- Call the callback of the context, if it has one. -/
def Node.callFunc (s : Node) (net : Network) (printf : Output) : Node :=
  match s.ctx.func with
  | none => s
  | some func =>
    let result := net.callback s.log func s.ctx.pack s.ctx.dataBuffer
    { s with
      ctx := { s.ctx with pack := result.1, dataBuffer := result.2 }
      log := s.log ++ [.dispatched func printf s.ctx.pack s.ctx.payload] }

/-- The context takes a header byte into its CRC. -/
def Ctx.updateCrc (c : Ctx) (data : UInt8) : Ctx := { c with crc := crc16Update c.crc data }

/-- The start of `comm_run`: a late byte finds the parser reset. -/
def Ctx.receive (c : Ctx) (now : UInt32) : Ctx :=
  let c := if c.status ≠ .sop ∧ commFrameTimeoutTick < now - c.lastRxTick then c.reset else c
  { c with lastRxTick := now }

/-- `comm_run` behind the timeout check, in the states that only concern the context. -/
def Ctx.take (c : Ctx) (data : UInt8) : Ctx :=
  match c.status with
  | .sop =>
    if data ≠ commSopByte then c
    else
      { c with
        crc := crc16Update crc16Init data
        pack := { c.pack with sop := data, pData := .buffer }
        index := 0, len := 0, func := none, isRoute := false, srcFlag := false, dstFlag := false
        cmdFlag := false, lenFlag := false, eopFlag := false, status := .ver }
  | .ver =>
    let c := { c with pack := { c.pack with version := data } }.updateCrc data
    if c.pack.version ≠ commVer1 then c.reset else { c with status := .src, srcFlag := false }
  | .src =>
    if !c.srcFlag then
      { c with pack := { c.pack with src := data }, srcFlag := true }.updateCrc data
    else
      { c with
        pack := { c.pack with dSrc := data }, dstFlag := false, status := .dst }.updateCrc data
  | .dst =>
    if !c.dstFlag then
      { c with
        pack := { c.pack with dst := data }
        isRoute := !isAddrMatch data c.src, dstFlag := true }.updateCrc data
    else
      let c := { c with pack := { c.pack with dDst := data } }.updateCrc data
      if isAddrMatch c.pack.dDst c.dSrc ∨ c.isRoute then
        { c with cmdFlag := false, status := .cmd }
      else c.reset
  | .cmd => { c with pack := { c.pack with cmdSet := data }, cmdFlag := true }.updateCrc data
  | .ack =>
    { c with
      pack := { c.pack with isAck := data, len := 0 }
      lenFlag := false, status := .len }.updateCrc data
  | .len =>
    if !c.lenFlag then
      { c with
        pack := { c.pack with len := c.pack.len ||| data.toUInt16 }
        lenFlag := true }.updateCrc data
    else
      let len := c.pack.len ||| (data.toUInt16 <<< 8)
      let c :=
        { c with
          pack := { c.pack with len := len, pData := .buffer }
          len := len, index := 0, lenFlag := false }.updateCrc data
      if c.bufferSize < c.len then c.reset else { c with status := .data }
  | .data =>
    if c.len ≠ 0 then
      { c with
        dataBuffer := c.dataBuffer.write c.index.toNat [data]
        index := c.index + 1, len := c.len - 1 }.updateCrc data
    else { c with pack := { c.pack with crc := data.toUInt16 }, status := .crc }
  | .crc =>
    let c := { c with
      pack := { c.pack with crc := c.pack.crc ||| (data.toUInt16 <<< 8) }, crc := crc16Final c.crc }
    if c.crc ≠ c.pack.crc then c.reset
    else { c with pack := { c.pack with eop := 0 }, eopFlag := false, status := .eop }
  | .eop => { c with pack := { c.pack with eop := c.pack.eop ||| data.toUInt16 }, eopFlag := true }
  | .route => c.reset

/-- The second command byte: the callback of a frame for this node is looked up. -/
def Node.takeCmdWord (s : Node) (data : UInt8) : Node :=
  let ctx := { s.ctx with pack := { s.ctx.pack with cmdWord := data } }.updateCrc data
  if ctx.isRoute then { s with ctx := { ctx with status := .ack } }
  else
    let found := s.commands.findCommFunc ctx.pack.cmdSet ctx.pack.cmdWord
    let ctx := { ctx with func := found.1 }
    if ctx.func = none then { s with ctx := ctx.reset, commands := found.2 }
    else { s with ctx := { ctx with status := .ack }, commands := found.2 }

/-- The second end byte: a frame with the right end is routed or dispatched. -/
def Node.takeEop (s : Node) (net : Network) (printf : Output) (data : UInt8) : Node :=
  let eop := s.ctx.pack.eop ||| (data.toUInt16 <<< 8)
  let s := { s with ctx := { s.ctx with pack := { s.ctx.pack with eop := eop } } }
  let s :=
    if s.ctx.pack.eop = commEopWord then
      if s.ctx.isRoute then s.routeRun net else s.callFunc net printf
    else s
  { s with ctx := s.ctx.reset }

/-- `comm_run` behind the timeout check. -/
def Node.take (s : Node) (net : Network) (printf : Output) (data : UInt8) : Node :=
  if s.ctx.status = .cmd ∧ s.ctx.cmdFlag then s.takeCmdWord data
  else if s.ctx.status = .eop ∧ s.ctx.eopFlag then s.takeEop net printf data
  else { s with ctx := s.ctx.take data }

/-- `comm_run` -/
def commRun (net : Network) (printf : Output) (now : UInt32) (data : UInt8) (s : Node) : Node :=
  { s with ctx := s.ctx.receive now }.take net printf data

/-- The bulk path of `comm_run_buffer`. It does not look at the time of the last byte. -/
def Ctx.copyData (c : Ctx) (now : UInt32) (data : List UInt8) : Ctx :=
  { c with
    dataBuffer := c.dataBuffer.write c.index.toNat data
    crc := crc16UpdateBlock c.crc data
    index := UInt16.ofNat (c.index.toNat + data.length)
    len := UInt16.ofNat (c.len.toNat - data.length)
    lastRxTick := now }

/-- The 0xE8 parser with the shortcuts of `comm_run_buffer`. -/
def parser (net : Network) (printf : Output) : BlockParser Node UInt32 UInt8 where
  step := commRun net printf
  idle s := s.ctx.status = .sop
  marker b := b == commSopByte
  awaited s := if s.ctx.status = .data then s.ctx.len.toNat else 0
  copy now data s := { s with ctx := s.ctx.copyData now data }

/-- `comm_run_buffer` -/
def commRunBuffer (net : Network) (printf : Output) : UInt32 → List UInt8 → Node → Node :=
  (parser net printf).runBuffer

end Atoman.Comm
