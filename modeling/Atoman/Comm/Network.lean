import Atoman.Lib.Memory

/-!
# Frames, commands and routes

The data both serial protocols share: the decoded frame, the list of registered
commands with its move-to-front search, the routes and links, and the CRC. A
transmit function is a number, `none` where the link has no interface or the
interface no transmit function; a callback is a number too. What nodes do to the
outside is a list of events.
-/

namespace Atoman.Comm
open Lib

/-- What the payload pointer of a frame points to. -/
inductive DataRef
  | null | buffer | candidate
  deriving DecidableEq, Repr

/-- `section_packform_t` -/
structure Pack where
  sop : UInt8
  version : UInt8
  src : UInt8
  dSrc : UInt8
  dst : UInt8
  dDst : UInt8
  cmdSet : UInt8
  cmdWord : UInt8
  isAck : UInt8
  len : UInt16
  pData : DataRef
  crc : UInt16
  eop : UInt16
  seq : UInt8
  deriving DecidableEq, Repr

/-- `section_packform_t` as a handler sees it, without the pointer to the payload -/
structure Packet where
  sop : UInt8
  version : UInt8
  src : UInt8
  d_src : UInt8
  dst : UInt8
  d_dst : UInt8
  cmd_set : UInt8
  cmd_word : UInt8
  is_ack : UInt8
  len : UInt16
  crc : UInt16
  eop : UInt16
  seq : UInt8
  deriving DecidableEq

/-- The frame cache of a declared context, all zero. -/
def Pack.zero : Pack := ⟨0, 0, 0, 0, 0, 0, 0, 0, 0, 0, .null, 0, 0, 0⟩

/-- A transmit function, if the interface has one. -/
abbrev Output := Option ℕ

/-- `section_link_t` -/
structure Link where
  linkId : UInt8
  output : Output
  deriving DecidableEq, Repr

/-- `comm_route_t` -/
structure Route where
  srcLinkId : UInt8
  dstLinkId : UInt8
  dstAddr : UInt8
  deriving DecidableEq, Repr

/-- A callback call or a transmission. -/
inductive Event
  | dispatched (func : ℕ) (printf : Output) (pack : Pack) (payload : List UInt8)
  | sent (output : ℕ) (bytes : List UInt8)
  deriving DecidableEq, Repr

/-- Routes, links and the registered callbacks. A callback may change the frame and
the buffer behind it; what it does may depend on everything that happened before. -/
structure Network where
  routes : List Route
  links : List Link
  callback : List Event → ℕ → Pack → Memory UInt8 → Pack × Memory UInt8

/-- Transmit, when there is a transmit function. -/
def transmit (output : Output) (bytes : List UInt8) : List Event :=
  match output with
  | none => []
  | some o => [.sent o bytes]

/-- `find_link_by_id` -/
def Network.findLinkById (net : Network) (linkId : UInt8) : Option Link :=
  net.links.find? fun l => l.linkId == linkId

/-- The first route for a frame of this link and destination. -/
def Network.findRoute (net : Network) (linkId dst : UInt8) : Option Route :=
  net.routes.find? fun r => linkId == r.srcLinkId && dst == r.dstAddr

/-! ## Commands -/

/-- A list item with the `section_com_t` it points to; `item` is its address. -/
structure CommandItem where
  item : ℕ
  cmdSet : UInt8
  cmdWord : UInt8
  func : Option ℕ
  deriving DecidableEq, Repr

/-- `p_comm_command_first` with the items behind it, and `p_comm_command_tail`. -/
structure CommandList where
  items : List CommandItem
  tail : Option ℕ
  deriving DecidableEq, Repr

/-- The item is registered for the command. -/
def CommandItem.isFor (i : CommandItem) (cmdSet cmdWord : UInt8) : Bool :=
  i.cmdSet == cmdSet && i.cmdWord == cmdWord

/-- `find_comm_func`: the item found moves to the front; `before` are the items
already passed, the last one first. -/
def findCommFuncFrom (tail : Option ℕ) (cmdSet cmdWord : UInt8) (before : List CommandItem) :
    List CommandItem → Option ℕ × CommandList
  | [] => (none, ⟨before.reverse, tail⟩)
  | i :: rest =>
    if i.isFor cmdSet cmdWord then
      match before with
      | [] => (i.func, ⟨i :: rest, tail⟩)
      | prev :: _ =>
        (i.func, ⟨i :: (before.reverse ++ rest),
          if tail = some i.item then some prev.item else tail⟩)
    else findCommFuncFrom tail cmdSet cmdWord (i :: before) rest

/-- `find_comm_func` -/
def CommandList.findCommFunc (c : CommandList) (cmdSet cmdWord : UInt8) :
    Option ℕ × CommandList :=
  findCommFuncFrom c.tail cmdSet cmdWord [] c.items

/-- `comm_v1_find_func`: the plain search. -/
def CommandList.findFunc (c : CommandList) (cmdSet cmdWord : UInt8) : Option ℕ :=
  (c.items.find? fun i => i.isFor cmdSet cmdWord).bind (·.func)

/-! ## CRC -/

/-- One bit of a table entry: the CRC so far and the bits still to come. -/
def crc16Bit (state : UInt16 × UInt16) : UInt16 × UInt16 :=
  let crc := state.1
  let c := state.2
  (if (crc ^^^ c) &&& 0x8000 ≠ 0 then (crc <<< 1) ^^^ 0x1021 else crc <<< 1, c <<< 1)

/-- `crc16_table` -/
def crc16Table (index : UInt8) : UInt16 := (crc16Bit^[8] (0, index.toUInt16 <<< 8)).1

/-- `crc16_init` -/
def crc16Init : UInt16 := 0xFFFF

/-- `crc16_update` -/
def crc16Update (crc : UInt16) (data : UInt8) : UInt16 :=
  (crc <<< 8) ^^^ crc16Table ((crc >>> 8).toUInt8 ^^^ data)

/-- `crc16_final` -/
def crc16Final (crc : UInt16) : UInt16 := crc

/-- `crc16_update_block` -/
def crc16UpdateBlock (crc : UInt16) (data : List UInt8) : UInt16 := data.foldl crc16Update crc

end Atoman.Comm
