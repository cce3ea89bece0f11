import Atoman.Comm.Delivery
import Atoman.Comm.V1Moves
import Mathlib.Algebra.Group.Nat.Defs
import Mathlib.Order.Basic

/-!
# Routed frames, 0xE9

What a completed frame for another node causes. Its checksum is checked but not
captured, so that what is sent on ends in front of it; and a codec negotiation is
answered before its destination is looked at.
-/

namespace Atoman.Comm.V1
open Lib

variable {net : Network} {printf : Output}

/-! ## The answer to a negotiation -/

theorem field_toUInt8_lt (msg : UInt32) {k mask : UInt32} (w : ℕ) (hk : k.toNat < 32)
    (hmask : mask.toNat = 2 ^ w - 1) : (field msg k mask).toUInt8.toNat < 2 ^ w := by
  rw [UInt32.toNat_toUInt8, field_toNat msg k w hk hmask]
  exact (Nat.mod_le _ _).trans_lt (Nat.mod_lt _ (Nat.two_pow_pos w))

/-- A field in two parts, `v` and `w` bits long. -/
theorem split_field_lt (msg : UInt32) {k l shift mask mask' : UInt32} (v w : ℕ) (hk : k.toNat < 32)
    (hl : l.toNat < 32) (hmask : mask.toNat = 2 ^ v - 1) (hmask' : mask'.toNat = 2 ^ w - 1)
    (hshift : shift.toNat = v) :
    (field msg k mask ||| (field msg l mask' <<< shift)).toUInt8.toNat < 2 ^ (v + w) := by
  have hlo : (field msg k mask).toNat < 2 ^ (v + w) := by
    rw [field_toNat msg k v hk hmask]
    exact (Nat.mod_lt _ (Nat.two_pow_pos v)).trans_le (Nat.pow_le_pow_right (by decide) (by omega))
  have hhi : (field msg l mask' <<< shift).toNat < 2 ^ (v + w) := by
    rw [UInt32.toNat_shiftLeft, field_toNat msg l w hl hmask', hshift, Nat.shiftLeft_eq]
    calc msg.toNat / 2 ^ l.toNat % 2 ^ w * 2 ^ (v % 32) % 2 ^ 32
        ≤ msg.toNat / 2 ^ l.toNat % 2 ^ w * 2 ^ (v % 32) := Nat.mod_le _ _
      _ ≤ msg.toNat / 2 ^ l.toNat % 2 ^ w * 2 ^ v :=
        Nat.mul_le_mul_left _ (Nat.pow_le_pow_right (by decide) (Nat.mod_le v 32))
      _ < 2 ^ w * 2 ^ v :=
        Nat.mul_lt_mul_of_pos_right (Nat.mod_lt _ (Nat.two_pow_pos w)) (Nat.two_pow_pos v)
      _ = 2 ^ (v + w) := by rw [← Nat.pow_add, Nat.add_comm]
  rw [UInt32.toNat_toUInt8, UInt32.toNat_or]
  exact (Nat.mod_le _ _).trans_lt (Nat.or_lt_two_pow hlo hhi)

/-- The pack of the answer to a negotiation. -/
def answerPack (pack : Pack) : Pack :=
  { sop := sopByte, version := version, src := pack.dst, dSrc := pack.dDst, dst := pack.src
    dDst := pack.dSrc, cmdSet := 0, cmdWord := 0, isAck := 1, len := 8, pData := .buffer, crc := 0
    eop := 0, seq := pack.seq }

/-- The header fields of an answer are in range. -/
theorem sendAccepts_answerPack (p : Pack) (msg : UInt32) :
    sendAccepts (answerPack (extract p msg)) = true := by
  have hseq : (field msg 0 0x07).toUInt8.toNat < 2 ^ 3 :=
    field_toUInt8_lt msg 3 (by decide) rfl
  have hdst : (field msg 3 0x0F).toUInt8.toNat < 2 ^ 4 :=
    field_toUInt8_lt msg 4 (by decide) rfl
  have hsrc : (field msg 10 0x0F).toUInt8.toNat < 2 ^ 4 :=
    field_toUInt8_lt msg 4 (by decide) rfl
  have hdDst : (field msg 7 0x01 ||| (field msg 8 0x03 <<< 1)).toUInt8.toNat < 2 ^ (1 + 2) :=
    split_field_lt msg 1 2 (by decide) (by decide) rfl rfl rfl
  have hdSrc : (field msg 14 0x03 ||| (field msg 16 0x01 <<< 2)).toUInt8.toNat < 2 ^ (2 + 1) :=
    split_field_lt msg 2 1 (by decide) (by decide) rfl rfl rfl
  have hseq' : (msg &&& 0x07).toUInt8.toNat < 8 := by simpa [field] using hseq
  have hlen : (8 : UInt16).toNat ≤ maxData := by decide
  simp only [sendAccepts, answerPack, extract, Bool.and_eq_true, decide_eq_true_eq,
    UInt8.le_iff_toNat_le]
  refine ⟨⟨⟨⟨⟨⟨⟨⟨⟨rfl, decide_eq_true hlen⟩, rfl⟩, ?_⟩, ?_⟩, ?_⟩, ?_⟩, ?_⟩, by decide⟩, by decide⟩
  · exact Nat.le_of_lt_succ hseq'
  · exact Nat.le_of_lt_succ hdst
  · exact Nat.le_of_lt_succ hsrc
  · exact Nat.le_of_lt_succ hdDst
  · exact Nat.le_of_lt_succ hdSrc

namespace Frame
variable (f : Frame)

/-- The frame is an answer. -/
def isAnswer : Bool := (extract .zero f.msg).isAck ≠ 0

/-- The header of the answer to the frame. -/
def answerMsg : UInt32 := msgWord (answerPack (extract .zero f.msg)) codecRaw 0 1

/-- The answer to the frame. -/
def answer : Frame :=
  ⟨msgByte f.answerMsg 0, msgByte f.answerMsg 8, msgByte f.answerMsg 16, msgByte f.answerMsg 24,
    codecSelectResponse⟩

theorem frameBytes_answerPack :
    frameBytes (answerPack (extract .zero f.msg)) codecSelectResponse = f.answer.bytes := by
  have hraw : selectCodec true codecSelectResponse = (codecRaw, codecSelectResponse) := by
    simp [selectCodec]
  have hne : codecSelectResponse ≠ [] := List.cons_ne_nil _ _
  simp only [frameBytes, hne, if_false, show isCodecSelect (answerPack (extract .zero f.msg)) = true
    from rfl, hraw, msgBytes_eq]
  rfl

/-- The answer is marked as one and bears the address of the destination. -/
theorem extract_answer (p : Pack) :
    (extract p f.answer.msg).isAck = 1 ∧ (extract p f.answer.msg).src = (extract p f.msg).dst := by
  have hmsg : f.answer.msg = f.answerMsg := joinBytes_msgBytes f.answerMsg
  have hfits : HeaderFits (answerPack (extract .zero f.msg)) codecRaw 0 1 :=
    headerFits_of_sendAccepts (sendAccepts_answerPack .zero f.msg) codecRaw 0 1 (by decide)
      (by decide) (by decide)
  rw [hmsg, answerMsg, extract_msgWord hfits]
  exact ⟨rfl, rfl⟩

/-- A negotiation is answered, an answer is not. -/
theorem codecSelectHandle_eq (c : Ctx) (raw : List UInt8) (printf : Output) :
    ({ c with pack := f.pack raw } : Ctx).codecSelectHandle printf =
      if f.isAnswer then [] else transmit printf f.answer.bytes := by
  have hslice : Memory.slice (fun i => codecSelectResponse.getD i 0) 0 8 = codecSelectResponse := by
    decide +kernel
  have hack : (f.pack raw).isAck = (extract .zero f.msg).isAck := rfl
  by_cases hanswer : (extract .zero f.msg).isAck = 0
  · rw [if_neg (by simp [isAnswer, hanswer]), Ctx.codecSelectHandle,
      if_neg (by simp [hack, hanswer])]
    show send (answerPack (extract .zero f.msg)) (fun i => codecSelectResponse.getD i 0) printf = _
    rw [send, if_pos (sendAccepts_answerPack _ _), ← f.frameBytes_answerPack]
    exact congrArg (transmit printf ∘ frameBytes _) hslice
  · rw [if_pos (by simp [isAnswer, hanswer]), Ctx.codecSelectHandle,
      if_pos (by simp [hack, hanswer])]

variable {f}

/-- An answer starts otherwise than what it answers. -/
theorem answer_ne (hreq : f.isAnswer = false) (rest : List UInt8) :
    f.answer.bytes ≠ f.head ++ rest := by
  intro h
  have hhead : f.answer.head = f.head := by
    rw [bytes, body, List.append_assoc] at h
    exact (List.append_inj h rfl).1
  have hmsg : f.answer.msg = f.msg := by
    simp only [head, List.cons.injEq, and_true, true_and] at hhead
    unfold msg
    rw [hhead.1, hhead.2.1, hhead.2.2.1, hhead.2.2.2]
  have hack := (f.extract_answer .zero).1
  rw [hmsg] at hack
  simp [isAnswer, hack] at hreq

theorem answer_ne_body (hreq : f.isAnswer = false) : f.answer.bytes ≠ f.body := answer_ne hreq _

theorem answer_ne_bytes (hreq : f.isAnswer = false) : f.answer.bytes ≠ f.bytes := by
  show f.answer.bytes ≠ f.body ++ [sumEncode f.body]
  rw [show f.body = f.head ++ _ from rfl, List.append_assoc]
  exact answer_ne hreq _

end Frame

/-! ## Transit -/

/-- The frame is complete with this move, valid, and for another node. -/
structure InTransit (net : Network) (m : Move Node UInt32 UInt8) (f : Frame) : Prop where
  received_eq : m.received = f.bytes
  valid : ∃ raw, f.Valid net m.before.ctx raw
  other : f.isLocal m.before.ctx = false

/-- The bytes sent on an output. -/
def sentOn (output : ℕ) (events : List Event) : List (List UInt8) :=
  events.filterMap fun
    | .sent o bytes => if o = output then some bytes else none
    | .dispatched .. => none

theorem sentOn_transmit (output : ℕ) (printf : Output) (bytes : List UInt8) :
    sentOn output (transmit printf bytes) = if printf = some output then [bytes] else [] := by
  cases printf with
  | none => rfl
  | some o => by_cases ho : o = output <;> simp [sentOn, transmit, ho]

/-- **What a frame in transit causes**: a negotiation is answered, everything else is
sent on up to the checksum. -/
theorem transit_emitted {calls : List (Call UInt32 UInt8)} {s : Node} (hs : s.ctx.status = .idle)
    {m : Move Node UInt32 UInt8} (hm : m ∈ (parser net printf).moves expired calls s) {f : Frame}
    (h : InTransit net m f) :
    m.emitted Node.log =
      if f.negotiates then (if f.isAnswer then [] else transmit printf f.answer.bytes)
      else transmit (outputTo net m.before.ctx.linkId f.dst) f.body := by
  obtain ⟨hreceived, ⟨raw, hvalid⟩, hother⟩ := h
  rcases moves_sound net printf calls hs m hm with hsilent | ⟨g, raw', hdone⟩
  · exact absurd hreceived (hsilent.received_ne f raw hvalid)
  · obtain rfl := Frame.bytes_inj hvalid.command_iff hdone.valid.command_iff hvalid.length_le
      hdone.valid.length_le (hreceived.symm.trans hdone.received_eq)
    rw [Move.emitted, hdone.log_eq, List.drop_left, Frame.effects]
    split
    · exact f.codecSelectHandle_eq _ _ _
    · rw [if_neg (by simp [hother])]

/-- A frame without its checksum is no frame. -/
theorem Frame.body_ne_bytes {f g : Frame} (hf : f.isCommand ↔ f.payload = [])
    (hg : g.isCommand ↔ g.payload = []) (hfl : f.payload.length ≤ maxData)
    (hgl : g.payload.length ≤ maxData) : f.body ≠ g.bytes := by
  intro h
  obtain ⟨hflag, hrest⟩ := Frame.head_eq (g := f) h
  by_cases hp : f.payload = []
  · rw [if_pos hp] at hrest
    exact absurd hrest.symm (by simp)
  · have hq : g.payload ≠ [] := fun hnil => by
      rw [hg.mpr hnil] at hflag
      exact hp (hf.mp hflag)
    rw [if_neg hp, if_neg hq, List.cons_append] at hrest
    obtain ⟨hbyte, hrest⟩ := List.cons.inj hrest
    have hlength := congrArg List.length hrest
    rw [List.length_append, ← Frame.lengthByte_len hp hfl, hbyte, Frame.lengthByte_len hq hgl]
      at hlength
    simp at hlength

/-- **Routing loses the checksum.** In every run, the bytes that a frame in transit
causes on the link it is routed to are never the bytes of the frame. If it is no
negotiation they end in front of its checksum, and are no frame. -/
theorem transit_frame_truncated (net : Network) (printf : Output) (calls : List (Call UInt32 UInt8))
    (s : Node) (hs : s.ctx.status = .idle) (m : Move Node UInt32 UInt8)
    (hm : m ∈ (parser net printf).moves expired calls s) (f : Frame) (h : InTransit net m f)
    (output : ℕ) (hlink : outputTo net m.before.ctx.linkId f.dst = some output) :
    sentOn output (m.emitted Node.log) ≠ [f.bytes] ∧
      (f.negotiates = false → sentOn output (m.emitted Node.log) = [f.body] ∧
        ∀ (net' : Network) c g raw, Frame.Valid g net' c raw → f.body ≠ g.bytes) := by
  rw [transit_emitted hs hm h]
  obtain ⟨-, ⟨raw, hvalid⟩, -⟩ := h
  have hbody : ∀ (net' : Network) c g raw, Frame.Valid g net' c raw → f.body ≠ g.bytes :=
    fun _ _ _ _ hg => Frame.body_ne_bytes hvalid.command_iff hg.command_iff hvalid.length_le
      hg.length_le
  cases hneg : f.negotiates
  case false =>
    simp only [Bool.false_eq_true, if_false, sentOn_transmit, hlink, if_true]
    exact ⟨fun hbytes => hbody net _ f raw hvalid (List.cons.inj hbytes).1,
      fun _ => ⟨trivial, hbody⟩⟩
  case true =>
    refine ⟨?_, fun h => absurd h (by decide)⟩
    cases hanswer : f.isAnswer
    · simp only [if_true, Bool.false_eq_true, if_false, sentOn_transmit]
      split
      · exact fun hbytes => Frame.answer_ne_bytes hanswer (List.cons.inj hbytes).1
      · exact (List.cons_ne_nil _ _).symm
    · simp [sentOn]

/-- A node with address 1 on link 3. -/
def routeNode : Node := ⟨.declare 1 0 3, ⟨[], none⟩, []⟩

/-- A frame for address 9 with one payload byte. -/
def routeFrame : Frame := ⟨0x4B, 0x08, 0x42, 0x00, [0x55]⟩

/-- The frame arrives byte by byte at one tick. -/
def frameCalls (f : Frame) : List (Call UInt32 UInt8) := f.bytes.map (Call.one 0)

/-- The last move of a frame that arrives at `routeNode`. -/
def lastMove (printf : Output) (f : Frame) : Option (Move Node UInt32 UInt8) :=
  ((parser routeNetwork printf).moves expired (frameCalls f) routeNode).getLast?

/-- What a move has received, and what a frame is checked against in front of it. -/
def checked (m : Move Node UInt32 UInt8) : List UInt8 × List UInt8 × UInt16 × Bool :=
  (m.received, [m.before.ctx.src, m.before.ctx.dSrc, m.before.ctx.linkId, m.before.ctx.lastSeq],
    m.before.ctx.candidateSize, m.before.ctx.lastSeqValid)

theorem inTransit_lastMove {m : Move Node UInt32 UInt8} {f : Frame} {raw : List UInt8}
    (hm : lastMove printf f = some m)
    (hchecked : (lastMove printf f).map checked = some (f.bytes, [1, 0, 3, 0], 256, false))
    (hvalid : f.Valid routeNetwork routeNode.ctx raw) (hother : f.isLocal routeNode.ctx = false) :
    InTransit routeNetwork m f := by
  rw [hm] at hchecked
  simp only [Option.map_some, checked, Option.some.injEq, Prod.mk.injEq, List.cons.injEq, and_true]
    at hchecked
  obtain ⟨hreceived, ⟨hsrc, hdSrc, hlink, hseq⟩, hsize, hseqValid⟩ := hchecked
  exact ⟨hreceived, ⟨raw, hvalid.congr hsrc hdSrc hlink hsize hseq hseqValid⟩,
    (f.isLocal_congr hsrc).trans hother⟩

theorem routeFrame_valid : routeFrame.Valid routeNetwork routeNode.ctx [0x55] :=
  ⟨⟨by decide, by decide, by decide, by decide, by decide⟩, by decide, by decide, by decide⟩

theorem transit_frame_truncated_demo :
    ∃ m ∈ (parser routeNetwork none).moves expired (frameCalls routeFrame) routeNode,
      InTransit routeNetwork m routeFrame ∧ sentOn 5 (m.emitted Node.log) = [routeFrame.body] := by
  obtain ⟨m, hm⟩ : ∃ m, lastMove none routeFrame = some m :=
    Option.isSome_iff_exists.mp (by decide +kernel)
  have htransit : InTransit routeNetwork m routeFrame :=
    inTransit_lastMove hm (by decide +kernel) routeFrame_valid (by decide)
  have hmem := List.mem_of_getLast? hm
  have hlink : (lastMove none routeFrame).map (fun m => m.before.ctx.linkId) = some 3 := by
    decide +kernel
  rw [hm, Option.map_some, Option.some.injEq] at hlink
  exact ⟨m, hmem, htransit, (transit_frame_truncated routeNetwork none _ routeNode rfl m hmem
    routeFrame htransit 5 (by rw [hlink]; decide)).2 (by decide) |>.1⟩

/-- The frame is valid, for another node and routed to output 5; what is sent there is
the frame without its last byte. -/
theorem routed_frame_truncated :
    routeFrame.Valid routeNetwork routeNode.ctx [0x55] ∧
    routeFrame.isLocal routeNode.ctx = false ∧
    outputTo routeNetwork routeNode.ctx.linkId routeFrame.dst = some 5 ∧
    routeFrame.bytes = [0xE9, 0x4B, 0x08, 0x42, 0x00, 0x01, 0x55, 0xD4] ∧
    ((parser routeNetwork none).calls (frameCalls routeFrame) routeNode).log =
      [.sent 5 [0xE9, 0x4B, 0x08, 0x42, 0x00, 0x01, 0x55]] ∧
    ¬ sentOn 5 ((parser routeNetwork none).calls (frameCalls routeFrame) routeNode).log =
      [routeFrame.bytes] :=
  ⟨routeFrame_valid, by decide, by decide, by decide +kernel, by decide +kernel, by decide +kernel⟩

/-! ## Negotiations in transit -/

/-- A frame in transit is only sent on, as far as it is captured. -/
def OnlyForwarded (net : Network) (m : Move Node UInt32 UInt8) (f : Frame) : Prop :=
  m.emitted Node.log = transmit (outputTo net m.before.ctx.linkId f.dst) f.body

/-- **A node acts on negotiations in transit.** In every run, a frame in transit is
only sent on if and only if it is no negotiation, or one that has no effect for want
of outputs: it cannot be sent on, and is an answer or cannot be answered. -/
theorem transit_only_forwarded (net : Network) (printf : Output) (calls : List (Call UInt32 UInt8))
    (s : Node) (hs : s.ctx.status = .idle) (m : Move Node UInt32 UInt8)
    (hm : m ∈ (parser net printf).moves expired calls s) (f : Frame) (h : InTransit net m f) :
    OnlyForwarded net m f ↔
      (f.negotiates → outputTo net m.before.ctx.linkId f.dst = none ∧
        (f.isAnswer ∨ printf = none)) := by
  rw [OnlyForwarded, transit_emitted hs hm h]
  cases hneg : f.negotiates
  case false => simp
  case true =>
    simp only [if_true, forall_const]
    cases hanswer : f.isAnswer
    case true =>
      cases hout : outputTo net m.before.ctx.linkId f.dst <;> simp [transmit]
    case false =>
      cases hout : outputTo net m.before.ctx.linkId f.dst with
      | none => cases printf <;> simp [transmit]
      | some o =>
        cases printf with
        | none => simp [transmit]
        | some p =>
          simp only [Bool.false_eq_true, if_false, transmit, List.cons.injEq, Event.sent.injEq,
            and_true, reduceCtorEq, false_and, iff_false, not_and]
          exact fun _ => Frame.answer_ne_body hanswer

theorem transit_only_forwarded_demo :
    ∃ m ∈ (parser routeNetwork none).moves expired (frameCalls routeFrame) routeNode,
      InTransit routeNetwork m routeFrame ∧ OnlyForwarded routeNetwork m routeFrame := by
  obtain ⟨m, hm⟩ : ∃ m, lastMove none routeFrame = some m :=
    Option.isSome_iff_exists.mp (by decide +kernel)
  have htransit : InTransit routeNetwork m routeFrame :=
    inTransit_lastMove hm (by decide +kernel) routeFrame_valid (by decide)
  have hmem := List.mem_of_getLast? hm
  exact ⟨m, hmem, htransit, (transit_only_forwarded routeNetwork none _ routeNode rfl m hmem
    routeFrame htransit).mpr fun h => absurd h (by decide)⟩

/-- A codec negotiation for address 9. -/
def negotiation : Frame := ⟨0x4B, 0x08, 0x00, 0x00, [0x01]⟩

/-- The negotiation is valid, for another node and routed to output 5, but nothing is
sent there; the node answers on the output 6 it came from, in the name of address 9. -/
theorem routed_negotiation_answered :
    negotiation.Valid routeNetwork routeNode.ctx [0x01] ∧
    negotiation.isLocal routeNode.ctx = false ∧
    outputTo routeNetwork routeNode.ctx.linkId negotiation.dst = some 5 ∧
    ((parser routeNetwork (some 6)).calls (frameCalls negotiation) routeNode).log =
      [.sent 6 negotiation.answer.bytes] ∧
    (extract .zero negotiation.answer.msg).src = 9 ∧
    ∃ m ∈ (parser routeNetwork (some 6)).moves expired (frameCalls negotiation) routeNode,
      InTransit routeNetwork m negotiation ∧ ¬ OnlyForwarded routeNetwork m negotiation := by
  have hvalid : negotiation.Valid routeNetwork routeNode.ctx [0x01] :=
    ⟨⟨by decide, by decide, by decide, by decide, by decide⟩, by decide, by decide, by decide⟩
  refine ⟨hvalid, by decide, by decide, by decide +kernel, by decide +kernel, ?_⟩
  obtain ⟨m, hm⟩ : ∃ m, lastMove (some 6) negotiation = some m :=
    Option.isSome_iff_exists.mp (by decide +kernel)
  refine ⟨m, List.mem_of_getLast? hm,
    inTransit_lastMove hm (by decide +kernel) hvalid (by decide), fun h => ?_⟩
  have hsent :
      (lastMove (some 6) negotiation).map (fun m => (m.emitted Node.log, m.before.ctx.linkId))
        = some ([.sent 6 negotiation.answer.bytes], 3) := by decide +kernel
  rw [hm, Option.map_some, Option.some.injEq, Prod.mk.injEq] at hsent
  rw [OnlyForwarded, hsent.1, hsent.2] at h
  exact absurd h (by decide +kernel)

end Atoman.Comm.V1
