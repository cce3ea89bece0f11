import Atoman.Codec.Bounds
import Atoman.Comm.V1Frames

/-!
# The moves of the 0xE9 parser

Every move of every run either does nothing to the outside and keeps the last
sequence number, or completes a valid frame: the bytes received since the idle state
are its bytes, its payload can be decoded, and what it asks for happens.
-/

namespace Atoman.Comm.V1
open Lib

variable {net : Network} {printf : Output}

/-! ## What a frame asks for -/

/-- The transmit function of the link that the route leads to. -/
def outputTo (net : Network) (linkId dst : UInt8) : Output :=
  (net.findRoute linkId dst).bind fun r => (net.findLinkById r.dstLinkId).bind (·.output)

theorem Ctx.routeForward_eq (c : Ctx) (net : Network) :
    c.routeForward net = transmit (outputTo net c.linkId c.pack.dst) c.wire := by
  unfold Ctx.routeForward outputTo
  cases net.findRoute c.linkId c.pack.dst with
  | none => rfl
  | some r => cases h : net.findLinkById r.dstLinkId <;> simp [h, transmit]

namespace Frame
variable (f : Frame)

/-- The frame negotiates the codec. -/
def negotiates : Bool := isCodecSelect (extract .zero f.msg)

/-- The callback for the command of the frame. -/
def handler (commands : CommandList) : Option ℕ :=
  commands.findFunc (extract .zero f.msg).cmdSet (extract .zero f.msg).cmdWord

/-- What the frame causes: a negotiation is answered, a frame for another node is sent
on, and one for this node is dispatched if its command has a callback. -/
def effects (net : Network) (c : Ctx) (commands : CommandList) (printf : Output)
    (raw : List UInt8) : List Event :=
  if f.negotiates then ({ c with pack := f.pack raw } : Ctx).codecSelectHandle printf
  else if f.isLocal c then
    match f.handler commands with
    | none => []
    | some func => [.dispatched func printf (f.pack raw) raw]
  else transmit (outputTo net c.linkId f.dst) f.body

/-- A frame whose command nobody handles does not count. -/
def remembered (c : Ctx) (commands : CommandList) : Bool :=
  f.negotiates || !f.isLocal c || (f.handler commands).isSome

end Frame

/-- What the context remembers of the last valid frame. -/
def Ctx.history (c : Ctx) : UInt8 × Bool := (c.lastSeq, c.lastSeqValid)

/-- A move completes a valid frame. -/
structure Completes (net : Network) (printf : Output) (m : Move Node UInt32 UInt8) (f : Frame)
    (raw : List UInt8) : Prop where
  received_eq : m.received = f.bytes
  valid : f.Valid net m.before.ctx raw
  log_eq : m.after.log = m.before.log ++ f.effects net m.before.ctx m.before.commands printf raw
  history_eq : m.after.ctx.history =
    if f.remembered m.before.ctx m.before.commands then (f.seq, true) else m.before.ctx.history

/-- A move does nothing to the outside, and what is received is no whole valid frame. -/
structure Silent (net : Network) (m : Move Node UInt32 UInt8) : Prop where
  log_eq : m.after.log = m.before.log
  history_eq : m.after.ctx.history = m.before.ctx.history
  received_ne : ∀ (f : Frame) raw, f.Valid net m.before.ctx raw → m.received ≠ f.bytes

/-- What a move may do: nothing, or complete a valid frame. -/
def Sound (net : Network) (printf : Output) (m : Move Node UInt32 UInt8) : Prop :=
  Silent net m ∨ ∃ f raw, Completes net printf m f raw

/-! ## The checksum -/

/-- What is decoded fits the buffer, and is at most 256 bytes. -/
theorem decodeData_length {codec : UInt8} {input raw : List UInt8} {capacity : ℕ}
    (h : decodeData codec input capacity = some raw) :
    raw.length ≤ capacity ∧ raw.length ≤ maxData := by
  have hlimit : ∀ {n : ℕ}, n < 257 → n ≤ maxData := fun h => Nat.le_of_lt_succ h
  unfold decodeData at h
  split at h
  · exact (Codec.Dict.decode_length h).imp_right hlimit
  · split at h
    · exact (Codec.Rle.decode_length h).imp_right hlimit
    · split at h
      · exact (Codec.Lzss.decode_length h).imp_right hlimit
      · split at h
        · exact (Codec.Zero.decode_length h).imp_right hlimit
        · exact absurd h (by simp)

/-- The context once the payload of the frame is decoded. -/
structure Decoded (c : Ctx) (f : Frame) (raw : List UInt8) (d : Ctx) : Prop where
  decode_eq : c.decodePayload = some d
  decodes : if f.codec = codecRaw then raw = f.payload
    else decodeData f.codec f.payload c.candidateSize.toNat = some raw
  pack_eq : { d.pack with crc := 0, eop := 0 } = f.pack raw
  data_eq : d.dataMemory.slice 0 d.pack.len.toNat = raw
  same : d.isRoute = c.isRoute ∧ d.src = c.src ∧ d.linkId = c.linkId ∧ d.wire = c.wire ∧
    d.history = c.history

variable (net) in
/-- The payload of a frame is decoded, or no payload makes the frame valid. -/
theorem Ctx.decodePayload_spec {c : Ctx} {f : Frame} (hmsg : c.msg = f.msg)
    (hpack : ∃ p, c.pack = extract p f.msg)
    (hslice : c.dataBuffer.slice 0 c.index.toNat = f.payload) :
    (c.decodePayload = none ∧ ∀ raw, ¬ f.Valid net c raw) ∨ ∃ raw d, Decoded c f raw d := by
  obtain ⟨p, hp⟩ := hpack
  have hcodec : (field c.msg 27 0x07).toUInt8 = f.codec := by rw [hmsg, f.field_codec]
  by_cases hraw : f.codec = codecRaw
  · have hidx : UInt16.ofNat f.payload.length = c.index := by
      rw [← hslice, Memory.length_slice]; exact UInt16.ofNat_toNat
    refine Or.inr ⟨f.payload, { c with pack := { c.pack with pData := .buffer, len := c.index } },
      ?_, by rw [if_pos hraw], ?_, hslice, rfl, rfl, rfl, rfl, rfl⟩
    · simp only [Ctx.decodePayload, hcodec, hraw, ne_eq, not_true_eq_false, if_false]
    · simp only [Frame.pack, if_pos hraw, hidx, hp]
      rfl
  · cases hdec : decodeData f.codec f.payload c.candidateSize.toNat with
    | none =>
      refine Or.inl ⟨?_, fun raw hvalid => ?_⟩
      · simp only [Ctx.decodePayload, hcodec, ne_eq, hraw, not_false_eq_true, if_true, hslice, hdec,
          Option.map_none]
      · have := hvalid.decodes
        rw [if_neg hraw, hdec] at this
        exact absurd this (by simp)
    | some raw =>
      have hlen := (decodeData_length hdec).2
      have hval : (UInt16.ofNat raw.length).toNat = raw.length := by
        simp only [maxData] at hlen
        rw [UInt16.toNat_ofNat']; omega
      refine Or.inr ⟨raw, { c with
        candidateBuffer := c.candidateBuffer.write 0 raw
        pack := { c.pack with pData := .candidate, len := UInt16.ofNat raw.length } },
        ?_, by rw [if_neg hraw, hdec], ?_, ?_, rfl, rfl, rfl, rfl, rfl⟩
      · simp only [Ctx.decodePayload, hcodec, ne_eq, hraw, not_false_eq_true, if_true, hslice, hdec,
          Option.map_some]
      · simp only [Frame.pack, if_neg hraw, hp]
        rfl
      · show (c.candidateBuffer.write 0 raw).slice 0 (UInt16.ofNat raw.length).toNat = raw
        rw [hval]
        exact Memory.slice_write_self _ 0 raw

theorem Node.callFunc_history (s : Node) (func : ℕ) :
    (s.callFunc net printf func).ctx.history = s.ctx.history := by
  unfold Node.callFunc
  dsimp only
  split <;> rfl

variable (net printf) in
/-- **What a valid frame causes.** -/
theorem Node.deliver_spec {s : Node} {f : Frame} {raw : List UInt8}
    (hpack : { s.ctx.pack with crc := 0, eop := 0 } = f.pack raw)
    (hroute : s.ctx.isRoute = !f.isLocal s.ctx) (hwire : s.ctx.wire = f.body)
    (hdata : s.ctx.dataMemory.slice 0 s.ctx.pack.len.toNat = raw) :
    (s.deliver net printf).log = s.log ++ f.effects net s.ctx s.commands printf raw ∧
      (s.deliver net printf).ctx.history =
        if f.remembered s.ctx s.commands then (f.seq, true) else s.ctx.history := by
  have hneg : isCodecSelect { s.ctx.pack with crc := 0, eop := 0 } = f.negotiates := by
    rw [hpack]; rfl
  have hseq : s.ctx.pack.seq = f.seq := (congrArg Pack.seq hpack).trans (f.extract_seq .zero)
  have hdst : s.ctx.pack.dst = f.dst := (congrArg Pack.dst hpack).trans (f.extract_dst .zero)
  have hcmdSet : s.ctx.pack.cmdSet = (f.pack raw).cmdSet := by rw [← hpack]
  have hcmdWord : s.ctx.pack.cmdWord = (f.pack raw).cmdWord := by rw [← hpack]
  have hhandler : s.commands.findFunc s.ctx.pack.cmdSet s.ctx.pack.cmdWord =
      f.handler s.commands := by
    rw [hcmdSet, hcmdWord]; rfl
  have hseen : (s.ctx.pack.seq, true) = (f.seq, true) := by rw [hseq]
  unfold Node.deliver Frame.effects Frame.remembered
  dsimp only
  rw [hneg]
  cases hn : f.negotiates
  case true =>
    refine ⟨?_, hseen⟩
    have := congrArg (fun p => ({ s.ctx with pack := p } : Ctx).codecSelectHandle printf) hpack
    exact congrArg (s.log ++ ·) this
  case false =>
    cases hl : f.isLocal s.ctx
    case false =>
      have hother : s.ctx.isRoute = true := by rw [hroute, hl]; rfl
      simp only [Bool.false_eq_true, if_false, hother, if_true]
      refine ⟨?_, hseen⟩
      rw [Ctx.routeForward_eq]
      exact congrArg₂ (fun d w => s.log ++ transmit (outputTo net s.ctx.linkId d) w) hdst hwire
    case true =>
      have hlocal : s.ctx.isRoute = false := by rw [hroute, hl]; rfl
      simp only [Bool.false_eq_true, if_false, hlocal, if_true, hhandler]
      cases hh : f.handler s.commands with
      | none => exact ⟨by simp, by simp; rfl⟩
      | some func =>
        refine ⟨?_, ?_⟩
        · exact congrArg₂ (fun p r => s.log ++ [Event.dispatched func printf p r]) hpack hdata
        · exact (Node.callFunc_history _ func).trans hseen

theorem Frame.isLocal_congr (f : Frame) {c d : Ctx} (hsrc : d.src = c.src) :
    f.isLocal d = f.isLocal c := by
  unfold Frame.isLocal
  rw [hsrc]

/-- What a frame causes depends on the addresses of the context only. -/
theorem Frame.effects_congr (f : Frame) {c d : Ctx} (hsrc : d.src = c.src)
    (hlink : d.linkId = c.linkId)
    (commands : CommandList) (raw : List UInt8) :
    f.effects net d commands printf raw = f.effects net c commands printf raw := by
  unfold Frame.effects
  rw [f.isLocal_congr hsrc, hlink]
  rfl

theorem Frame.remembered_congr (f : Frame) {c d : Ctx} (hsrc : d.src = c.src)
    (commands : CommandList) : f.remembered d commands = f.remembered c commands := by
  unfold Frame.remembered
  rw [f.isLocal_congr hsrc]

variable (net printf) in
/-- The checksum byte, where it is the sum. -/
theorem Node.takeSum_eq (s : Node) {b : UInt8} (h : b = sumEncode s.ctx.wire) :
    s.takeSum net printf b = match s.ctx.decodePayload with
      | none => { s with ctx := s.ctx.reset }
      | some c => ({ s with ctx := c } : Node).deliver net printf :=
  if_neg (not_not_intro h)

/-- **The checksum byte** either completes a valid frame or does nothing. -/
theorem Ctx.Progress.takeSum {s : Node} {r : List UInt8} (h : s.ctx.Progress net r) (t : UInt32)
    (b : UInt8) (hst : s.ctx.status = .sum) :
    Sound net printf ⟨s, t, [b], r ++ [b], s.takeSum net printf b⟩ := by
  have hcap := h.captured (by simp [hst])
  have hstage := h.stage
  simp only [Ctx.Stage, hst] at hstage
  obtain ⟨f, rfl, hread, hcmd, hlen, hslice⟩ := hstage
  have hwire : s.ctx.wire = f.body := hcap.wire_eq
  by_cases hb : b = sumEncode f.body
  · have htake := Node.takeSum_eq net printf s (hb.trans (congrArg sumEncode hwire.symm))
    rcases Ctx.decodePayload_spec net hread.msg_eq hread.pack_eq hslice with
      ⟨hnone, hinvalid⟩ | ⟨raw, d, hdecode, hdecodes, hpack, hdata, hsame⟩
    · rw [hnone] at htake
      refine Or.inl ⟨by rw [htake], by rw [htake]; rfl, fun g raw hg hreceived => ?_⟩
      have hfg : f.bytes = g.bytes := by rw [← hreceived, hb]; rfl
      obtain rfl := Frame.bytes_inj hcmd hg.command_iff hlen hg.length_le hfg
      exact hinvalid raw hg
    · obtain ⟨hroute, hsrc, hlink, hwire', hhistory⟩ := hsame
      rw [hdecode] at htake
      have hroute' : d.isRoute = !f.isLocal d := by
        rw [hroute, f.isLocal_congr hsrc, hread.isRoute_eq]
      obtain ⟨hlog, hhist⟩ := Node.deliver_spec net printf
        (s := { s with ctx := d }) hpack hroute' (hwire'.trans hwire) hdata
      refine Or.inr ⟨f, raw, by rw [hb]; rfl, ⟨hread.toHeaderValid, hcmd, hlen, hdecodes⟩, ?_, ?_⟩
      · rw [htake]
        rw [f.effects_congr hsrc hlink] at hlog
        exact hlog
      · rw [htake]
        rw [f.remembered_congr hsrc, hhistory] at hhist
        exact hhist
  · have htake : s.takeSum net printf b = { s with ctx := s.ctx.reset } := by
      rw [Node.takeSum, if_pos (by rw [hwire]; exact hb)]
    refine Or.inl ⟨by rw [htake], by rw [htake]; rfl, fun g raw hg hreceived => ?_⟩
    obtain ⟨hbody, hlast⟩ := List.append_inj' hreceived rfl
    rw [← hbody] at hlast
    exact hb (List.cons.inj hlast).1

/-! ## Moves -/

/-- A byte at this tick finds the parser reset. -/
def expired (now : UInt32) (s : Node) : Bool :=
  decide (s.ctx.status ≠ .idle ∧ frameTimeoutTick < now - s.ctx.lastRxTick)

/-- The stage of a frame does not depend on the tick. -/
theorem Ctx.Progress.setTick {c : Ctx} {r : List UInt8} (h : c.Progress net r) (t : UInt32) :
    ({ c with lastRxTick := t } : Ctx).Progress net r := by
  obtain ⟨hcap, hstage⟩ := h
  refine ⟨fun hst => ⟨(hcap hst).1, (hcap hst).2⟩, ?_⟩
  cases hst : c.status <;> simp only [Ctx.Stage, hst] at hstage ⊢
  case idle => exact hstage
  case msgL0 => exact hstage
  case len =>
    obtain ⟨f, hr, ⟨⟨h₁, h₂, h₃, h₄, h₅⟩, h₆, h₇, h₈⟩, hcmd⟩ := hstage
    exact ⟨f, hr, ⟨⟨h₁, h₂, h₃, h₄, h₅⟩, h₆, h₇, h₈⟩, hcmd⟩
  case data =>
    obtain ⟨f, n, hr, ⟨⟨h₁, h₂, h₃, h₄, h₅⟩, h₆, h₇, h₈⟩, hmore⟩ := hstage
    exact ⟨f, n, hr, ⟨⟨h₁, h₂, h₃, h₄, h₅⟩, h₆, h₇, h₈⟩, hmore⟩
  case sum =>
    obtain ⟨f, hr, ⟨⟨h₁, h₂, h₃, h₄, h₅⟩, h₆, h₇, h₈⟩, hmore⟩ := hstage
    exact ⟨f, hr, ⟨⟨h₁, h₂, h₃, h₄, h₅⟩, h₆, h₇, h₈⟩, hmore⟩
  all_goals
    obtain ⟨f, hr, ⟨h₁, h₂, h₃⟩, hmsg⟩ := hstage
    exact ⟨f, hr, ⟨h₁, h₂, h₃⟩, hmsg⟩

/-- The timeout check. -/
theorem Ctx.Progress.receive {s : Node} {r : List UInt8} (h : s.ctx.Progress net r) (now : UInt32) :
    (s.ctx.receive now).Progress net (if expired now s then [] else r) := by
  by_cases hlate : s.ctx.status ≠ .idle ∧ frameTimeoutTick < now - s.ctx.lastRxTick
  · rw [if_pos (by simpa [expired] using hlate)]
    exact progress_of_idle (by simp [Ctx.receive, hlate])
  · rw [if_neg (by simpa [expired] using hlate)]
    simp only [Ctx.receive, if_neg hlate]
    exact h.setTick now

/-- What starts with the head of another frame has its header. -/
theorem Frame.head_eq {f g : Frame} {rest : List UInt8} (h : g.head ++ rest = f.bytes) :
    g.isCommand = f.isCommand ∧
      rest = (if f.payload = [] then [] else f.lengthByte :: f.payload) ++ [sumEncode f.body] := by
  rw [Frame.bytes, Frame.body, List.append_assoc] at h
  obtain ⟨hhead, hrest⟩ := List.append_inj h rfl
  simp only [Frame.head, List.cons.injEq, and_true, true_and] at hhead
  exact ⟨by unfold Frame.isCommand; rw [hhead.2.2.2], hrest⟩

/-- Payload bytes that are awaited do not complete a frame. -/
theorem Ctx.Progress.short_data {c : Ctx} {r : List UInt8} (h : c.Progress net r)
    (hst : c.status = .data) {data : List UInt8} (hdata : data.length ≤ c.len.toNat) {f : Frame}
    (hcmd : f.isCommand ↔ f.payload = []) (hlen : f.payload.length ≤ maxData) :
    r ++ data ≠ f.bytes := by
  intro hbytes
  have hstage := h.stage
  simp only [Ctx.Stage, hst] at hstage
  obtain ⟨g, n, rfl, -, hg, hslice, -, hsum⟩ := hstage
  have hplen : g.payload.length = c.index.toNat := by rw [← hslice, Memory.length_slice]
  rw [List.append_assoc] at hbytes
  obtain ⟨hflag, hrest⟩ := Frame.head_eq hbytes
  have hne : f.payload ≠ [] := fun hnil => by
    rw [hg, hcmd.mpr hnil] at hflag
    exact absurd hflag (by decide)
  rw [if_neg hne, List.cons_append, List.cons_append] at hrest
  obtain ⟨hn, hrest⟩ := List.cons.inj hrest
  have hlength := congrArg List.length hrest
  rw [List.length_append, List.length_append, List.length_singleton, hplen,
    ← Frame.lengthByte_len hne hlen, ← hn, ← hsum] at hlength
  omega

/-- In front of the checksum one more byte does not complete a frame. -/
theorem Ctx.Progress.short {c : Ctx} {r : List UInt8} (h : c.Progress net r) (hst : c.status ≠ .sum)
    {f : Frame} (hcmd : f.isCommand ↔ f.payload = []) (hlen : f.payload.length ≤ maxData)
    (b : UInt8) : r ++ [b] ≠ f.bytes := by
  intro hbytes
  have hstage := h.stage
  have hmin : 6 ≤ r.length + 1 := by
    have hlength := congrArg List.length hbytes
    rw [List.length_append, List.length_singleton, Frame.length_bytes] at hlength
    split at hlength <;> omega
  cases hstatus : c.status <;> simp only [Ctx.Stage, hstatus] at hstage
  case idle => rw [hstage] at hmin; simp at hmin
  case msgL0 => rw [hstage.1] at hmin; simp at hmin
  case len =>
    obtain ⟨g, rfl, -, hg⟩ := hstage
    obtain ⟨hflag, hrest⟩ := Frame.head_eq hbytes
    have hne : f.payload ≠ [] := fun hnil => by
      rw [hg, hcmd.mpr hnil] at hflag
      exact absurd hflag (by decide)
    rw [if_neg hne] at hrest
    simpa using congrArg List.length hrest
  case data =>
    obtain ⟨-, -, -, -, -, -, hpos, -⟩ := hstage
    have hone : [b].length ≤ c.len.toNat := hpos
    exact h.short_data hstatus hone hcmd hlen hbytes
  case sum => exact absurd hstatus hst
  all_goals
    obtain ⟨g, hr, -⟩ := hstage
    rw [hr] at hmin
    simp [Frame.head] at hmin

/-- A byte in front of the checksum changes nothing a frame is remembered by. -/
theorem Ctx.take_history (c : Ctx) (net : Network) (b : UInt8) :
    (c.take net b).history = c.history := by
  cases hst : c.status <;> simp only [Ctx.take, hst]
  case msgL0 => unfold Ctx.takeL0; dsimp only; split <;> rfl
  case msgL3 =>
    unfold Ctx.takeL3
    dsimp only
    repeat' split
    all_goals rfl
  case idle => split <;> rfl
  case data => split <;> rfl
  all_goals rfl

variable (printf) in
/-- A byte behind the timeout check. -/
theorem Ctx.Progress.take_sound {s : Node} {r : List UInt8} (h : s.ctx.Progress net r) (t : UInt32)
    (b : UInt8) :
    Sound net printf ⟨s, t, [b], r ++ [b], s.take net printf b⟩ ∧
      (s.take net printf b).ctx.Progress net ((s.take net printf b).ctx.next r b) := by
  by_cases hst : s.ctx.status = .sum
  · rw [Node.take, if_pos hst]
    exact ⟨h.takeSum t b hst, progress_reset (s.takeSum_status b) r b⟩
  · rw [Node.take, if_neg hst]
    exact ⟨Or.inl ⟨rfl, s.ctx.take_history net b,
      fun f raw hf => h.short hst hf.command_iff hf.length_le b⟩, h.take b hst⟩

/-- The timeout check leaves what a frame is checked against. -/
theorem Ctx.receive_static (c : Ctx) (now : UInt32) :
    (c.receive now).src = c.src ∧ (c.receive now).dSrc = c.dSrc ∧
      (c.receive now).linkId = c.linkId ∧ (c.receive now).candidateSize = c.candidateSize ∧
      (c.receive now).lastSeq = c.lastSeq ∧ (c.receive now).lastSeqValid = c.lastSeqValid := by
  unfold Ctx.receive
  dsimp only
  split <;> exact ⟨rfl, rfl, rfl, rfl, rfl, rfl⟩

theorem Frame.Valid.congr {f : Frame} {c d : Ctx} {raw : List UInt8} (h : f.Valid net c raw)
    (hsrc : d.src = c.src) (hdSrc : d.dSrc = c.dSrc) (hlink : d.linkId = c.linkId)
    (hsize : d.candidateSize = c.candidateSize) (hseq : d.lastSeq = c.lastSeq)
    (hseqValid : d.lastSeqValid = c.lastSeqValid) : f.Valid net d raw := by
  obtain ⟨⟨hcodec, hraw, haddr, hdyn, hfresh⟩, hcmd, hlen, hdecodes⟩ := h
  rw [← f.isLocal_congr hsrc, ← hlink] at haddr
  rw [← f.isLocal_congr hsrc, ← hdSrc] at hdyn
  rw [← hseq, ← hseqValid] at hfresh
  rw [← hsize] at hdecodes
  exact ⟨⟨hcodec, hraw, haddr, hdyn, hfresh⟩, hcmd, hlen, hdecodes⟩

theorem Sound.of_receive {s s' : Node} {now : UInt32} {data r : List UInt8}
    (h : Sound net printf ⟨{ s with ctx := s.ctx.receive now }, now, data, r, s'⟩) :
    Sound net printf ⟨s, now, data, r, s'⟩ := by
  obtain ⟨hsrc, hdSrc, hlink, hsize, hseq, hseqValid⟩ := s.ctx.receive_static now
  have hhistory : (s.ctx.receive now).history = s.ctx.history := by
    rw [Ctx.history, hseq, hseqValid]; rfl
  rcases h with ⟨hlog, hhist, hreceived⟩ | ⟨f, raw, hreceived, hvalid, hlog, hhist⟩
  · exact Or.inl ⟨hlog, hhist.trans hhistory, fun f raw hf =>
      hreceived f raw (hf.congr hsrc hdSrc hlink hsize hseq hseqValid)⟩
  · dsimp only at hlog hhist
    rw [f.effects_congr hsrc hlink] at hlog
    rw [f.remembered_congr hsrc, hhistory] at hhist
    exact Or.inr ⟨f, raw, hreceived, hvalid.congr hsrc.symm hdSrc.symm hlink.symm hsize.symm
      hseq.symm hseqValid.symm, hlog, hhist⟩

/-- **Every move of every run is sound**: bytes and blocks, at any ticks, from any
context in its idle state. -/
theorem moves_sound (net : Network) (printf : Output) (calls : List (Call UInt32 UInt8)) {s : Node}
    (hs : s.ctx.status = .idle) :
    ∀ m ∈ (parser net printf).moves expired calls s, Sound net printf m := by
  refine BlockParser.recorded_rule (fun s r => s.ctx.Progress net r) ?_ ?_ calls
    (Ctx.progress_of_idle hs)
  · intro t b s r h
    have hrecv : ({ s with ctx := s.ctx.receive t } : Node).ctx.Progress net
      (if expired t s then [] else r) := h.receive t
    obtain ⟨hsound, hnext⟩ := hrecv.take_sound printf t b
    refine ⟨hsound.of_receive, ?_⟩
    simpa [BlockParser.record, BlockParser.stepMove, parser, Ctx.next, run] using hnext
  · intro t data s r h hne hlen
    have hst : s.ctx.status = .data := by
      by_contra hst
      exact hne (by simpa [parser, hst] using hlen)
    have hlen' : data.length ≤ s.ctx.len.toNat := by simpa [parser, hst] using hlen
    obtain ⟨hstatus, hnext⟩ := h.copyData hst t hne hlen'
    refine ⟨Or.inl ⟨rfl, rfl, fun f raw hf => ?_⟩, ?_⟩
    · exact h.short_data hst hlen' hf.command_iff hf.length_le
    · simpa [BlockParser.record, BlockParser.copyMove, parser, hstatus] using hnext

end Atoman.Comm.V1
