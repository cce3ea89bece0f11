import Atoman.Comm.V1RoundTrip
import Atoman.Lib.History

/-!
# Whole frames, 0xE9

A frame on the wire is four header bytes and a payload; the length byte and the
checksum follow from them. A context in the middle of a frame has captured its first
bytes, and has checked what can be checked of them: `Ctx.Progress` says what, for
each state. The fields the parser reads from single bytes are those it takes out of
the whole header word later.
-/

namespace Atoman.Comm.V1
open Lib

variable {net : Network} {printf : Output}

/-! ## The wire format -/

/-- A frame on the wire. -/
structure Frame where
  m₀ : UInt8
  m₁ : UInt8
  m₂ : UInt8
  m₃ : UInt8
  payload : List UInt8
  deriving DecidableEq, Repr

namespace Frame
variable (f : Frame)

def seq : UInt8 := f.m₀ &&& seqMask
def dst : UInt8 := (f.m₀ >>> 3) &&& 0x0F
def isCommand : Bool := (f.m₃ >>> 6) &&& 0x01 == 1
def codec : UInt8 := (f.m₃ >>> 3) &&& 0x07
def msg : UInt32 := joinBytes f.m₀ f.m₁ f.m₂ f.m₃

/-- The start byte and the header. -/
def head : List UInt8 := [sopByte, f.m₀, f.m₁, f.m₂, f.m₃]

/-- The length byte: 0 stands for 256. -/
def lengthByte : UInt8 := if f.payload.length = maxData then 0 else UInt8.ofNat f.payload.length

/-- The bytes in front of the checksum. -/
def body : List UInt8 := f.head ++ if f.payload = [] then [] else f.lengthByte :: f.payload

/-- The bytes of the frame. -/
def bytes : List UInt8 := f.body ++ [sumEncode f.body]

/-- The fields of the frame once its payload is decoded to `raw`. -/
def pack (raw : List UInt8) : Pack :=
  { extract .zero f.msg with
    pData := if f.codec = codecRaw then .buffer else .candidate, len := UInt16.ofNat raw.length }

/-- The static destination is the node or everybody. -/
def isLocal (c : Ctx) : Bool := f.dst == 0 || f.dst == c.src

/-- The header passes the checks of the context. -/
structure HeaderValid (net : Network) (c : Ctx) : Prop where
  codec_le : ¬ codecZero < f.codec
  command_raw : f.isCommand → f.codec = codecRaw
  addressed : f.isLocal c ∨ isRouteTarget net c.linkId f.dst
  dynamic : f.isLocal c → (extract .zero f.msg).dDst = 0 ∨ (extract .zero f.msg).dDst = c.dSrc
  fresh : ¬ (c.lastSeqValid ∧ c.lastSeq = f.seq)

/-- The frame passes every check of the context; `raw` is its decoded payload. -/
structure Valid (net : Network) (c : Ctx) (raw : List UInt8) : Prop
    extends f.HeaderValid net c where
  command_iff : f.isCommand ↔ f.payload = []
  length_le : f.payload.length ≤ maxData
  decodes : if f.codec = codecRaw then raw = f.payload
    else decodeData f.codec f.payload c.candidateSize.toNat = some raw

variable {f}

theorem lengthByte_len (hne : f.payload ≠ []) (hle : f.payload.length ≤ maxData) :
    (if f.lengthByte = 0 then (256 : UInt16) else f.lengthByte.toUInt16).toNat = f.payload.length :=
  lengthByte_spec (List.length_pos_iff.mpr hne) hle

/-- The length byte is the one that announces the payload. -/
theorem lengthByte_eq {n : UInt8}
    (h : f.payload.length = (if n = 0 then (256 : UInt16) else n.toUInt16).toNat) :
    f.lengthByte = n := by
  have hn := n.toNat_lt
  unfold lengthByte
  by_cases hzero : n = 0
  · rw [if_pos hzero] at h
    rw [if_pos (show f.payload.length = maxData from h), hzero]
  · rw [if_neg hzero, UInt8.toNat_toUInt16] at h
    rw [if_neg (by simp only [maxData]; omega), h]
    exact UInt8.ofNat_toNat

theorem length_bytes (f : Frame) :
    f.bytes.length = if f.payload = [] then 6 else 7 + f.payload.length := by
  unfold bytes body head
  split
  · simp
  · simp; omega

/-- The codec is also found in the header word. -/
theorem field_codec (f : Frame) : (field f.msg 27 0x07).toUInt8 = f.codec := by
  have h₀ := f.m₀.toNat_lt
  have h₁ := f.m₁.toNat_lt
  have h₂ := f.m₂.toNat_lt
  have hcodec : f.codec.toNat = f.m₃.toNat / 2 ^ 3 % 2 ^ 3 :=
    byte_field_toNat f.m₃ 3 3 (by decide) rfl
  refine field_eq 3 (by decide) rfl ?_
  rw [msg, joinBytes_toNat, hcodec]
  simp only [UInt32.reduceToNat]
  omega

/-- So is the destination. -/
theorem extract_dst (f : Frame) (p : Pack) : (extract p f.msg).dst = f.dst := by
  have h₀ := f.m₀.toNat_lt
  have hdst : f.dst.toNat = f.m₀.toNat / 2 ^ 3 % 2 ^ 4 := byte_field_toNat f.m₀ 3 4 (by decide) rfl
  refine field_eq 4 (by decide) rfl ?_
  rw [msg, joinBytes_toNat, hdst]
  simp only [UInt32.reduceToNat]
  omega

/-- So is the sequence number. -/
theorem extract_seq (f : Frame) (p : Pack) : (extract p f.msg).seq = f.seq := by
  have h₀ := f.m₀.toNat_lt
  have hseq : f.seq.toNat = f.m₀.toNat % 2 ^ 3 := by
    rw [seq, UInt8.toNat_and, show seqMask.toNat = 2 ^ 3 - 1 from rfl,
      Nat.and_two_pow_sub_one_eq_mod]
  have hfield : (field f.msg 0 0x07).toUInt8 = f.seq := by
    refine field_eq 3 (by decide) rfl ?_
    rw [msg, joinBytes_toNat, hseq]
    simp only [UInt32.reduceToNat]
    omega
  simpa [extract, field] using hfield

/-- A frame is read in one way only. -/
theorem bytes_inj {f g : Frame} (hf : f.isCommand ↔ f.payload = [])
    (hg : g.isCommand ↔ g.payload = [])
    (hfl : f.payload.length ≤ maxData) (hgl : g.payload.length ≤ maxData) (h : f.bytes = g.bytes) :
    f = g := by
  obtain ⟨f₀, f₁, f₂, f₃, p⟩ := f
  obtain ⟨g₀, g₁, g₂, g₃, q⟩ := g
  have hhead : f₀ = g₀ ∧ f₁ = g₁ ∧ f₂ = g₂ ∧ f₃ = g₃ := by
    simp only [bytes, body, head, List.cons_append, List.cons.injEq] at h
    exact ⟨h.2.1, h.2.2.1, h.2.2.2.1, h.2.2.2.2.1⟩
  obtain ⟨rfl, rfl, rfl, rfl⟩ := hhead
  congr 1
  have hempty : p = [] ↔ q = [] := hf.symm.trans hg
  by_cases hp : p = []
  · rw [hp, hempty.mp hp]
  · have hq : q ≠ [] := fun hq => hp (hempty.mpr hq)
    simp only [bytes, body, head, hp, hq, if_false, List.cons_append, List.cons.injEq, true_and,
      List.nil_append] at h
    have hlen : p.length = q.length := by
      have hpl := lengthByte_len (f := ⟨f₀, f₁, f₂, f₃, p⟩) hp hfl
      have hql := lengthByte_len (f := ⟨f₀, f₁, f₂, f₃, q⟩) hq hgl
      rw [h.1] at hpl
      exact hpl.symm.trans hql
    exact (List.append_inj h.2 hlen).1

end Frame

/-! ## Frames in progress -/

/-- The first header byte is accepted. -/
structure Frame.Admitted (f : Frame) (net : Network) (c : Ctx) : Prop where
  isRoute_eq : c.isRoute = !f.isLocal c
  addressed : f.isLocal c ∨ isRouteTarget net c.linkId f.dst
  fresh : ¬ (c.lastSeqValid ∧ c.lastSeq = f.seq)

/-- The header is read and accepted. -/
structure Frame.Read (f : Frame) (net : Network) (c : Ctx) : Prop extends f.HeaderValid net c where
  isRoute_eq : c.isRoute = !f.isLocal c
  msg_eq : c.msg = f.msg
  pack_eq : ∃ p, c.pack = extract p f.msg

/-- What has been received of a frame and checked, state by state. -/
def Ctx.Stage (c : Ctx) (net : Network) (r : List UInt8) : Prop :=
  match c.status with
  | .idle => r = []
  | .msgL0 => r = [sopByte] ∧ c.index = 0
  | .msgL1 => ∃ f : Frame, r = f.head.take 2 ∧ f.Admitted net c ∧ c.index = 0 ∧
      c.msg = f.m₀.toUInt32
  | .msgL2 => ∃ f : Frame, r = f.head.take 3 ∧ f.Admitted net c ∧ c.index = 0 ∧
      c.msg = f.m₀.toUInt32 ||| (f.m₁.toUInt32 <<< 8)
  | .msgL3 => ∃ f : Frame, r = f.head.take 4 ∧ f.Admitted net c ∧ c.index = 0 ∧
      c.msg = f.m₀.toUInt32 ||| (f.m₁.toUInt32 <<< 8) ||| (f.m₂.toUInt32 <<< 16)
  | .len => ∃ f : Frame, r = f.head ∧ f.Read net c ∧ f.isCommand = false
  | .data => ∃ (f : Frame) (n : UInt8), r = f.head ++ n :: f.payload ∧ f.Read net c ∧
      f.isCommand = false ∧ c.dataBuffer.slice 0 c.index.toNat = f.payload ∧ 0 < c.len.toNat ∧
      c.index.toNat + c.len.toNat = (if n = 0 then (256 : UInt16) else n.toUInt16).toNat
  | .sum => ∃ f : Frame, r = f.body ∧ f.Read net c ∧ (f.isCommand ↔ f.payload = []) ∧
      f.payload.length ≤ maxData ∧ c.dataBuffer.slice 0 c.index.toNat = f.payload

/-- The bytes received since the idle state are captured, and have come this far. -/
structure Ctx.Progress (c : Ctx) (net : Network) (r : List UInt8) : Prop where
  captured : c.status ≠ .idle → c.Captured r
  stage : c.Stage net r

theorem Ctx.progress_of_idle {c : Ctx} (h : c.status = .idle) : c.Progress net [] :=
  ⟨fun h' => absurd h h', by simp [Stage, h]⟩

/-- What is received once a byte has been taken. -/
def Ctx.next (c : Ctx) (r : List UInt8) (b : UInt8) : List UInt8 :=
  if c.status = .idle then [] else r ++ [b]

theorem Ctx.progress_reset {c : Ctx} (h : c.status = .idle) (r : List UInt8) (b : UInt8) :
    c.Progress net (c.next r b) := by
  rw [next, if_pos h]
  exact progress_of_idle h

theorem Ctx.progress_next {c : Ctx} {r : List UInt8} {b : UInt8} (h : c.status ≠ .idle)
    (hp : c.Progress net (r ++ [b])) : c.Progress net (c.next r b) := by
  rwa [next, if_neg h]

section take
variable {c : Ctx} {r : List UInt8} (h : c.Progress net r) (b : UInt8)
include h

theorem Ctx.Progress.take_idle (hst : c.status = .idle) :
    (c.take net b).Progress net ((c.take net b).next r b) := by
  have hr : r = [] := by simpa [Ctx.Stage, hst] using h.stage
  by_cases hb : b = sopByte
  · simp only [Ctx.take, hst, hb, if_true, hr]
    refine progress_next (by simp) ⟨fun _ => ⟨?_, rfl⟩, rfl, rfl⟩
    exact Memory.slice_write_self c.wireBuffer 0 [sopByte]
  · simp only [Ctx.take, hst, hb, if_false]
    exact progress_reset hst r b

theorem Ctx.Progress.take_msgL0 (hst : c.status = .msgL0) :
    (c.take net b).Progress net ((c.take net b).next r b) := by
  have hcap := h.captured (by simp [hst])
  obtain ⟨hr, hidx⟩ : r = [sopByte] ∧ c.index = 0 := by simpa [Ctx.Stage, hst] using h.stage
  simp only [Ctx.take, hst, Ctx.takeL0]
  by_cases haccept : (!(c.lastSeqValid && b &&& seqMask == c.lastSeq) &&
      (((b >>> 3) &&& 0x0F == 0 || (b >>> 3) &&& 0x0F == c.src) ||
        isRouteTarget net c.linkId ((b >>> 3) &&& 0x0F))) = true
  · rw [if_pos haccept]
    have hcap' := hcap.capture (by rw [hr]; decide) b
    refine progress_next (by simp) ⟨fun _ => ⟨hcap'.1, hcap'.2⟩, ⟨b, 0, 0, 0, []⟩, ?_, ?_,
      hidx, rfl⟩
    · rw [hr]; rfl
    · simp only [Bool.and_eq_true, Bool.not_eq_true', Bool.or_eq_true] at haccept
      obtain ⟨hfresh, haddr⟩ := haccept
      refine ⟨?_, ?_, ?_⟩
      · show (!((b >>> 3) &&& 0x0F == 0 || (b >>> 3) &&& 0x0F == c.src) &&
          isRouteTarget net c.linkId ((b >>> 3) &&& 0x0F)) =
            !((b >>> 3) &&& 0x0F == 0 || (b >>> 3) &&& 0x0F == c.src)
        cases hlocal : ((b >>> 3) &&& 0x0F == 0 || (b >>> 3) &&& 0x0F == c.src)
        · simp only [Bool.or_eq_false_iff] at hlocal
          rw [haddr.resolve_left (by simp [hlocal.1, hlocal.2])]
          rfl
        · rfl
      · rcases haddr with hlocal | htarget
        · exact Or.inl (by simpa [Frame.isLocal, Frame.dst, Ctx.capture] using hlocal)
        · exact Or.inr htarget
      · rintro ⟨hvalid, hseq⟩
        have hvalid' : c.lastSeqValid = true := hvalid
        have hseq' : c.lastSeq = b &&& seqMask := hseq
        rw [hvalid', ← hseq'] at hfresh
        simp at hfresh
  · rw [if_neg haccept]
    exact progress_reset rfl r b

theorem Ctx.Progress.take_msgL1 (hst : c.status = .msgL1) :
    (c.take net b).Progress net ((c.take net b).next r b) := by
  have hcap := h.captured (by simp [hst])
  have hstage := h.stage
  simp only [Ctx.Stage, hst] at hstage
  obtain ⟨f, hr, ⟨hroute, haddr, hfresh⟩, hidx, hmsg⟩ := hstage
  have hcap' := hcap.capture (by simp [hr, Frame.head]) b
  simp only [Ctx.take, hst]
  refine progress_next (by simp) ⟨fun _ => ⟨hcap'.1, hcap'.2⟩, ⟨f.m₀, b, 0, 0, []⟩, ?_,
    ⟨hroute, haddr, hfresh⟩, hidx, ?_⟩
  · rw [hr]; rfl
  · show c.msg ||| _ = _
    rw [hmsg]

theorem Ctx.Progress.take_msgL2 (hst : c.status = .msgL2) :
    (c.take net b).Progress net ((c.take net b).next r b) := by
  have hcap := h.captured (by simp [hst])
  have hstage := h.stage
  simp only [Ctx.Stage, hst] at hstage
  obtain ⟨f, hr, ⟨hroute, haddr, hfresh⟩, hidx, hmsg⟩ := hstage
  have hcap' := hcap.capture (by simp [hr, Frame.head]) b
  simp only [Ctx.take, hst]
  refine progress_next (by simp) ⟨fun _ => ⟨hcap'.1, hcap'.2⟩, ⟨f.m₀, f.m₁, b, 0, []⟩, ?_,
    ⟨hroute, haddr, hfresh⟩, hidx, ?_⟩
  · rw [hr]; rfl
  · show c.msg ||| _ = _
    rw [hmsg]

/-- The last header byte: what the header fields allow is checked. -/
theorem Ctx.Progress.take_msgL3 (hst : c.status = .msgL3) :
    (c.take net b).Progress net ((c.take net b).next r b) := by
  have hcap := h.captured (by simp [hst])
  have hstage := h.stage
  simp only [Ctx.Stage, hst] at hstage
  obtain ⟨f, hr, ⟨hroute, haddr, hfresh⟩, hidx, hmsg⟩ := hstage
  have hcap' := hcap.capture (by simp [hr, Frame.head]) b
  obtain ⟨g, hg⟩ : ∃ g : Frame, g = ⟨f.m₀, f.m₁, f.m₂, b, []⟩ := ⟨_, rfl⟩
  have hgmsg : c.msg ||| (b.toUInt32 <<< 24) = g.msg := by rw [hmsg, hg]; rfl
  have hgr : r ++ [b] = g.head := by rw [hr, hg]; rfl
  have hglocal : g.isLocal c = f.isLocal c := by rw [hg]; rfl
  have hgdst : g.dst = f.dst := by rw [hg]; rfl
  have hgseq : g.seq = f.seq := by rw [hg]; rfl
  have hgb : g.m₃ = b := by rw [hg]
  have hcmd : (b >>> 6) &&& 0x01 = 1 ↔ g.isCommand = true := by
    rw [Frame.isCommand, hgb]; simp
  have hcodec : (b >>> 3) &&& 0x07 = g.codec := by rw [Frame.codec, hgb]
  simp only [Ctx.take, hst, Ctx.takeL3, hgmsg, hcodec]
  by_cases hlegal : (b >>> 6) &&& 0x01 = 1 ∧ g.codec ≠ codecRaw ∨ codecZero < g.codec
  · rw [if_pos hlegal]
    exact progress_reset rfl r b
  · rw [if_neg hlegal]
    dsimp only [Ctx.capture]
    by_cases hdyn : (!c.isRoute && !((extract c.pack g.msg).dDst == 0 ||
        (extract c.pack g.msg).dDst == c.dSrc)) = true
    · simp only [hdyn, if_true]
      exact progress_reset rfl r b
    · rw [Bool.not_eq_true] at hdyn
      simp only [hdyn, Bool.false_eq_true, if_false]
      simp only [not_or, not_and, Decidable.not_not] at hlegal
      have hdynamic : g.isLocal c → (extract .zero g.msg).dDst = 0 ∨
          (extract .zero g.msg).dDst = c.dSrc := by
        intro hlocal
        rw [hroute, ← hglocal, hlocal] at hdyn
        show (extract c.pack g.msg).dDst = 0 ∨ (extract c.pack g.msg).dDst = c.dSrc
        exact or_iff_not_imp_left.mpr (by simpa using hdyn)
      have haddr' : g.isLocal c ∨ isRouteTarget net c.linkId g.dst := by
        rw [hglocal, hgdst]; exact haddr
      have hfresh' : ¬ (c.lastSeqValid ∧ c.lastSeq = g.seq) := by rw [hgseq]; exact hfresh
      have hroute' : c.isRoute = !g.isLocal c := by rw [hglocal]; exact hroute
      by_cases hflag : (b >>> 6) &&& 0x01 = 1
      · rw [if_pos hflag]
        have hbody : g.body = r ++ [b] := by
          rw [hgr, Frame.body, if_pos (by rw [hg]), List.append_nil]
        refine progress_next (by simp) ⟨fun _ => ⟨hcap'.1, hcap'.2⟩, g, hbody.symm,
          ⟨⟨hlegal.2, fun _ => hlegal.1 hflag, haddr', hdynamic, hfresh'⟩, hroute', rfl,
            { c.pack with pData := .null, len := 0 }, rfl⟩,
          ⟨fun _ => by rw [hg], fun _ => hcmd.mp hflag⟩, by rw [hg]; simp, ?_⟩
        show c.dataBuffer.slice 0 c.index.toNat = g.payload
        rw [hidx, hg]
        rfl
      · rw [if_neg hflag]
        have hdata : g.isCommand = false := by
          rw [← Bool.not_eq_true, ← hcmd]; exact hflag
        exact progress_next (by simp) ⟨fun _ => ⟨hcap'.1, hcap'.2⟩, g, hgr,
          ⟨⟨hlegal.2, fun h' => absurd h' (by simp [hdata]), haddr', hdynamic, hfresh'⟩,
            hroute', rfl, c.pack, rfl⟩, hdata⟩

/-- The length byte. -/
theorem Ctx.Progress.take_len (hst : c.status = .len) :
    (c.take net b).Progress net ((c.take net b).next r b) := by
  have hcap := h.captured (by simp [hst])
  have hstage := h.stage
  simp only [Ctx.Stage, hst] at hstage
  obtain ⟨f, hr, ⟨hvalid, hroute, hmsg, hpack⟩, hcmd⟩ := hstage
  have hcap' := hcap.capture (by simp [hr, Frame.head]) b
  obtain ⟨hcodec, hraw, haddr, hdyn, hfresh⟩ := hvalid
  obtain ⟨hpos, -⟩ := payloadLen_spec b
  simp only [Ctx.take, hst]
  refine progress_next (by simp) ⟨fun _ => ⟨hcap'.1, hcap'.2⟩, { f with payload := [] }, b, ?_,
    ⟨⟨hcodec, hraw, haddr, hdyn, hfresh⟩, hroute, hmsg, hpack⟩, hcmd, rfl, hpos, Nat.zero_add _⟩
  rw [hr]; rfl

omit h in
/-- A payload byte is the bulk path on one byte. -/
theorem Ctx.take_data_eq (hst : c.status = .data) (hpos : 0 < c.len.toNat) :
    c.take net b = c.copyData c.lastRxTick [b] := by
  have hlen := ofNat_pred hpos
  by_cases hlast : c.len - 1 = 0
  · simp [Ctx.take, hst, Ctx.copyData, Ctx.capture, hlen, ofNat_succ, hlast]
  · simp [Ctx.take, hst, Ctx.copyData, Ctx.capture, hlen, ofNat_succ, hlast]

/-- Payload bytes, one or several: the last one awaited completes the payload. -/
theorem Ctx.Progress.copyData (hst : c.status = .data) (now : UInt32) {data : List UInt8}
    (hne : data ≠ []) (hlen : data.length ≤ c.len.toNat) :
    (c.copyData now data).status ≠ .idle ∧ (c.copyData now data).Progress net (r ++ data) := by
  have hcap := h.captured (by simp [hst])
  have hstage := h.stage
  simp only [Ctx.Stage, hst] at hstage
  obtain ⟨f, n, hr, ⟨hvalid, hroute, hmsg, hpack⟩, hcmd, hslice, hpos, hsum⟩ := hstage
  obtain ⟨hcodec, hraw, haddr, hdyn, hfresh⟩ := hvalid
  have hbound := (payloadLen_spec n).2
  have hplen : f.payload.length = c.index.toNat := by rw [← hslice, Memory.length_slice]
  have hrlen : r.length = 6 + c.index.toNat := by
    rw [hr, List.length_append, List.length_cons, hplen]
    simp only [Frame.head, List.length_cons, List.length_nil]
    omega
  have hwireLen := hcap.wireLen_eq.trans hrlen
  simp only [maxData] at hbound
  have hidx : (UInt16.ofNat (c.index.toNat + data.length)).toNat = c.index.toNat + data.length := by
    rw [UInt16.toNat_ofNat']; omega
  have hrest : (UInt16.ofNat (c.len.toNat - data.length)).toNat = c.len.toNat - data.length := by
    rw [UInt16.toNat_ofNat']; omega
  have hwire : (UInt16.ofNat (c.wireLen.toNat + data.length)).toNat =
      c.wireLen.toNat + data.length := by
    rw [UInt16.toNat_ofNat']; omega
  have hslice' : (c.dataBuffer.write c.index.toNat data).slice 0
      (UInt16.ofNat (c.index.toNat + data.length)).toNat = f.payload ++ data := by
    have := Memory.slice_write_extend data hslice
    rwa [Nat.zero_add, ← hidx] at this
  have hr' : r ++ data = f.head ++ n :: (f.payload ++ data) := by rw [hr]; simp
  have hcap' : (c.copyData now data).Captured (r ++ data) := by
    refine ⟨?_, ?_⟩
    · show (c.wireBuffer.write c.wireLen.toNat data).slice 0
        (UInt16.ofNat (c.wireLen.toNat + data.length)).toNat = _
      rw [hwire]
      have := Memory.slice_write_extend data hcap.wire_eq
      rwa [Nat.zero_add] at this
    · show (UInt16.ofNat (c.wireLen.toNat + data.length)).toNat = _
      rw [hwire, hcap.wireLen_eq, List.length_append]
  by_cases hlast : UInt16.ofNat (c.len.toNat - data.length) = 0
  · have hst' : (c.copyData now data).status = .sum := by simp [Ctx.copyData, hlast]
    refine ⟨by rw [hst']; decide, fun _ => hcap', ?_⟩
    have hfull : (f.payload ++ data).length =
        (if n = 0 then (256 : UInt16) else n.toUInt16).toNat := by
      rw [hlast] at hrest
      rw [List.length_append, hplen, ← hsum]
      simp at hrest
      omega
    have hpne : f.payload ++ data ≠ [] := by simp [hne]
    simp only [Ctx.Stage, hst']
    refine ⟨{ f with payload := f.payload ++ data }, ?_,
      ⟨⟨hcodec, hraw, haddr, hdyn, hfresh⟩, hroute, hmsg, hpack⟩, ?_, ?_, hslice'⟩
    · rw [hr', Frame.body, if_neg hpne, Frame.lengthByte_eq hfull]; rfl
    · exact ⟨fun h' => absurd h' (by simpa [Frame.isCommand] using hcmd), fun h' => absurd h' hpne⟩
    · rw [hfull]; exact hbound
  · have hst' : (c.copyData now data).status = .data := by simp [Ctx.copyData, hlast, hst]
    refine ⟨by rw [hst']; decide, fun _ => hcap', ?_⟩
    have hmore : 0 < c.len.toNat - data.length := by
      rw [← hrest]
      exact Nat.pos_of_ne_zero fun h0 => hlast (UInt16.toNat_inj.mp h0)
    simp only [Ctx.Stage, hst']
    refine ⟨{ f with payload := f.payload ++ data }, n, hr',
      ⟨⟨hcodec, hraw, haddr, hdyn, hfresh⟩, hroute, hmsg, hpack⟩, hcmd, hslice', ?_, ?_⟩
    · exact Nat.lt_of_lt_of_eq hmore hrest.symm
    · show (UInt16.ofNat (c.index.toNat + data.length)).toNat +
        (UInt16.ofNat (c.len.toNat - data.length)).toNat = _
      rw [hidx, hrest, ← hsum]; omega

theorem Ctx.Progress.take_data (hst : c.status = .data) :
    (c.take net b).Progress net ((c.take net b).next r b) := by
  have hpos : 0 < c.len.toNat := by
    have hstage := h.stage
    simp only [Ctx.Stage, hst] at hstage
    obtain ⟨-, -, -, -, -, -, hpos, -⟩ := hstage
    exact hpos
  rw [Ctx.take_data_eq b hst hpos]
  obtain ⟨hne, hp⟩ := h.copyData hst c.lastRxTick (List.cons_ne_nil b []) hpos
  exact progress_next hne hp

end take

/-- **A byte in front of the checksum keeps the progress.** -/
theorem Ctx.Progress.take {c : Ctx} {r : List UInt8} (h : c.Progress net r) (b : UInt8)
    (hsum : c.status ≠ .sum) : (c.take net b).Progress net ((c.take net b).next r b) := by
  cases hst : c.status
  case idle => exact h.take_idle b hst
  case msgL0 => exact h.take_msgL0 b hst
  case msgL1 => exact h.take_msgL1 b hst
  case msgL2 => exact h.take_msgL2 b hst
  case msgL3 => exact h.take_msgL3 b hst
  case len => exact h.take_len b hst
  case data => exact h.take_data b hst
  case sum => exact absurd hst hsum

end Atoman.Comm.V1
