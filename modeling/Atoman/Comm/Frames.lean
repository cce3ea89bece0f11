import Atoman.Comm.Blocks
import Atoman.Lib.History

/-!
# Whole frames, 0xE8

A context in the middle of a frame records every byte of it: `Ctx.seen` reads them
back. So whenever something is dispatched or sent on, the bytes received since the
start state are those of a frame, and the frame passes every check. The fields are
not given by position in a table; the context that was filled from the bytes is
written out again by the head of the sender.
-/

namespace Atoman.Comm
open Lib

variable {net : Network} {printf : Output} {now : UInt32}

/-! ## Two bytes of a word -/

theorem word_toNat (lo hi : UInt8) :
    (lo.toUInt16 ||| (hi.toUInt16 <<< 8)).toNat = lo.toNat + hi.toNat * 256 := by
  have hlo := lo.toNat_lt
  have hhi := hi.toNat_lt
  have hshift : (hi.toUInt16 <<< 8).toNat = hi.toNat <<< 8 := by
    rw [UInt16.toNat_shiftLeft, UInt8.toNat_toUInt16, show (8 : UInt16).toNat % 16 = 8 from rfl,
      Nat.shiftLeft_eq, Nat.mod_eq_of_lt (by omega)]
  rw [UInt16.toNat_or, hshift, UInt8.toNat_toUInt16, Nat.or_comm,
    ← Nat.shiftLeft_add_eq_or_of_lt hlo, Nat.shiftLeft_eq, Nat.add_comm]

theorem lowByte_toNat (w : UInt16) : ((w &&& 0xFF).toUInt8).toNat = w.toNat % 256 := by
  rw [UInt16.toNat_toUInt8, UInt16.toNat_and, show (0xFF : UInt16).toNat = 2 ^ 8 - 1 from rfl,
    Nat.and_two_pow_sub_one_eq_mod]
  omega

theorem highByte_toNat (w : UInt16) : (((w >>> 8) &&& 0xFF).toUInt8).toNat = w.toNat / 256 := by
  have := w.toNat_lt
  rw [lowByte_toNat, UInt16.toNat_shiftRight, show (8 : UInt16).toNat % 16 = 8 from rfl,
    Nat.shiftRight_eq_div_pow]
  omega

/-- The low byte of a word made of two bytes. -/
theorem lowByte_word (lo hi : UInt8) :
    ((lo.toUInt16 ||| (hi.toUInt16 <<< 8)) &&& 0xFF).toUInt8 = lo := by
  apply UInt8.toNat_inj.mp
  have := lo.toNat_lt
  rw [lowByte_toNat, word_toNat]
  omega

/-- The high byte of a word made of two bytes. -/
theorem highByte_word (lo hi : UInt8) :
    (((lo.toUInt16 ||| (hi.toUInt16 <<< 8)) >>> 8) &&& 0xFF).toUInt8 = hi := by
  apply UInt8.toNat_inj.mp
  have := lo.toNat_lt
  rw [highByte_toNat, word_toNat]
  omega

/-- A word that is a byte. -/
theorem lowByte_byte (b : UInt8) : (b.toUInt16 &&& 0xFF).toUInt8 = b := by
  apply UInt8.toNat_inj.mp
  have := b.toNat_lt
  rw [lowByte_toNat, UInt8.toNat_toUInt16]
  omega

/-- A word is made of its two bytes. -/
theorem word_bytes {w v : UInt16} (hlo : (w &&& 0xFF).toUInt8 = (v &&& 0xFF).toUInt8)
    (hhi : ((w >>> 8) &&& 0xFF).toUInt8 = ((v >>> 8) &&& 0xFF).toUInt8) : w = v := by
  apply UInt16.toNat_inj.mp
  have h₁ := congrArg UInt8.toNat hlo
  have h₂ := congrArg UInt8.toNat hhi
  rw [lowByte_toNat, lowByte_toNat] at h₁
  rw [highByte_toNat, highByte_toNat] at h₂
  omega

/-! ## The wire format -/

/-- The bytes of a frame that its CRC covers. -/
def wireBody (pack : Pack) (payload : List UInt8) : List UInt8 := frameHead pack ++ payload

/-- The CRC of a frame. -/
def wireCrc (pack : Pack) (payload : List UInt8) : UInt16 :=
  crc16Final (crc16UpdateBlock crc16Init (wireBody pack payload))

/-- The bytes of a frame. -/
def wireBytes (pack : Pack) (payload : List UInt8) : List UInt8 :=
  wireBody pack payload ++
    [(wireCrc pack payload &&& 0xFF).toUInt8, ((wireCrc pack payload >>> 8) &&& 0xFF).toUInt8,
      0x0D, 0x0A]

@[simp] theorem length_frameHead (pack : Pack) : (frameHead pack).length = 11 := rfl

theorem length_wireBytes (pack : Pack) (payload : List UInt8) :
    (wireBytes pack payload).length = 15 + payload.length := by
  simp [wireBytes, wireBody]; omega

/-- The head tells the length of the payload. -/
theorem frameHead_len {p q : Pack} (h : frameHead p = frameHead q) : p.len = q.len := by
  simp only [frameHead, List.cons.injEq, and_true] at h
  exact word_bytes h.2.2.2.2.2.2.2.2.2.1 h.2.2.2.2.2.2.2.2.2.2

/-- The length in the head is that of the payload. -/
abbrev Pack.Sized (pack : Pack) (payload : List UInt8) : Prop := pack.len.toNat = payload.length

/-- A frame is read in one way only: head, payload and the four bytes behind it. -/
theorem frame_inj {p q : Pack} {payload payload' tail tail' : List UInt8} (hp : p.Sized payload)
    (hq : q.Sized payload')
    (h : frameHead p ++ payload ++ tail = frameHead q ++ payload' ++ tail') :
    frameHead p = frameHead q ∧ payload = payload' ∧ tail = tail' := by
  rw [List.append_assoc, List.append_assoc] at h
  obtain ⟨hhead, hrest⟩ := List.append_inj h (by simp)
  obtain ⟨hpayload, htail⟩ := List.append_inj hrest (by rw [← hp, ← hq, frameHead_len hhead])
  exact ⟨hhead, hpayload, htail⟩

/-- **The sender emits the wire format**, up to the size of its buffer. -/
theorem commSendData_eq {pack : Pack} (hsop : pack.sop = commSopByte)
    (hdata : ¬ (0 < pack.len ∧ pack.pData = .null)) (data : Memory UInt8) (output : Output) :
    (commSendData pack data output).2 =
      if 15 + pack.len.toNat ≤ commTxBufferSize then
        transmit output
          (wireBytes { pack with version := commVer1 } (data.slice 0 pack.len.toNat))
      else [] := by
  have hne : pack.sop ≠ V1.sopByte := by rw [hsop]; decide
  rw [commSendData, if_neg hne, if_neg (not_not_intro hsop), if_neg hdata]
  split
  · next h => rw [if_neg (Nat.not_le.mpr h)]
  · next h => rw [if_pos (Nat.not_lt.mp h)]; rw [wireBytes, wireCrc, wireBody]

/-! ## What a context has seen -/

/-- Header bytes received so far. -/
def Ctx.headLength (c : Ctx) : ℕ :=
  match c.status with
  | .sop | .route => 0
  | .ver => 1
  | .src => if c.srcFlag then 3 else 2
  | .dst => if c.dstFlag then 5 else 4
  | .cmd => if c.cmdFlag then 7 else 6
  | .ack => 8
  | .len => if c.lenFlag then 10 else 9
  | .data | .crc | .eop => 11

/-- The bytes of the frame in progress, as the context has them. -/
def Ctx.seen (c : Ctx) : List UInt8 :=
  (frameHead c.pack).take c.headLength ++
    match c.status with
    | .data => c.dataBuffer.slice 0 c.index.toNat
    | .crc => c.payload ++ [(c.pack.crc &&& 0xFF).toUInt8]
    | .eop =>
      c.payload ++ [(c.pack.crc &&& 0xFF).toUInt8, ((c.pack.crc >>> 8) &&& 0xFF).toUInt8] ++
        if c.eopFlag then [(c.pack.eop &&& 0xFF).toUInt8] else []
    | _ => []

/-- The version is checked. -/
structure Ctx.Versioned (c : Ctx) : Prop where
  sop_eq : c.pack.sop = commSopByte
  pData_eq : c.pack.pData = .buffer
  version_eq : c.pack.version = commVer1

/-- The addresses are checked. -/
structure Ctx.Addressed (c : Ctx) : Prop extends c.Versioned where
  isRoute_eq : c.isRoute = !isAddrMatch c.pack.dst c.src
  dDst_match : isAddrMatch c.pack.dDst c.dSrc ∨ c.isRoute

/-- The command of a frame for this node is found. -/
structure Node.Commanded (s : Node) : Prop extends s.ctx.Addressed where
  func_eq : s.ctx.isRoute ∨ ∃ func, s.ctx.func = some func ∧
    (s.commands.findCommFunc s.ctx.pack.cmdSet s.ctx.pack.cmdWord).1 = some func

/-- The length is checked. -/
structure Node.Sized (s : Node) : Prop extends s.Commanded where
  len_le : s.ctx.pack.len ≤ s.ctx.bufferSize

/-- What has been checked of the frame in progress. -/
def Node.Checked (s : Node) : Prop :=
  match s.ctx.status with
  | .sop => True
  | .ver => s.ctx.pack.sop = commSopByte ∧ s.ctx.pack.pData = .buffer
  | .src => s.ctx.Versioned
  | .dst => s.ctx.Versioned ∧
      (s.ctx.dstFlag → s.ctx.isRoute = !isAddrMatch s.ctx.pack.dst s.ctx.src)
  | .cmd => s.ctx.Addressed
  | .ack => s.Commanded
  | .len => s.Commanded ∧ if s.ctx.lenFlag then ∃ b : UInt8, s.ctx.pack.len = b.toUInt16
      else s.ctx.pack.len = 0
  | .data => s.Sized ∧ s.ctx.index.toNat + s.ctx.len.toNat = s.ctx.pack.len.toNat
  | .crc => s.Sized ∧ ∃ b : UInt8, s.ctx.pack.crc = b.toUInt16
  | .eop => s.Sized ∧ s.ctx.pack.crc = wireCrc s.ctx.pack s.ctx.payload ∧
      if s.ctx.eopFlag then ∃ b : UInt8, s.ctx.pack.eop = b.toUInt16 else s.ctx.pack.eop = 0
  | .route => False

/-- The bytes received since the start state, what has been checked of them and the
CRC over those it covers. -/
structure Node.Progress (s : Node) (r : List UInt8) : Prop where
  seen_eq : s.ctx.seen = r
  checked : s.Checked
  crc_eq : s.ctx.status ≠ .sop → s.ctx.status ≠ .eop → s.ctx.crc = crc16UpdateBlock crc16Init
    (if s.ctx.status = .crc then wireBody s.ctx.pack s.ctx.payload else r)

theorem Node.progress_of_sop {s : Node} (h : s.ctx.status = .sop) : s.Progress [] :=
  ⟨by simp [Ctx.seen, Ctx.headLength, h], by simp [Checked, h], fun h' => absurd h h'⟩

/-- What is received once a byte has been taken. -/
def Node.next (s' : Node) (r : List UInt8) (b : UInt8) : List UInt8 :=
  if s'.ctx.status = .sop then [] else r ++ [b]

theorem Node.progress_reset {s : Node} (h : s.ctx.status = .sop) (r : List UInt8) (b : UInt8) :
    s.Progress (s.next r b) := by
  rw [Node.next, if_pos h]
  exact progress_of_sop h

theorem Node.progress_next {s : Node} {r : List UInt8} {b : UInt8} (h : s.ctx.status ≠ .sop)
    (hp : s.Progress (r ++ [b])) : s.Progress (s.next r b) := by
  rwa [Node.next, if_neg h]

theorem crc16UpdateBlock_append (crc : UInt16) (r s : List UInt8) :
    crc16UpdateBlock crc (r ++ s) = crc16UpdateBlock (crc16UpdateBlock crc r) s := by
  simp [crc16UpdateBlock]

/-- The node with the context after a byte. -/
def Node.takeCtx (s : Node) (b : UInt8) : Node := { s with ctx := s.ctx.take b }

theorem crc_next {r : List UInt8} {crc : UInt16} (h : crc = crc16UpdateBlock crc16Init r)
    (b : UInt8) :
    crc16Update crc b = crc16UpdateBlock crc16Init (r ++ [b]) := by
  rw [h, crc16UpdateBlock_append]; rfl

section take
variable {s : Node} {r : List UInt8} (h : s.Progress r) (b : UInt8)
include h

/-- Before the payload's end the CRC covers all that is received. -/
theorem Node.Progress.running (hsop : s.ctx.status ≠ .sop) (hcrc : s.ctx.status ≠ .crc)
    (heop : s.ctx.status ≠ .eop) : s.ctx.crc = crc16UpdateBlock crc16Init r := by
  rw [h.crc_eq hsop heop, if_neg hcrc]

theorem Node.Progress.take_sop (hst : s.ctx.status = .sop) :
    (s.takeCtx b).Progress ((s.takeCtx b).next r b) := by
  have hr : r = [] := by rw [← h.seen_eq]; simp [Ctx.seen, Ctx.headLength, hst]
  by_cases hb : b = commSopByte
  · simp only [takeCtx, Ctx.take, hst, hb, ne_eq, not_true_eq_false, if_false, hr]
    exact progress_next (by simp) ⟨rfl, ⟨rfl, rfl⟩, fun _ _ => rfl⟩
  · simp only [takeCtx, Ctx.take, hst, ne_eq, hb, not_false_eq_true, if_true]
    exact progress_reset hst r b

theorem Node.Progress.take_ver (hst : s.ctx.status = .ver) :
    (s.takeCtx b).Progress ((s.takeCtx b).next r b) := by
  have hcrc := crc_next (h.running (by simp [hst]) (by simp [hst]) (by simp [hst])) b
  obtain ⟨hseen, hchecked, -⟩ := h
  simp only [Node.Checked, hst] at hchecked
  by_cases hb : b = commVer1
  · simp only [takeCtx, Ctx.take, hst, Ctx.updateCrc, hb, ne_eq, not_true_eq_false, if_false]
    refine progress_next (by simp) ⟨?_, ⟨hchecked.1, hchecked.2, rfl⟩, fun _ _ => ?_⟩
    · rw [← hseen]; simp [Ctx.seen, Ctx.headLength, hst, frameHead]
    · simpa [← hb] using hcrc
  · simp only [takeCtx, Ctx.take, hst, Ctx.updateCrc, ne_eq, hb, not_false_eq_true, if_true]
    exact progress_reset rfl r b

theorem Node.Progress.take_src (hst : s.ctx.status = .src) :
    (s.takeCtx b).Progress ((s.takeCtx b).next r b) := by
  have hcrc := crc_next (h.running (by simp [hst]) (by simp [hst]) (by simp [hst])) b
  obtain ⟨hseen, hchecked, -⟩ := h
  simp only [Node.Checked, hst] at hchecked
  by_cases hflag : s.ctx.srcFlag
  · simp only [takeCtx, Ctx.take, hst, Ctx.updateCrc, hflag, Bool.not_true, Bool.false_eq_true,
      if_false]
    refine progress_next (by simp) ⟨?_, ⟨⟨hchecked.1, hchecked.2, hchecked.3⟩, by simp⟩,
      fun _ _ => by simpa using hcrc⟩
    rw [← hseen]; simp [Ctx.seen, Ctx.headLength, hst, hflag, frameHead]
  · simp only [takeCtx, Ctx.take, hst, Ctx.updateCrc, hflag, Bool.not_false, if_true]
    refine progress_next (by simp) ⟨?_, ?_, fun _ _ => by simpa [hst] using hcrc⟩
    · rw [← hseen]; simp [Ctx.seen, Ctx.headLength, hst, hflag, frameHead]
    · simp only [Node.Checked]
      exact ⟨hchecked.1, hchecked.2, hchecked.3⟩

theorem Node.Progress.take_dst (hst : s.ctx.status = .dst) :
    (s.takeCtx b).Progress ((s.takeCtx b).next r b) := by
  have hcrc := crc_next (h.running (by simp [hst]) (by simp [hst]) (by simp [hst])) b
  obtain ⟨hseen, hchecked, -⟩ := h
  simp only [Node.Checked, hst] at hchecked
  obtain ⟨hver, hroute⟩ := hchecked
  by_cases hflag : s.ctx.dstFlag
  · by_cases haddr : isAddrMatch b s.ctx.dSrc ∨ s.ctx.isRoute
    · simp only [takeCtx, Ctx.take, hst, Ctx.updateCrc, hflag, Bool.not_true, Bool.false_eq_true,
        if_false, haddr, if_true]
      refine progress_next (by simp) ⟨?_, ⟨⟨hver.1, hver.2, hver.3⟩, hroute hflag, haddr⟩,
        fun _ _ => by simpa using hcrc⟩
      rw [← hseen]; simp [Ctx.seen, Ctx.headLength, hst, hflag, frameHead]
    · simp only [takeCtx, Ctx.take, hst, Ctx.updateCrc, hflag, Bool.not_true, Bool.false_eq_true,
        if_false, haddr]
      exact progress_reset rfl r b
  · simp only [takeCtx, Ctx.take, hst, Ctx.updateCrc, hflag, Bool.not_false, if_true]
    refine progress_next (by simp) ⟨?_, ⟨⟨hver.1, hver.2, hver.3⟩, fun _ => rfl⟩,
      fun _ _ => by simpa using hcrc⟩
    rw [← hseen]; simp [Ctx.seen, Ctx.headLength, hst, hflag, frameHead]

/-- The first command byte. -/
theorem Node.Progress.take_cmd (hst : s.ctx.status = .cmd) (hflag : s.ctx.cmdFlag = false) :
    (s.takeCtx b).Progress ((s.takeCtx b).next r b) := by
  have hcrc := crc_next (h.running (by simp [hst]) (by simp [hst]) (by simp [hst])) b
  obtain ⟨hseen, hchecked, -⟩ := h
  simp only [Node.Checked, hst] at hchecked
  simp only [takeCtx, Ctx.take, hst, Ctx.updateCrc]
  obtain ⟨hver, hroute, haddr⟩ := hchecked
  refine progress_next (by simp) ⟨?_, ⟨⟨hver.1, hver.2, hver.3⟩, hroute, haddr⟩,
    fun _ _ => by simpa using hcrc⟩
  rw [← hseen]; simp [Ctx.seen, Ctx.headLength, hst, hflag, frameHead]

theorem Node.Progress.take_ack (hst : s.ctx.status = .ack) :
    (s.takeCtx b).Progress ((s.takeCtx b).next r b) := by
  have hcrc := crc_next (h.running (by simp [hst]) (by simp [hst]) (by simp [hst])) b
  obtain ⟨hseen, hchecked, -⟩ := h
  simp only [Node.Checked, hst] at hchecked
  obtain ⟨⟨hver, hroute, haddr⟩, hfunc⟩ := hchecked
  simp only [takeCtx, Ctx.take, hst, Ctx.updateCrc]
  refine progress_next (by simp) ⟨?_,
    ⟨⟨⟨⟨hver.1, hver.2, hver.3⟩, hroute, haddr⟩, hfunc⟩, rfl⟩, fun _ _ => by simpa using hcrc⟩
  rw [← hseen]; simp [Ctx.seen, Ctx.headLength, hst, frameHead]

theorem Node.Progress.take_len (hst : s.ctx.status = .len) :
    (s.takeCtx b).Progress ((s.takeCtx b).next r b) := by
  have hcrc := crc_next (h.running (by simp [hst]) (by simp [hst]) (by simp [hst])) b
  obtain ⟨hseen, hchecked, -⟩ := h
  simp only [Node.Checked, hst] at hchecked
  obtain ⟨⟨⟨hver, hroute, haddr⟩, hfunc⟩, hlen⟩ := hchecked
  by_cases hflag : s.ctx.lenFlag
  · -- the second length byte: a payload that does not fit is refused
    rw [if_pos hflag] at hlen
    obtain ⟨lo, hlo⟩ := hlen
    by_cases hfit : s.ctx.bufferSize < s.ctx.pack.len ||| (b.toUInt16 <<< 8)
    · simp only [takeCtx, Ctx.take, hst, Ctx.updateCrc, hflag, Bool.not_true, Bool.false_eq_true,
        if_false, hfit, if_true]
      exact progress_reset rfl r b
    · simp only [takeCtx, Ctx.take, hst, Ctx.updateCrc, hflag, Bool.not_true, Bool.false_eq_true,
        if_false, hfit]
      refine progress_next (by simp) ⟨?_, ⟨⟨⟨⟨⟨hver.1, rfl, hver.3⟩, hroute, haddr⟩, hfunc⟩,
        UInt16.not_lt.mp hfit⟩, Nat.zero_add _⟩, fun _ _ => by simpa using hcrc⟩
      rw [← hseen]
      simp [Ctx.seen, Ctx.headLength, hst, hflag, frameHead, hlo, lowByte_word, highByte_word,
        lowByte_byte, -UInt16.toUInt8_and]
  · rw [if_neg hflag] at hlen
    simp only [takeCtx, Ctx.take, hst, Ctx.updateCrc, hflag, Bool.not_false, if_true]
    refine progress_next (by simp) ⟨?_, ⟨⟨⟨⟨hver.1, hver.2, hver.3⟩, hroute, haddr⟩, hfunc⟩,
      b, by simp [hlen]⟩, fun _ _ => by simpa using hcrc⟩
    rw [← hseen]
    simp [Ctx.seen, Ctx.headLength, hst, hflag, frameHead, hlen, lowByte_byte, -UInt16.toUInt8_and]

theorem Node.Progress.take_data (hst : s.ctx.status = .data) :
    (s.takeCtx b).Progress ((s.takeCtx b).next r b) := by
  have hrun := h.running (by simp [hst]) (by simp [hst]) (by simp [hst])
  obtain ⟨hseen, hchecked, -⟩ := h
  simp only [Node.Checked, hst] at hchecked
  obtain ⟨⟨⟨⟨hver, hroute, haddr⟩, hfunc⟩, hle⟩, hlen⟩ := hchecked
  have hseen' : frameHead s.ctx.pack ++ s.ctx.dataBuffer.slice 0 s.ctx.index.toNat = r := by
    rw [← hseen]
    simp [Ctx.seen, Ctx.headLength, hst, frameHead]
  by_cases hdone : s.ctx.len = 0
  · -- the payload is complete: this is the first byte of the CRC
    have hidx : s.ctx.index.toNat = s.ctx.pack.len.toNat := by
      rw [hdone] at hlen; simpa using hlen
    simp only [takeCtx, Ctx.take, hst, hdone, ne_eq, not_true_eq_false, if_false]
    refine progress_next (by simp) ⟨?_, ⟨⟨⟨⟨⟨hver.1, hver.2, hver.3⟩, hroute, haddr⟩, hfunc⟩, hle⟩,
      b, rfl⟩, fun _ _ => ?_⟩
    · rw [← hseen', hidx]
      simp [Ctx.seen, Ctx.headLength, Ctx.payload, lowByte_byte, frameHead, -UInt16.toUInt8_and]
    · rw [if_pos rfl, hrun, ← hseen', hidx]
      rfl
  · have hpos : 1 ≤ s.ctx.len.toNat :=
      Nat.one_le_iff_ne_zero.mpr fun h0 => hdone (UInt16.toNat_inj.mp h0)
    have hpred : (s.ctx.len - 1).toNat = s.ctx.len.toNat - 1 :=
      UInt16.toNat_sub_of_le s.ctx.len 1 (UInt16.le_iff_toNat_le.mpr hpos)
    have hbound := s.ctx.pack.len.toNat_lt
    have hidx : (s.ctx.index + 1).toNat = s.ctx.index.toNat + 1 := by
      simp only [UInt16.toNat_add, UInt16.toNat_one]; omega
    have hcrc := crc_next hrun b
    simp only [takeCtx, Ctx.take, hst, ne_eq, hdone, not_false_eq_true, if_true, Ctx.updateCrc]
    refine progress_next (by simp) ⟨?_, ⟨⟨⟨⟨⟨hver.1, hver.2, hver.3⟩, hroute, haddr⟩, hfunc⟩, hle⟩,
      ?_⟩, fun _ _ => by simpa using hcrc⟩
    · have hslice :=
        Memory.slice_write_extend [b] (Eq.refl (s.ctx.dataBuffer.slice 0 s.ctx.index.toNat))
      rw [Nat.zero_add] at hslice
      rw [← hseen', List.append_assoc, ← hslice]
      simp [Ctx.seen, Ctx.headLength, frameHead, hidx]
    · show (s.ctx.index + 1).toNat + (s.ctx.len - 1).toNat = s.ctx.pack.len.toNat
      rw [hidx, hpred]; omega

theorem Node.Progress.take_crc (hst : s.ctx.status = .crc) :
    (s.takeCtx b).Progress ((s.takeCtx b).next r b) := by
  have hcrc := h.crc_eq (by simp [hst]) (by simp [hst])
  obtain ⟨hseen, hchecked, -⟩ := h
  simp only [Node.Checked, hst] at hchecked
  obtain ⟨⟨⟨⟨hver, hroute, haddr⟩, hfunc⟩, hle⟩, lo, hlo⟩ := hchecked
  rw [if_pos hst] at hcrc
  by_cases heq : crc16Final s.ctx.crc = s.ctx.pack.crc ||| (b.toUInt16 <<< 8)
  · simp only [takeCtx, Ctx.take, hst, heq, ne_eq, not_true_eq_false, if_false]
    refine progress_next (by simp) ⟨?_, ⟨⟨⟨⟨⟨hver.1, hver.2, hver.3⟩, hroute, haddr⟩, hfunc⟩, hle⟩,
      ?_, rfl⟩, fun _ h' => absurd rfl h'⟩
    · rw [← hseen]
      simp [Ctx.seen, Ctx.headLength, Ctx.payload, hst, hlo, lowByte_word, highByte_word,
        lowByte_byte, frameHead, -UInt16.toUInt8_and]
    · show s.ctx.pack.crc ||| (b.toUInt16 <<< 8) = _
      rw [← heq, hcrc]
      rfl
  · simp only [takeCtx, Ctx.take, hst, ne_eq, heq, not_false_eq_true, if_true]
    exact progress_reset rfl r b

/-- The first end byte. -/
theorem Node.Progress.take_eop (hst : s.ctx.status = .eop) (hflag : s.ctx.eopFlag = false) :
    (s.takeCtx b).Progress ((s.takeCtx b).next r b) := by
  obtain ⟨hseen, hchecked, -⟩ := h
  simp only [Node.Checked, hst] at hchecked
  obtain ⟨⟨⟨⟨hver, hroute, haddr⟩, hfunc⟩, hle⟩, hcrc, heop⟩ := hchecked
  rw [if_neg (by simp [hflag])] at heop
  simp only [takeCtx, Ctx.take, hst]
  refine progress_next (by simp) ⟨?_, ⟨⟨⟨⟨⟨hver.1, hver.2, hver.3⟩, hroute, haddr⟩, hfunc⟩, hle⟩,
    hcrc, b, by simp [heop]⟩, fun _ h' => absurd rfl h'⟩
  rw [← hseen]
  simp [Ctx.seen, Ctx.headLength, Ctx.payload, hst, hflag, heop, lowByte_byte, frameHead,
    -UInt16.toUInt8_and]

end take

/-- **A byte that only concerns the context keeps the progress**, in every state. -/
theorem Node.Progress.takeCtx {s : Node} {r : List UInt8} (h : s.Progress r) (b : UInt8)
    (hcmd : ¬ (s.ctx.status = .cmd ∧ s.ctx.cmdFlag))
    (heop : ¬ (s.ctx.status = .eop ∧ s.ctx.eopFlag)) :
    (s.takeCtx b).Progress ((s.takeCtx b).next r b) := by
  cases hst : s.ctx.status
  case sop => exact h.take_sop b hst
  case ver => exact h.take_ver b hst
  case src => exact h.take_src b hst
  case dst => exact h.take_dst b hst
  case cmd => exact h.take_cmd b hst (by simpa [hst] using hcmd)
  case ack => exact h.take_ack b hst
  case len => exact h.take_len b hst
  case data => exact h.take_data b hst
  case crc => exact h.take_crc b hst
  case eop => exact h.take_eop b hst (by simpa [hst] using heop)
  case route =>
    have := h.checked
    simp [Node.Checked, hst] at this

/-! ## The command -/

theorem findCommFuncFrom_none {tail : Option ℕ} {cmdSet cmdWord : UInt8}
    {before rest : List CommandItem} (h : ∀ i ∈ rest, i.isFor cmdSet cmdWord = false) :
    (findCommFuncFrom tail cmdSet cmdWord before rest).1 = none := by
  induction rest generalizing before with
  | nil => rfl
  | cons i rest ih =>
    unfold findCommFuncFrom
    rw [h i (List.mem_cons_self ..), if_neg (by decide)]
    exact ih fun j hj => h j (List.mem_cons_of_mem i hj)

theorem findCommFuncFrom_again {tail : Option ℕ} {cmdSet cmdWord : UInt8}
    {before rest : List CommandItem} (hbefore : ∀ i ∈ before, i.isFor cmdSet cmdWord = false) :
    ((findCommFuncFrom tail cmdSet cmdWord before rest).2.findCommFunc cmdSet cmdWord).1 =
      (findCommFuncFrom tail cmdSet cmdWord before rest).1 := by
  induction rest generalizing before with
  | nil => exact findCommFuncFrom_none fun i hi => hbefore i (List.mem_reverse.mp hi)
  | cons i rest ih =>
    unfold findCommFuncFrom
    by_cases hfor : i.isFor cmdSet cmdWord
    · cases before <;> simp [hfor, CommandList.findCommFunc, findCommFuncFrom]
    · simp only [hfor, Bool.false_eq_true, if_false]
      refine ih fun j hj => ?_
      rcases List.mem_cons.mp hj with rfl | hj
      · simpa using hfor
      · exact hbefore j hj

/-- Moving a command to the front does not change what is found for it. -/
theorem CommandList.findCommFunc_again (l : CommandList) (cmdSet cmdWord : UInt8) :
    ((l.findCommFunc cmdSet cmdWord).2.findCommFunc cmdSet cmdWord).1 =
      (l.findCommFunc cmdSet cmdWord).1 :=
  findCommFuncFrom_again (by simp)

/-- The second command byte. -/
theorem Node.Progress.takeCmdWord {s : Node} {r : List UInt8} (h : s.Progress r) (b : UInt8)
    (hst : s.ctx.status = .cmd) (hflag : s.ctx.cmdFlag) :
    (s.takeCmdWord b).Progress ((s.takeCmdWord b).next r b) := by
  have hcrc := crc_next (h.running (by simp [hst]) (by simp [hst]) (by simp [hst])) b
  obtain ⟨hseen, hchecked, -⟩ := h
  simp only [Node.Checked, hst] at hchecked
  obtain ⟨hver, hroute, haddr⟩ := hchecked
  have hseen' : (frameHead { s.ctx.pack with cmdWord := b }).take 8 = r ++ [b] := by
    rw [← hseen]
    simp [Ctx.seen, Ctx.headLength, hst, hflag, frameHead]
  simp only [Node.takeCmdWord, Ctx.updateCrc]
  by_cases hisRoute : s.ctx.isRoute
  · simp only [hisRoute, if_true]
    refine progress_next (by simp) ⟨?_, ⟨⟨⟨hver.1, hver.2, hver.3⟩, hisRoute.symm.trans hroute,
      Or.inr rfl⟩, Or.inl rfl⟩, fun _ _ => by simpa using hcrc⟩
    simpa [Ctx.seen, Ctx.headLength] using hseen'
  · have hlocal : s.ctx.isRoute = false := by simpa using hisRoute
    simp only [hlocal, Bool.false_eq_true, if_false]
    cases hfound : (s.commands.findCommFunc s.ctx.pack.cmdSet b).1 with
    | none =>
      simp only [if_true]
      exact progress_reset rfl r b
    | some func =>
      simp only [reduceCtorEq, if_false]
      refine progress_next (by simp) ⟨?_, ⟨⟨⟨hver.1, hver.2, hver.3⟩, hlocal.symm.trans hroute,
        Or.inl (haddr.resolve_right hisRoute)⟩,
          Or.inr ⟨func, rfl, (CommandList.findCommFunc_again _ _ _).trans hfound⟩⟩,
        fun _ _ => by simpa using hcrc⟩
      simpa [Ctx.seen, Ctx.headLength] using hseen'

end Atoman.Comm
