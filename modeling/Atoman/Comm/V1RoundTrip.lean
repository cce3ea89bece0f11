import Atoman.Comm.V1Blocks
import Atoman.Comm.V1Header

/-!
# Sending and receiving, 0xE9

What one node sends in time to another that it addresses arrives there: one call of
the handler, with the fields and the payload of the sender, whatever codec the sender
chose.
-/

namespace Atoman.Comm.V1
open Lib

variable {net : Network} {printf : Output}

/-! ## The chosen encoding -/

/-- A codec and a payload on the wire that stand for the raw payload. -/
structure Encodes (raw : List UInt8) (best : UInt8 × List UInt8) : Prop where
  codec_le : best.1.toNat ≤ 4
  length_le : best.2.length ≤ raw.length
  decodes : best.1 = codecRaw ∧ best.2 = raw ∨
    best.1 ≠ codecRaw ∧ decodeData best.1 best.2 maxData = some raw

/-- No codec accepts an empty input. -/
theorem decodeData_nil (codec : UInt8) (capacity : ℕ) : decodeData codec [] capacity = none := by
  unfold decodeData Codec.Dict.decode Codec.Rle.decode Codec.Lzss.decode Codec.Zero.decode
  simp [Codec.bounded]

theorem Encodes.length_pos {raw : List UInt8} {best : UInt8 × List UInt8} (h : Encodes raw best)
    (hraw : raw ≠ []) : 0 < best.2.length := by
  rw [List.length_pos_iff]
  intro hnil
  rcases h.decodes with ⟨-, hd⟩ | ⟨-, hd⟩
  · exact hraw (hd ▸ hnil)
  · rw [hnil, decodeData_nil] at hd
    exact absurd hd (by simp)

/-- Trying one more encoding keeps the payload decodable. -/
theorem Encodes.tryCodec {raw : List UInt8} {best : UInt8 × List UInt8} (h : Encodes raw best)
    (codec : UInt8) (encode : List UInt8 → ℕ → ℕ → Option (List UInt8)) (hcodec : codec.toNat ≤ 4)
    (hne : codec ≠ codecRaw)
    (henc : ∀ capacity limit code, encode raw capacity limit = some code →
      decodeData codec code maxData = some raw) :
    Encodes raw (tryCodec codec encode raw best) := by
  unfold V1.tryCodec
  split
  · exact h
  · next code hcode =>
    split
    · next hlt =>
      exact ⟨hcodec, Nat.le_trans (Nat.le_of_lt hlt) h.length_le, Or.inr ⟨hne, henc _ _ _ hcode⟩⟩
    · exact h

/-- Whatever the sender selects is decoded to the raw payload. -/
theorem selectCodec_encodes (codecSelect : Bool) {raw : List UInt8} (hlen : raw.length ≤ maxData) :
    Encodes raw (selectCodec codecSelect raw) := by
  have hlim : raw.length < 257 := Nat.lt_succ_of_le hlen
  have hraw : Encodes raw (codecRaw, raw) := ⟨Nat.zero_le _, Nat.le_refl _, Or.inl ⟨rfl, rfl⟩⟩
  have hdict := fun best (h : Encodes raw best) =>
    h.tryCodec codecDict Codec.Dict.encode (by decide) (by decide)
      fun _ _ _ hc => Codec.Dict.decode_encode hc hlen hlim
  have hrle := fun best (h : Encodes raw best) =>
    h.tryCodec codecRle Codec.Rle.encode (by decide) (by decide)
      fun _ _ _ hc => Codec.Rle.decode_encode hc hlen hlim
  have hlzss := fun best (h : Encodes raw best) =>
    h.tryCodec codecLzss Codec.Lzss.encode (by decide) (by decide)
      fun _ _ _ hc => Codec.Lzss.decode_encode hc hlen hlim
  have hzero := fun best (h : Encodes raw best) =>
    h.tryCodec codecZero Codec.Zero.encode (by decide) (by decide)
      fun _ _ _ hc => Codec.Zero.decode_encode hc hlen hlim
  unfold selectCodec
  dsimp only
  split
  · refine hzero _ ?_
    split
    · refine hlzss _ ?_
      split
      · exact hrle _ (hdict _ hraw)
      · exact hdict _ hraw
    · split
      · exact hrle _ (hdict _ hraw)
      · exact hdict _ hraw
  · exact hraw

/-! ## Bytes in time -/

/-- Bytes at their ticks. -/
def arrive (net : Network) (printf : Output) (arrivals : List (UInt32 × UInt8)) (s : Node) : Node :=
  arrivals.foldl (fun s p => run net printf p.1 p.2 s) s

/-- No byte comes late after the one before. -/
def InTime (arrivals : List (UInt32 × UInt8)) : Prop :=
  arrivals.IsChain fun p q => q.1 - p.1 ≤ frameTimeoutTick

instance (arrivals : List (UInt32 × UInt8)) : Decidable (InTime arrivals) :=
  inferInstanceAs (Decidable (List.IsChain _ _))

/-- Bytes without their ticks. -/
def takeAll (net : Network) (printf : Output) (data : List UInt8) (s : Node) : Node :=
  data.foldl (fun s b => s.take net printf b) s

/-- The node with another tick of the last byte. -/
def Node.setTick (s : Node) (t : UInt32) : Node := { s with ctx := { s.ctx with lastRxTick := t } }

@[simp] theorem Node.setTick_setTick (s : Node) (t u : UInt32) :
    (s.setTick t).setTick u = s.setTick u := rfl

@[simp] theorem Node.setTick_lastRxTick (s : Node) : s.setTick s.ctx.lastRxTick = s := rfl

theorem Ctx.take_setTick (c : Ctx) (t : UInt32) (b : UInt8) :
    ({ c with lastRxTick := t } : Ctx).take net b = { c.take net b with lastRxTick := t } := by
  cases hst : c.status <;> simp only [Ctx.take, hst]
  case idle => by_cases hb : b = sopByte <;> simp [hb, hst]
  case msgL0 => unfold Ctx.takeL0; dsimp only; split <;> rfl
  case msgL3 =>
    unfold Ctx.takeL3
    dsimp only [Ctx.capture]
    repeat' split
    all_goals rfl
  case data => by_cases hlen : c.len - 1 = 0 <;> simp [Ctx.capture, hlen]
  all_goals rfl

theorem Ctx.decodePayload_setTick (c : Ctx) (t : UInt32) :
    ({ c with lastRxTick := t } : Ctx).decodePayload =
      c.decodePayload.map fun d => { d with lastRxTick := t } := by
  unfold Ctx.decodePayload
  dsimp only
  split
  · rw [Option.map_map]; rfl
  · rfl

variable (net printf) in
theorem Node.callFunc_setTick (s : Node) (t : UInt32) (func : ℕ) :
    (s.setTick t).callFunc net printf func = (s.callFunc net printf func).setTick t := by
  cases hp : s.ctx.pack.pData <;>
    simp [Node.callFunc, Node.setTick, Ctx.dataMemory, hp]

theorem Node.deliver_setTick (s : Node) (t : UInt32) :
    (s.setTick t).deliver net printf = (s.deliver net printf).setTick t := by
  unfold Node.deliver
  dsimp only [Node.setTick]
  split
  · rfl
  · split
    · rfl
    · split
      · rfl
      · next func hfunc =>
        have := Node.callFunc_setTick net printf
          { s with ctx := { s.ctx with
            pack := { s.ctx.pack with crc := 0, eop := 0 }, func := some func }.remember } t func
        exact congrArg (fun n : Node => { n with ctx := n.ctx.reset }) this

theorem Node.takeSum_setTick (s : Node) (t : UInt32) (b : UInt8) :
    (s.setTick t).takeSum net printf b = (s.takeSum net printf b).setTick t := by
  unfold Node.takeSum
  have hwire : (s.setTick t).ctx.wire = s.ctx.wire := rfl
  rw [hwire]
  split
  · rfl
  · have hdec : (s.setTick t).ctx.decodePayload =
        s.ctx.decodePayload.map fun d => { d with lastRxTick := t } :=
      s.ctx.decodePayload_setTick t
    rw [hdec]
    cases s.ctx.decodePayload with
    | none => rfl
    | some c => exact Node.deliver_setTick { s with ctx := c } t

/-- Only the timeout check reads the tick. -/
theorem Node.take_setTick (s : Node) (t : UInt32) (b : UInt8) :
    (s.setTick t).take net printf b = (s.take net printf b).setTick t := by
  unfold Node.take
  by_cases h : s.ctx.status = .sum
  · rw [if_pos h, if_pos (show (s.setTick t).ctx.status = .sum from h), s.takeSum_setTick]
  · rw [if_neg h, if_neg (show ¬ (s.setTick t).ctx.status = .sum from h)]
    simp only [Node.setTick, Ctx.take_setTick]

theorem takeAll_setTick (data : List UInt8) (s : Node) (t : UInt32) :
    takeAll net printf data (s.setTick t) = (takeAll net printf data s).setTick t := by
  induction data generalizing s with
  | nil => rfl
  | cons b data ih =>
    show takeAll net printf data ((s.setTick t).take net printf b) = _
    rw [s.take_setTick t b]
    exact ih _

variable (net printf) in
/-- A byte in time is taken; its tick is remembered. -/
theorem run_inTime {s : Node} {t : UInt32}
    (h : s.ctx.status = .idle ∨ t - s.ctx.lastRxTick ≤ frameTimeoutTick) (b : UInt8) :
    run net printf t b s = (s.take net printf b).setTick t := by
  have hreset : ¬ (s.ctx.status ≠ .idle ∧ frameTimeoutTick < t - s.ctx.lastRxTick) := by
    rintro ⟨hidle, hlt⟩
    rcases h with h | h
    · exact hidle h
    · exact absurd hlt (UInt32.not_lt.mpr h)
  rw [← s.take_setTick t b, run, Ctx.receive, if_neg hreset]
  rfl

variable (net printf) in
/-- **Bytes in time** do what they do without their ticks. By induction on the
bytes; each is in time because the one before left its tick. -/
theorem arrive_eq_takeAll (arrivals : List (UInt32 × UInt8)) {s : Node}
    (hfirst : ∀ p ∈ arrivals.head?, s.ctx.status = .idle ∨
      p.1 - s.ctx.lastRxTick ≤ frameTimeoutTick) (h : InTime arrivals) :
    ∃ t, arrive net printf arrivals s =
      (takeAll net printf (arrivals.map Prod.snd) s).setTick t := by
  induction arrivals generalizing s with
  | nil => exact ⟨s.ctx.lastRxTick, rfl⟩
  | cons p rest ih =>
    have hrun := run_inTime net printf (hfirst p rfl) p.2
    obtain ⟨hnext, hchain⟩ : (∀ q ∈ rest.head?, q.1 - p.1 ≤ frameTimeoutTick) ∧ InTime rest := by
      cases rest with
      | nil => exact ⟨fun q hq => by simp at hq, List.IsChain.nil⟩
      | cons q rest =>
        obtain ⟨hq, hchain⟩ := List.isChain_cons_cons.mp h
        exact ⟨fun r hr => by obtain rfl := Option.some.inj hr; exact hq, hchain⟩
    obtain ⟨t, ht⟩ := ih (s := (s.take net printf p.2).setTick p.1)
      (fun q hq => Or.inr (hnext q hq)) hchain
    refine ⟨t, ?_⟩
    show arrive net printf rest (run net printf p.1 p.2 s) = _
    rw [hrun, ht, takeAll_setTick, Node.setTick_setTick]
    rfl

theorem take_eq_run (s : Node) (b : UInt8) :
    s.take net printf b = run net printf s.ctx.lastRxTick b s := by
  have hzero : s.ctx.lastRxTick - s.ctx.lastRxTick ≤ frameTimeoutTick := by
    rw [UInt32.sub_self]; decide
  rw [run_inTime net printf (Or.inr hzero)]
  have : (s.take net printf b).ctx.lastRxTick = s.ctx.lastRxTick := s.take_lastRxTick b
  exact (this ▸ Node.setTick_lastRxTick _).symm

theorem takeAll_eq_feed (data : List UInt8) (s : Node) :
    takeAll net printf data s = feed (run net printf) s.ctx.lastRxTick data s := by
  induction data generalizing s with
  | nil => rfl
  | cons b data ih =>
    rw [feed_cons, ← take_eq_run]
    have := ih (s.take net printf b)
    rw [Node.take_lastRxTick] at this
    exact this

theorem takeAll_append (data rest : List UInt8) (s : Node) :
    takeAll net printf (data ++ rest) s = takeAll net printf rest (takeAll net printf data s) := by
  simp [takeAll]

/-! ## The header -/

/-- The wire bytes captured so far. -/
structure Ctx.Captured (c : Ctx) (bytes : List UInt8) : Prop where
  wire_eq : c.wire = bytes
  wireLen_eq : c.wireLen.toNat = bytes.length

theorem Ctx.Captured.capture {c : Ctx} {bytes : List UInt8} (h : c.Captured bytes)
    (hlen : bytes.length < 65535) (b : UInt8) : (c.capture b).Captured (bytes ++ [b]) := by
  obtain ⟨hwire, hwireLen⟩ := h
  have hnext : (c.wireLen + 1).toNat = c.wireLen.toNat + 1 := by
    simp only [UInt16.toNat_add, UInt16.toNat_one]; omega
  constructor
  · show (c.wireBuffer.write c.wireLen.toNat [b]).slice 0 (c.wireLen + 1).toNat = _
    rw [hnext]
    have hslice : c.wireBuffer.slice 0 c.wireLen.toNat = bytes := hwire
    have := Memory.slice_write_extend [b] hslice
    rwa [Nat.zero_add] at this
  · show (c.wireLen + 1).toNat = _
    rw [hnext, hwireLen, List.length_append, List.length_singleton]

/-- A frame for this node is being received into a context that was `c₀` before. -/
structure Receiving (c₀ c : Ctx) (status : Sta) (msg : UInt32) (bytes : List UInt8) : Prop where
  status_eq : c.status = status
  captured : c.Captured bytes
  msg_eq : c.msg = msg
  isRoute_eq : c.isRoute = false
  index_eq : c.index = 0
  src_eq : c.src = c₀.src
  dSrc_eq : c.dSrc = c₀.dSrc
  candidateSize_eq : c.candidateSize = c₀.candidateSize
  lastSeq_eq : c.lastSeq = c₀.lastSeq
  lastSeqValid_eq : c.lastSeqValid = c₀.lastSeqValid

variable (net) in
theorem Ctx.take_sop {c : Ctx} (hidle : c.status = .idle) :
    Receiving c (c.take net sopByte) .msgL0 0 [sopByte] := by
  simp only [Ctx.take, hidle, if_true]
  refine ⟨rfl, ⟨?_, rfl⟩, rfl, rfl, rfl, rfl, rfl, rfl, rfl, rfl⟩
  exact Memory.slice_write_self c.wireBuffer 0 [sopByte]

variable (net) in
/-- The first header byte of a frame that is for this node and not a repetition. -/
theorem Receiving.takeL0 {c₀ c : Ctx} (h : Receiving c₀ c .msgL0 0 [sopByte]) {b seq dst : UInt8}
    (hseq : b &&& seqMask = seq) (hdst : (b >>> 3) &&& 0x0F = dst)
    (hfresh : ¬ (c₀.lastSeqValid = true ∧ c₀.lastSeq = seq)) (hlocal : dst = 0 ∨ dst = c₀.src) :
    Receiving c₀ (c.take net b) .msgL1 b.toUInt32 [sopByte, b] := by
  have hlocal' : (dst == 0 || dst == c.src) = true := by
    rw [h.src_eq]; simpa using hlocal
  have hfresh' : (c.lastSeqValid && seq == c.lastSeq) = false := by
    rw [h.lastSeq_eq, h.lastSeqValid_eq]
    by_contra hdup
    simp only [Bool.not_eq_false, Bool.and_eq_true, beq_iff_eq] at hdup
    exact hfresh ⟨hdup.1, hdup.2.symm⟩
  have htake : c.take net b =
      ({ c with
        isLocal := true, isRoute := false, msg := b.toUInt32, msgCnt := 1,
        status := .msgL1 } : Ctx).capture b := by
    simp only [Ctx.take, h.status_eq, Ctx.takeL0, hseq, hdst, hlocal', hfresh', Bool.not_false,
      Bool.true_or, Bool.and_self, if_true, Bool.not_true, Bool.false_and]
  rw [htake]
  have hcap := h.captured.capture (by decide) b
  exact ⟨rfl, ⟨hcap.1, hcap.2⟩, rfl, rfl, h.index_eq, h.src_eq, h.dSrc_eq, h.candidateSize_eq,
    h.lastSeq_eq, h.lastSeqValid_eq⟩

variable (net) in
theorem Receiving.takeL1 {c₀ c : Ctx} {msg : UInt32} {bytes : List UInt8}
    (h : Receiving c₀ c .msgL1 msg bytes) (hlen : bytes.length < 65535) (b : UInt8) :
    Receiving c₀ (c.take net b) .msgL2 (msg ||| (b.toUInt32 <<< 8)) (bytes ++ [b]) := by
  simp only [Ctx.take, h.status_eq, h.msg_eq]
  have hcap := h.captured.capture hlen b
  exact ⟨rfl, ⟨hcap.1, hcap.2⟩, rfl, h.isRoute_eq, h.index_eq, h.src_eq, h.dSrc_eq,
    h.candidateSize_eq, h.lastSeq_eq, h.lastSeqValid_eq⟩

variable (net) in
theorem Receiving.takeL2 {c₀ c : Ctx} {msg : UInt32} {bytes : List UInt8}
    (h : Receiving c₀ c .msgL2 msg bytes) (hlen : bytes.length < 65535) (b : UInt8) :
    Receiving c₀ (c.take net b) .msgL3 (msg ||| (b.toUInt32 <<< 16)) (bytes ++ [b]) := by
  simp only [Ctx.take, h.status_eq, h.msg_eq]
  have hcap := h.captured.capture hlen b
  exact ⟨rfl, ⟨hcap.1, hcap.2⟩, rfl, h.isRoute_eq, h.index_eq, h.src_eq, h.dSrc_eq,
    h.candidateSize_eq, h.lastSeq_eq, h.lastSeqValid_eq⟩

variable (net) in
/-- The last header byte of a frame whose codec and dynamic address are accepted. -/
theorem Receiving.takeL3 {c₀ c : Ctx} {msg msg' : UInt32} {bytes : List UInt8}
    (h : Receiving c₀ c .msgL3 msg bytes) (hlen : bytes.length < 65535) {b codec : UInt8}
    (hmsg : msg ||| (b.toUInt32 <<< 24) = msg') (hcodec : (b >>> 3) &&& 0x07 = codec)
    (hle : codec.toNat ≤ 4) (hraw : (b >>> 6) &&& 0x01 = 1 → codec = codecRaw)
    (haddr : (extract c.pack msg').dDst = 0 ∨ (extract c.pack msg').dDst = c₀.dSrc) :
    ((b >>> 6) &&& 0x01 = 1 → Receiving c₀ (c.take net b) .sum msg' (bytes ++ [b]) ∧
      (c.take net b).pack = { extract c.pack msg' with pData := .null, len := 0 }) ∧
    ((b >>> 6) &&& 0x01 ≠ 1 → Receiving c₀ (c.take net b) .len msg' (bytes ++ [b]) ∧
      (c.take net b).pack = extract c.pack msg') := by
  have hlegal : ¬ ((b >>> 6) &&& 0x01 = 1 ∧ codec ≠ codecRaw ∨ codecZero < codec) := by
    rintro (⟨h₁, h₂⟩ | h₁)
    · exact h₂ (hraw h₁)
    · have : 4 < codec.toNat := UInt8.lt_iff_toNat_lt.mp h₁
      omega
  have haddr' : (!c.isRoute && !((extract c.pack msg').dDst == 0 ||
      (extract c.pack msg').dDst == c.dSrc)) = false := by
    have : ((extract c.pack msg').dDst == 0 || (extract c.pack msg').dDst == c.dSrc) = true := by
      rw [h.dSrc_eq]; simpa using haddr
    rw [this]; simp
  have hcap := h.captured.capture hlen b
  simp only [Ctx.take, h.status_eq, Ctx.takeL3, h.msg_eq, hmsg, hcodec, if_neg hlegal]
  dsimp only [Ctx.capture]
  simp only [haddr', Bool.false_eq_true, if_false]
  constructor
  · intro hcmd
    rw [if_pos hcmd]
    exact ⟨⟨rfl, ⟨hcap.1, hcap.2⟩, rfl, h.isRoute_eq, h.index_eq, h.src_eq, h.dSrc_eq,
      h.candidateSize_eq, h.lastSeq_eq, h.lastSeqValid_eq⟩, rfl⟩
  · intro hcmd
    rw [if_neg hcmd]
    exact ⟨⟨rfl, ⟨hcap.1, hcap.2⟩, rfl, h.isRoute_eq, h.index_eq, h.src_eq, h.dSrc_eq,
      h.candidateSize_eq, h.lastSeq_eq, h.lastSeqValid_eq⟩, rfl⟩

/-- Before the checksum only the context changes. -/
theorem takeAll_cons {s : Node} (h : s.ctx.status ≠ .sum) (b : UInt8) (data : List UInt8) :
    takeAll net printf (b :: data) s =
      takeAll net printf data { s with ctx := s.ctx.take net b } := by
  show takeAll net printf data (s.take net printf b) = _
  rw [Node.take, if_neg h]

variable (net printf) in
/-- **The header of a frame for this node is received.** -/
theorem header_received {s : Node} (hidle : s.ctx.status = .idle) {pack : Pack} {codec : UInt8}
    {cmd ack : UInt32} (hfits : HeaderFits pack codec cmd ack) (hle : codec.toNat ≤ 4)
    (hraw : cmd = 1 → codec = codecRaw)
    (hfresh : ¬ (s.ctx.lastSeqValid = true ∧ s.ctx.lastSeq = pack.seq))
    (hlocal : pack.dst = 0 ∨ pack.dst = s.ctx.src)
    (hlocal' : pack.dDst = 0 ∨ pack.dDst = s.ctx.dSrc) :
    ∃ c p, takeAll net printf (sopByte :: msgBytes (msgWord pack codec cmd ack)) s =
        { s with ctx := c } ∧
      (cmd = 1 → Receiving s.ctx c .sum (msgWord pack codec cmd ack)
          (sopByte :: msgBytes (msgWord pack codec cmd ack)) ∧
        c.pack = { extract p (msgWord pack codec cmd ack) with pData := .null, len := 0 }) ∧
      (cmd ≠ 1 → Receiving s.ctx c .len (msgWord pack codec cmd ack)
          (sopByte :: msgBytes (msgWord pack codec cmd ack)) ∧
        c.pack = extract p (msgWord pack codec cmd ack)) := by
  rw [msgBytes_eq]
  obtain ⟨hseq, hdst⟩ := firstByte_fields hfits
  obtain ⟨hcmd, hcodec⟩ := lastByte_fields hfits
  have hjoin := joinBytes_msgBytes (msgWord pack codec cmd ack)
  have hextract := extract_msgWord hfits
  generalize msgByte (msgWord pack codec cmd ack) 0 = m₀ at *
  generalize msgByte (msgWord pack codec cmd ack) 8 = m₁ at *
  generalize msgByte (msgWord pack codec cmd ack) 16 = m₂ at *
  generalize msgByte (msgWord pack codec cmd ack) 24 = m₃ at *
  have hflag : (m₃ >>> 6) &&& 0x01 = 1 ↔ cmd = 1 := by
    rw [← UInt8.toNat_inj, ← UInt32.toNat_inj, hcmd]; rfl
  have h₀ := Ctx.take_sop net hidle
  have h₁ := h₀.takeL0 net hseq hdst hfresh hlocal
  have h₂ := h₁.takeL1 net (by simp) m₁
  have h₃ := h₂.takeL2 net (by simp) m₂
  have h₄ := h₃.takeL3 net (by simp) hjoin hcodec hle (fun h => hraw (hflag.mp h))
    (by rw [hextract]; exact hlocal')
  refine ⟨(((((s.ctx.take net sopByte).take net m₀).take net m₁).take net m₂).take net m₃),
    ((((s.ctx.take net sopByte).take net m₀).take net m₁).take net m₂).pack, ?_,
    fun h => h₄.1 (hflag.mpr h), fun h => h₄.2 (fun h' => h (hflag.mp h'))⟩
  rw [takeAll_cons (by rw [hidle]; decide), takeAll_cons (by rw [h₀.status_eq]; decide),
    takeAll_cons (by rw [h₁.status_eq]; decide), takeAll_cons (by rw [h₂.status_eq]; decide),
    takeAll_cons (by rw [h₃.status_eq]; decide)]
  rfl

/-! ## The payload -/

/-- The received frame has the fields of the sent one; the acknowledge flag is 0 or 1. -/
structure SameFrame (received sent : Pack) : Prop where
  src : received.src = sent.src
  dSrc : received.dSrc = sent.dSrc
  dst : received.dst = sent.dst
  dDst : received.dDst = sent.dDst
  cmdSet : received.cmdSet = sent.cmdSet
  cmdWord : received.cmdWord = sent.cmdWord
  seq : received.seq = sent.seq
  isAck : received.isAck = if sent.isAck ≠ 0 then 1 else 0

/-- All but the checksum of a frame for this node has been received. -/
structure Complete (c₀ c : Ctx) (pack : Pack) (codec : UInt8) (wire payload : List UInt8) :
    Prop where
  status_eq : c.status = .sum
  wire_eq : c.wire = wire
  isRoute_eq : c.isRoute = false
  candidateSize_eq : c.candidateSize = c₀.candidateSize
  codec_eq : (field c.msg 27 0x07).toUInt8 = codec
  payload_eq : c.dataBuffer.slice 0 c.index.toNat = payload
  same : SameFrame c.pack pack

/-- The length byte of a payload. -/
theorem lengthByte_spec {n : ℕ} (hpos : 0 < n) (hle : n ≤ maxData) :
    (if (if n = maxData then 0 else UInt8.ofNat n) = 0 then (256 : UInt16)
      else (if n = maxData then 0 else UInt8.ofNat n).toUInt16).toNat = n := by
  simp only [maxData] at hle ⊢
  by_cases hn : n = 256
  · simp [hn]
  · have hval : (UInt8.ofNat n).toNat = n := by rw [UInt8.toNat_ofNat']; omega
    have hne : UInt8.ofNat n ≠ 0 := fun h0 => by
      rw [h0] at hval
      simp at hval
      omega
    rw [if_neg hn, if_neg hne, UInt8.toNat_toUInt16, hval]

variable (net printf) in
/-- **The payload is received.** The length byte announces it, the bytes fill it. -/
theorem payload_received {s : Node} {c₀ : Ctx} {msg : UInt32} {head payload : List UInt8}
    (h : Receiving c₀ s.ctx .len msg head) (hhead : head.length = 5) (hpos : 0 < payload.length)
    (hle : payload.length ≤ maxData) :
    ∃ c, takeAll net printf
        ((if payload.length = maxData then 0 else UInt8.ofNat payload.length) :: payload) s =
        { s with ctx := c } ∧
      c.status = .sum ∧
      c.wire = head ++
        ((if payload.length = maxData then 0 else UInt8.ofNat payload.length) :: payload) ∧
      c.isRoute = false ∧ c.candidateSize = c₀.candidateSize ∧ c.msg = msg ∧
      c.dataBuffer.slice 0 c.index.toNat = payload ∧ c.pack = s.ctx.pack := by
  have hlenByte := lengthByte_spec hpos hle
  generalize (if payload.length = maxData then 0 else UInt8.ofNat payload.length : UInt8) = b at *
  rw [takeAll_cons (by rw [h.status_eq]; decide)]
  simp only [Ctx.take, h.status_eq]
  -- the context once the length byte is taken
  generalize hd : ({ s.ctx with
    len := if b = 0 then 256 else b.toUInt16, index := 0, status := .data } : Ctx).capture b = d
  have hcap := h.captured.capture (by omega) b
  have hst : d.status = .data := by rw [← hd]; rfl
  have hidx : d.index = 0 := by rw [← hd]; rfl
  have hlen : d.len.toNat = payload.length := by rw [← hd]; exact hlenByte
  have hwire : d.wire = head ++ [b] := by rw [← hd]; exact hcap.1
  have hwireLen : d.wireLen.toNat = 6 := by
    rw [← hd]
    refine hcap.2.trans ?_
    rw [List.length_append, hhead]; rfl
  have hin : d.InFrame := by
    simp only [Ctx.InFrame, hst, hidx, hlen, hwireLen]
    simpa using And.intro hpos hle
  have hcopy : takeAll net printf payload { s with ctx := d } =
      { s with ctx := d.copyData d.lastRxTick payload } := by
    rw [takeAll_eq_feed]
    obtain ⟨x, xs, rfl⟩ := List.exists_cons_of_length_pos hpos
    exact (copyData_eq_feed x xs (s := { s with ctx := d }) hin hst (Ctx.not_late_of_tick rfl)
      (Nat.le_of_eq hlen.symm)).symm
  have hidx' : (UInt16.ofNat (d.index.toNat + payload.length)).toNat = payload.length := by
    simp only [maxData] at hle
    rw [hidx, UInt16.toNat_ofNat']
    simp only [UInt16.toNat_zero]
    omega
  have hwireLen' : (UInt16.ofNat (d.wireLen.toNat + payload.length)).toNat =
      d.wireLen.toNat + payload.length := by
    simp only [maxData] at hle
    rw [UInt16.toNat_ofNat']; omega
  refine ⟨_, hcopy, ?_, ?_, ?_, ?_, ?_, ?_, ?_⟩
  · simp [Ctx.copyData, hlen]
  · show (d.wireBuffer.write d.wireLen.toNat payload).slice 0
      (UInt16.ofNat (d.wireLen.toNat + payload.length)).toNat = _
    rw [hwireLen']
    have hslice : d.wireBuffer.slice 0 d.wireLen.toNat = head ++ [b] := hwire
    have := Memory.slice_write_extend payload hslice
    rw [Nat.zero_add] at this
    rw [this, List.append_assoc, List.singleton_append]
  · show d.isRoute = false
    rw [← hd]; exact h.isRoute_eq
  · show d.candidateSize = _
    rw [← hd]; exact h.candidateSize_eq
  · show d.msg = _
    rw [← hd]; exact h.msg_eq
  · show (d.dataBuffer.write d.index.toNat payload).slice 0
      (UInt16.ofNat (d.index.toNat + payload.length)).toNat = _
    rw [hidx', hidx]
    exact Memory.slice_write_self _ 0 payload
  · show d.pack = _
    rw [← hd]; rfl

/-! ## The checksum -/

/-- The payload of a complete frame is decoded to the raw payload. -/
theorem Complete.decodePayload {c₀ c : Ctx} {pack : Pack} {codec : UInt8}
    {wire payload raw : List UInt8} (h : Complete c₀ c pack codec wire payload)
    (henc : Encodes raw (codec, payload)) (hsize : c₀.candidateSize = 256)
    (hlen : raw.length ≤ maxData) :
    ∃ d, c.decodePayload = some d ∧ SameFrame d.pack pack ∧ d.isRoute = false ∧
      d.dataMemory.slice 0 d.pack.len.toNat = raw ∧ d.pack.len.toNat = raw.length := by
  have hcap : c.candidateSize.toNat = maxData := by rw [h.candidateSize_eq, hsize]; rfl
  unfold Ctx.decodePayload
  dsimp only
  rw [h.codec_eq, h.payload_eq, hcap]
  rcases henc.decodes with ⟨hraw, hpayload⟩ | ⟨hraw, hdecode⟩
  · simp only at hraw hpayload
    rw [if_neg (by simpa using hraw)]
    have hpay := h.payload_eq
    rw [hpayload] at hpay
    refine ⟨_, rfl, ⟨h.same.src, h.same.dSrc, h.same.dst, h.same.dDst, h.same.cmdSet,
      h.same.cmdWord, h.same.seq, h.same.isAck⟩, h.isRoute_eq, hpay, ?_⟩
    rw [← hpay, Memory.length_slice]
  · simp only at hraw hdecode
    have hval : (UInt16.ofNat raw.length).toNat = raw.length := by
      simp only [maxData] at hlen
      rw [UInt16.toNat_ofNat']; omega
    rw [if_pos hraw, hdecode]
    refine ⟨_, rfl, ⟨h.same.src, h.same.dSrc, h.same.dst, h.same.dDst, h.same.cmdSet,
      h.same.cmdWord, h.same.seq, h.same.isAck⟩, h.isRoute_eq, ?_, hval⟩
    show (c.candidateBuffer.write 0 raw).slice 0 (UInt16.ofNat raw.length).toNat = raw
    rw [hval]
    exact Memory.slice_write_self _ 0 raw

variable (net printf) in
/-- **The checksum completes the frame**: one call of the handler, then idle. -/
theorem sum_received {s : Node} {c₀ : Ctx} {pack : Pack} {codec : UInt8}
    {wire payload raw : List UInt8} {func : ℕ} (h : Complete c₀ s.ctx pack codec wire payload)
    (henc : Encodes raw (codec, payload)) (hsize : c₀.candidateSize = 256)
    (hlen : raw.length ≤ maxData) (hcmd : ¬ isCodecSelect pack)
    (hfunc : s.commands.findFunc pack.cmdSet pack.cmdWord = some func) :
    ∃ received, (s.take net printf (sumEncode wire)).log =
        s.log ++ [Event.dispatched func printf received raw] ∧
      SameFrame received pack ∧ received.len.toNat = raw.length ∧
      (s.take net printf (sumEncode wire)).ctx.status = .idle ∧
      (s.take net printf (sumEncode wire)).ctx.reset =
        (s.take net printf (sumEncode wire)).ctx := by
  obtain ⟨d, hdecode, hsame, hroute, hpayload, hpayloadLen⟩ := h.decodePayload henc hsize hlen
  have hselect : isCodecSelect { d.pack with crc := 0, eop := 0 } = false := by
    have : isCodecSelect pack = false := by simpa using hcmd
    rw [← this]
    simp only [isCodecSelect, hsame.cmdSet, hsame.cmdWord]
  have hfind : s.commands.findFunc d.pack.cmdSet d.pack.cmdWord = some func := by
    rw [hsame.cmdSet, hsame.cmdWord]; exact hfunc
  rw [Node.take, if_pos h.status_eq, Node.takeSum, if_neg (by rw [h.wire_eq]; simp), hdecode]
  dsimp only
  refine ⟨{ d.pack with crc := 0, eop := 0 }, ?_, ⟨hsame.src, hsame.dSrc, hsame.dst, hsame.dDst,
    hsame.cmdSet, hsame.cmdWord, hsame.seq, hsame.isAck⟩, hpayloadLen, ?_, ?_⟩
  · simp only [Node.deliver, hselect, hroute, hfind, Bool.false_eq_true, if_false]
    show s.log ++ [Event.dispatched func printf { d.pack with crc := 0, eop := 0 }
      (d.dataMemory.slice 0 d.pack.len.toNat)] = _
    rw [hpayload]
  · simp only [Node.deliver, hselect, hroute, hfind, Bool.false_eq_true, if_false]
    rfl
  · simp only [Node.deliver, hselect, hroute, hfind, Bool.false_eq_true, if_false]
    rfl

/-! ## End to end -/

/-- The frame of a pack, in front of its checksum. -/
def frameBody (pack : Pack) (raw : List UInt8) : List UInt8 :=
  let cmd : UInt32 := if raw = [] then 1 else 0
  let ack : UInt32 := if pack.isAck ≠ 0 then 1 else 0
  let best := selectCodec (isCodecSelect pack) raw
  let head := sopByte :: msgBytes (msgWord pack best.1 cmd ack)
  if raw = [] then head
  else head ++ ((if best.2.length = maxData then 0 else UInt8.ofNat best.2.length) :: best.2)

theorem frameBytes_eq (pack : Pack) (raw : List UInt8) :
    frameBytes pack raw = frameBody pack raw ++ [sumEncode (frameBody pack raw)] := rfl

theorem selectCodec_nil (codecSelect : Bool) : selectCodec codecSelect [] = (codecRaw, []) := by
  simp [selectCodec]

variable (net printf) in
/-- **Everything before the checksum is received.** -/
theorem body_received {s : Node} (hidle : s.ctx.status = .idle) {pack : Pack} {raw : List UInt8}
    (hacc : sendAccepts pack) (hlen : raw.length ≤ maxData)
    (hfresh : ¬ (s.ctx.lastSeqValid = true ∧ s.ctx.lastSeq = pack.seq))
    (hlocal : pack.dst = 0 ∨ pack.dst = s.ctx.src)
    (hlocal' : pack.dDst = 0 ∨ pack.dDst = s.ctx.dSrc) :
    ∃ c, takeAll net printf (frameBody pack raw) s = { s with ctx := c } ∧
      Complete s.ctx c pack (selectCodec (isCodecSelect pack) raw).1 (frameBody pack raw)
        (selectCodec (isCodecSelect pack) raw).2 := by
  have henc := selectCodec_encodes (isCodecSelect pack) hlen
  have hack : (if pack.isAck ≠ 0 then (1 : UInt32) else 0).toNat < 2 ∧
      (if pack.isAck ≠ 0 then (1 : UInt32) else 0).toUInt8 = if pack.isAck ≠ 0 then 1 else 0 := by
    split <;> decide
  by_cases hraw : raw = []
  · subst hraw
    have hfits := headerFits_of_sendAccepts hacc codecRaw 1 _ (by decide) (by decide) hack.1
    obtain ⟨c, p, htake, hsum, -⟩ := header_received net printf hidle hfits
      (by decide) (fun _ => rfl) hfresh hlocal hlocal'
    obtain ⟨hrecv, hpack⟩ := hsum rfl
    simp only [frameBody, selectCodec_nil, if_true]
    refine ⟨c, htake, hrecv.status_eq, hrecv.captured.1, hrecv.isRoute_eq, hrecv.candidateSize_eq,
      by rw [hrecv.msg_eq, field_codec hfits], by rw [hrecv.index_eq]; rfl, ?_⟩
    rw [hpack, extract_msgWord hfits]
    exact ⟨rfl, rfl, rfl, rfl, rfl, rfl, rfl, hack.2⟩
  · have hcodec : (selectCodec (isCodecSelect pack) raw).1.toNat < 8 :=
      Nat.lt_of_le_of_lt henc.codec_le (by decide)
    have hfits := headerFits_of_sendAccepts hacc _ 0 _ hcodec (by decide) hack.1
    obtain ⟨c, p, htake, -, hlenState⟩ := header_received net printf hidle
      hfits henc.codec_le (fun h => absurd h (by decide)) hfresh hlocal hlocal'
    obtain ⟨hrecv, hpack⟩ := hlenState (by decide)
    obtain ⟨d, htake', hst, hwire, hroute, hsize, hmsg, hpayload, hpack'⟩ :=
      payload_received net printf (s := { s with ctx := c }) hrecv
        (by simp [msgBytes]) (henc.length_pos hraw) (Nat.le_trans henc.length_le hlen)
    simp only [frameBody, if_neg hraw]
    refine ⟨d, by rw [takeAll_append, htake, htake'], hst, hwire, hroute, hsize,
      by rw [hmsg, field_codec hfits], hpayload, ?_⟩
    rw [hpack', hpack, extract_msgWord hfits]
    exact ⟨rfl, rfl, rfl, rfl, rfl, rfl, rfl, hack.2⟩

/-- **What is sent is received.** A pack the sender accepts, other than a codec
negotiation, arrives in time at an idle node that it addresses, that has a handler
for its command and has not seen its sequence number last: the handler is called once,
with the fields and the payload of the pack, and the parser is idle again. -/
theorem send_received (net : Network) (printf : Output) (pack : Pack) (data : Memory UInt8)
    (hacc : sendAccepts pack) (hcmd : ¬ isCodecSelect pack) (output : ℕ) (s : Node) (func : ℕ)
    (hidle : s.ctx.status = .idle) (hsize : s.ctx.candidateSize = 256)
    (hlocal : (pack.dst = 0 ∨ pack.dst = s.ctx.src) ∧ (pack.dDst = 0 ∨ pack.dDst = s.ctx.dSrc))
    (hfunc : s.commands.findFunc pack.cmdSet pack.cmdWord = some func)
    (hfresh : ¬ (s.ctx.lastSeqValid = true ∧ s.ctx.lastSeq = pack.seq)) :
    ∃ frame, send pack data (some output) = [.sent output frame] ∧
      ∀ arrivals : List (UInt32 × UInt8), arrivals.map Prod.snd = frame → InTime arrivals →
        ∃ received, (arrive net printf arrivals s).log =
            s.log ++ [Event.dispatched func printf received (data.slice 0 pack.len.toNat)] ∧
          SameFrame received pack ∧ received.len = pack.len ∧
          (arrive net printf arrivals s).ctx.status = .idle ∧
          (arrive net printf arrivals s).ctx.reset = (arrive net printf arrivals s).ctx := by
  have hlen : (data.slice 0 pack.len.toNat).length ≤ maxData := by
    simp only [sendAccepts, Bool.and_eq_true, decide_eq_true_eq] at hacc
    simpa using hacc.1.1.1.1.1.1.1.1.2
  refine ⟨frameBytes pack (data.slice 0 pack.len.toNat), by simp [send, hacc, transmit], ?_⟩
  intro arrivals hframe htime
  obtain ⟨c, htake, hcomplete⟩ := body_received net printf hidle hacc hlen
    hfresh hlocal.1 hlocal.2
  obtain ⟨received, hlog, hsame, hlen', hidle', hreset⟩ :=
    sum_received net printf (s := { s with ctx := c }) hcomplete
      (selectCodec_encodes _ hlen) hsize hlen hcmd hfunc
  obtain ⟨t, harrive⟩ := arrive_eq_takeAll net printf arrivals
    (fun _ _ => Or.inl hidle) htime
  rw [hframe, frameBytes_eq, takeAll_append, htake] at harrive
  rw [harrive]
  refine ⟨received, hlog, hsame, ?_, hidle', ?_⟩
  · apply UInt16.toNat_inj.mp
    rw [hlen', Memory.length_slice]
  · show ({ (Node.take _ net printf _).ctx with lastRxTick := t } : Ctx).reset = _
    exact congrArg (fun d : Ctx => { d with lastRxTick := t }) hreset

/-- Twenty equal bytes for the command of `demoNode`. -/
def demoPack : Pack :=
  { sop := sopByte, version := version, src := 2, dSrc := 0, dst := 1, dDst := 0, cmdSet := 1
    cmdWord := 2, isAck := 1, len := 20, pData := .buffer, crc := 0, eop := 0, seq := 3 }

/-- Its frame, run-length coded, every byte 1000 ticks after the one before. -/
def demoArrivals : List (UInt32 × UInt8) :=
  [(0, 0xE9), (1000, 0x0B), (2000, 0x08), (3000, 0x42), (4000, 0x90), (5000, 0x02), (6000, 0x91),
    (7000, 0x55), (8000, 0xB6)]

theorem send_received_demo :
    send demoPack (fun _ => 0x55) (some 0) = [.sent 0 (demoArrivals.map Prod.snd)] ∧
    ∃ received, (arrive demoNetwork none demoArrivals demoNode).log =
        demoNode.log ++ [Event.dispatched 7 none received
          (Memory.slice (fun _ => 0x55) 0 demoPack.len.toNat)] ∧
      SameFrame received demoPack ∧ received.len = demoPack.len ∧
      (arrive demoNetwork none demoArrivals demoNode).ctx.status = .idle ∧
      (arrive demoNetwork none demoArrivals demoNode).ctx.reset =
        (arrive demoNetwork none demoArrivals demoNode).ctx := by
  have hsent : send demoPack (fun _ => 0x55) (some 0) = [.sent 0 (demoArrivals.map Prod.snd)] := by
    decide +kernel
  obtain ⟨frame, hframe, hreceived⟩ := send_received demoNetwork none demoPack
    (fun _ => 0x55) (by decide) (by decide) 0 demoNode 7 rfl rfl
    ⟨Or.inr rfl, Or.inl rfl⟩ (by decide) (by decide)
  rw [hsent] at hframe
  exact ⟨hsent, hreceived demoArrivals (Event.sent.inj (List.cons.inj hframe).1).2 (by decide)⟩

end Atoman.Comm.V1
