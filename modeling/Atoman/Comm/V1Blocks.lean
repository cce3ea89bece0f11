import Atoman.Comm.V1Parser
import Atoman.Lib.Transition

/-!
# Blocks and bytes, 0xE9

As for the other protocol: a block agrees with its bytes unless it comes late into a
payload. The bulk path keeps the books of the byte path (payload and wire bytes,
running sum, both lengths, the step to the checksum) but not its timeout check.
-/

namespace Atoman.Comm.V1
open Lib

variable {net : Network} {printf : Output} {now : UInt32}

/-! ## What is observed -/

/-- The idle state never reads the tick of the last byte. -/
def Ctx.observed (c : Ctx) : Ctx := if c.status = .idle then { c with lastRxTick := 0 } else c

/-- The node without the tick that its idle state never reads. -/
def Node.observed (s : Node) : Node := { s with ctx := s.ctx.observed }

/-- Same parser state, same commands, same events. -/
def Node.Agrees (s s' : Node) : Prop := s.observed = s'.observed

theorem Ctx.observed_status (c : Ctx) : c.observed.status = c.status := by
  unfold Ctx.observed; split <;> rfl

/-- What the next byte does depends on what is observed only. -/
theorem Ctx.receive_observed (c : Ctx) (now : UInt32) : c.observed.receive now = c.receive now := by
  by_cases h : c.status = .idle
  · simp [Ctx.observed, Ctx.receive, h]
  · simp [Ctx.observed, h]

theorem run_observed (b : UInt8) (s : Node) :
    run net printf now b s.observed = run net printf now b s := by
  unfold run Node.observed
  rw [Ctx.receive_observed]

theorem Node.Agrees.run_eq {s s' : Node} (h : s.Agrees s') (b : UInt8) :
    run net printf now b s = run net printf now b s' := by
  rw [← run_observed, ← run_observed (s := s'), show s.observed = s'.observed from h]

theorem Node.Agrees.status_eq {s s' : Node} (h : s.Agrees s') : s.ctx.status = s'.ctx.status := by
  have := congrArg (fun n => n.ctx.status) (show s.observed = s'.observed from h)
  simpa [Node.observed, Ctx.observed_status] using this

/-! ## The tick of the last byte -/

@[simp] theorem Ctx.reset_status (c : Ctx) : c.reset.status = .idle := rfl
@[simp] theorem Ctx.reset_lastRxTick (c : Ctx) : c.reset.lastRxTick = c.lastRxTick := rfl
@[simp] theorem Ctx.remember_lastRxTick (c : Ctx) : c.remember.lastRxTick = c.lastRxTick := rfl
@[simp] theorem Ctx.capture_status (c : Ctx) (b : UInt8) : (c.capture b).status = c.status := rfl
@[simp] theorem Ctx.capture_lastRxTick (c : Ctx) (b : UInt8) :
    (c.capture b).lastRxTick = c.lastRxTick := rfl
@[simp] theorem Ctx.receive_lastRxTick (c : Ctx) (now : UInt32) :
    (c.receive now).lastRxTick = now := rfl

theorem Ctx.takeL0_lastRxTick (c : Ctx) (b : UInt8) :
    (c.takeL0 net b).lastRxTick = c.lastRxTick := by
  unfold Ctx.takeL0
  dsimp only
  split <;> rfl

theorem Ctx.takeL3_lastRxTick (c : Ctx) (b : UInt8) :
    (c.takeL3 b).lastRxTick = c.lastRxTick := by
  unfold Ctx.takeL3
  dsimp only
  repeat' split
  all_goals rfl

theorem Ctx.take_lastRxTick (c : Ctx) (b : UInt8) : (c.take net b).lastRxTick = c.lastRxTick := by
  cases hst : c.status <;> simp only [Ctx.take, hst]
  case msgL0 => exact c.takeL0_lastRxTick b
  case msgL3 => exact c.takeL3_lastRxTick b
  all_goals first | rfl | (split <;> rfl)

theorem Ctx.decodePayload_lastRxTick {c d : Ctx} (h : c.decodePayload = some d) :
    d.lastRxTick = c.lastRxTick := by
  unfold Ctx.decodePayload at h
  dsimp only at h
  split at h
  · obtain ⟨output, -, rfl⟩ := Option.map_eq_some_iff.mp h; rfl
  · obtain rfl := Option.some.inj h; rfl

theorem Node.callFunc_lastRxTick (s : Node) (func : ℕ) :
    (s.callFunc net printf func).ctx.lastRxTick = s.ctx.lastRxTick := by
  unfold Node.callFunc
  dsimp only
  split <;> rfl

theorem Node.deliver_lastRxTick (s : Node) :
    (s.deliver net printf).ctx.lastRxTick = s.ctx.lastRxTick := by
  unfold Node.deliver
  dsimp only
  split
  · rfl
  · split
    · rfl
    · split
      · rfl
      · simp [Node.callFunc_lastRxTick]

theorem Node.takeSum_lastRxTick (s : Node) (b : UInt8) :
    (s.takeSum net printf b).ctx.lastRxTick = s.ctx.lastRxTick := by
  unfold Node.takeSum
  split
  · rfl
  · split
    · rfl
    · next c hc => simpa [Node.deliver_lastRxTick] using Ctx.decodePayload_lastRxTick hc

theorem Node.take_lastRxTick (s : Node) (b : UInt8) :
    (s.take net printf b).ctx.lastRxTick = s.ctx.lastRxTick := by
  unfold Node.take
  split
  · exact s.takeSum_lastRxTick b
  · exact s.ctx.take_lastRxTick b

/-- Every byte stamps its tick. -/
theorem run_lastRxTick (b : UInt8) (s : Node) : (run net printf now b s).ctx.lastRxTick = now := by
  unfold run
  rw [Node.take_lastRxTick]; rfl

/-! ## The books of a frame -/

/-- A frame in progress: what is captured, what is stored of the payload, what is
still awaited. -/
def Ctx.InFrame (c : Ctx) : Prop :=
  match c.status with
  | .idle => True
  | .msgL0 => c.wireLen = 1
  | .msgL1 => c.wireLen = 2
  | .msgL2 => c.wireLen = 3
  | .msgL3 => c.wireLen = 4
  | .len => c.wireLen = 5
  | .data => 0 < c.len.toNat ∧ c.index.toNat + c.len.toNat ≤ maxData ∧
      c.wireLen.toNat = 6 + c.index.toNat
  | .sum => c.wireLen = 5 ∨ c.index.toNat ≤ maxData ∧ c.wireLen.toNat = 6 + c.index.toNat

theorem Ctx.inFrame_reset (c : Ctx) : c.reset.InFrame := trivial

theorem Ctx.InFrame.receive {c : Ctx} (h : c.InFrame) (now : UInt32) : (c.receive now).InFrame := by
  unfold Ctx.receive
  dsimp only
  split
  · exact trivial
  · exact h

theorem Ctx.InFrame.takeL0 {c : Ctx} (h : c.wireLen = 1) (b : UInt8) :
    (c.takeL0 net b).InFrame := by
  unfold Ctx.takeL0
  dsimp only
  split
  · simp [Ctx.InFrame, Ctx.capture, h]
  · exact c.inFrame_reset

theorem Ctx.InFrame.takeL3 {c : Ctx} (h : c.wireLen = 4) (b : UInt8) : (c.takeL3 b).InFrame := by
  unfold Ctx.takeL3
  dsimp only
  split
  · exact Ctx.inFrame_reset _
  · split
    · exact Ctx.inFrame_reset _
    · split <;> simp [Ctx.InFrame, Ctx.capture, h]

theorem payloadLen_spec (b : UInt8) :
    0 < (if b = 0 then (256 : UInt16) else b.toUInt16).toNat ∧
      (if b = 0 then (256 : UInt16) else b.toUInt16).toNat ≤ maxData := by
  have hb := b.toNat_lt
  split
  · decide
  · next hne =>
    have : b.toNat ≠ 0 := fun h => hne (UInt8.toNat_inj.mp h)
    simp only [UInt8.toNat_toUInt16, maxData]
    omega

/-- Every byte before the checksum keeps the books. -/
theorem Ctx.InFrame.take {c : Ctx} (h : c.InFrame) (b : UInt8) : (c.take net b).InFrame := by
  cases hst : c.status <;> simp only [Ctx.InFrame, hst] at h <;> simp only [Ctx.take, hst]
  case idle =>
    split
    · simp [Ctx.InFrame]
    · simp [Ctx.InFrame, hst]
  case msgL0 => exact takeL0 h b
  case msgL1 => simp [Ctx.InFrame, Ctx.capture, h]
  case msgL2 => simp [Ctx.InFrame, Ctx.capture, h]
  case msgL3 => exact takeL3 h b
  case len =>
    obtain ⟨hpos, hle⟩ := payloadLen_spec b
    simpa [Ctx.InFrame, Ctx.capture, h] using And.intro hpos hle
  case data =>
    obtain ⟨hpos, hle, hwire⟩ := h
    have hpred : (c.len - 1).toNat = c.len.toNat - 1 :=
      UInt16.toNat_sub_of_le c.len 1 (UInt16.le_iff_toNat_le.mpr hpos)
    have hidx : (c.index + 1).toNat = c.index.toNat + 1 := by
      simp only [maxData] at hle
      simp only [UInt16.toNat_add, UInt16.toNat_one]; omega
    have hw : (c.wireLen + 1).toNat = 6 + (c.index.toNat + 1) := by
      simp only [maxData] at hle
      simp only [UInt16.toNat_add, UInt16.toNat_one]; omega
    split
    · refine Or.inr ⟨?_, ?_⟩
      · simp only [Ctx.capture, hidx]; omega
      · simp only [Ctx.capture, hidx, hw]
    · next hne =>
      have : (c.len - 1).toNat ≠ 0 := fun h0 => hne (UInt16.toNat_inj.mp h0)
      simp only [Ctx.InFrame, Ctx.capture, hidx, hw]
      refine ⟨by omega, by omega, trivial⟩
  case sum => simpa [Ctx.InFrame, hst] using h

/-- After the checksum the parser is idle. -/
theorem Node.takeSum_status (s : Node) (b : UInt8) :
    (s.takeSum net printf b).ctx.status = .idle := by
  unfold Node.takeSum
  split
  · rfl
  · split
    · rfl
    · unfold Node.deliver
      dsimp only
      repeat' split
      all_goals rfl

theorem run_inFrame {s : Node} (h : s.ctx.InFrame) (b : UInt8) :
    (run net printf now b s).ctx.InFrame := by
  unfold run Node.take
  split
  · simp [Ctx.InFrame, Node.takeSum_status]
  · exact (h.receive now).take b

/-! ## The bulk path -/

/-- A payload is awaited and the block comes too late for it. -/
def Ctx.Late (c : Ctx) (now : UInt32) : Prop :=
  c.status = .data ∧ frameTimeoutTick < now - c.lastRxTick

instance (c : Ctx) (now : UInt32) : Decidable (c.Late now) :=
  inferInstanceAs (Decidable (_ ∧ _))

theorem Ctx.InFrame.data {c : Ctx} (h : c.InFrame) (hst : c.status = .data) :
    0 < c.len.toNat ∧ c.index.toNat + c.len.toNat ≤ maxData ∧
      c.wireLen.toNat = 6 + c.index.toNat := by
  simpa only [Ctx.InFrame, hst] using h

theorem ofNat_pred {n : UInt16} (h : 0 < n.toNat) : UInt16.ofNat (n.toNat - 1) = n - 1 := by
  apply UInt16.toNat_inj.mp
  rw [UInt16.toNat_sub_of_le n 1 (UInt16.le_iff_toNat_le.mpr h), UInt16.toNat_ofNat']
  have := n.toNat_lt
  exact Nat.mod_eq_of_lt (by omega)

theorem ofNat_succ (n : UInt16) : UInt16.ofNat (n.toNat + 1) = n + 1 := by
  apply UInt16.toNat_inj.mp
  simp

/-- A payload byte in time is the bulk path on one byte. -/
theorem run_data {s : Node} (hin : s.ctx.InFrame) (hst : s.ctx.status = .data)
    (hlate : ¬ s.ctx.Late now) (b : UInt8) :
    run net printf now b s = { s with ctx := s.ctx.copyData now [b] } := by
  have htime : ¬ frameTimeoutTick < now - s.ctx.lastRxTick := fun h => hlate ⟨hst, h⟩
  have hrecv : s.ctx.receive now = { s.ctx with lastRxTick := now } := by
    simp [Ctx.receive, htime]
  have hlen := ofNat_pred (hin.data hst).1
  by_cases hlast : s.ctx.len - 1 = 0
  · simp [run, hrecv, Node.take, Ctx.take, hst, Ctx.copyData, Ctx.capture, hlen, ofNat_succ, hlast]
  · simp [run, hrecv, Node.take, Ctx.take, hst, Ctx.copyData, Ctx.capture, hlen, ofNat_succ, hlast]

/-- The bulk path can be taken byte by byte, as long as bytes are awaited. -/
theorem Ctx.copyData_cons {c : Ctx} {b : UInt8} {data : List UInt8} (hin : c.InFrame)
    (hst : c.status = .data) (hlen : 1 < c.len.toNat) :
    c.copyData now (b :: data) = (c.copyData now [b]).copyData now data := by
  obtain ⟨-, hidx, hwire⟩ := hin.data hst
  simp only [maxData] at hidx
  have hi : (UInt16.ofNat (c.index.toNat + 1)).toNat = c.index.toNat + 1 := by
    rw [UInt16.toNat_ofNat']; omega
  have hw : (UInt16.ofNat (c.wireLen.toNat + 1)).toNat = c.wireLen.toNat + 1 := by
    rw [UInt16.toNat_ofNat']; omega
  have hl : (UInt16.ofNat (c.len.toNat - 1)).toNat = c.len.toNat - 1 := by
    rw [UInt16.toNat_ofNat']; omega
  have hne : UInt16.ofNat (c.len.toNat - 1) ≠ 0 := by
    intro h0
    rw [h0] at hl
    simp at hl
    omega
  have hadd : ∀ n, n + (data.length + 1) = n + 1 + data.length := fun n => by omega
  have hsub : c.len.toNat - (data.length + 1) = c.len.toNat - 1 - data.length := by omega
  simp only [Ctx.copyData, List.length_cons, List.length_nil, Nat.zero_add, hi, hw, hl, hne,
    if_false, hadd, hsub, List.foldl_cons, List.foldl_nil]
  rw [Memory.write_cons c.dataBuffer _ b data, Memory.write_cons c.wireBuffer _ b data]

/-- A context that a byte at this tick does not find late. -/
theorem Ctx.not_late_of_tick {c : Ctx} (h : c.lastRxTick = now) : ¬ c.Late now := by
  rintro ⟨-, hlt⟩
  rw [h, UInt32.sub_self] at hlt
  exact absurd hlt (by decide)

/-- **The bulk path agrees with the payload bytes it copies.** By induction on the
bytes; only the last of them can end the payload. -/
theorem copyData_eq_feed (b : UInt8) (data : List UInt8) {s : Node} (hin : s.ctx.InFrame)
    (hst : s.ctx.status = .data) (hlate : ¬ s.ctx.Late now)
    (hlen : (b :: data).length ≤ s.ctx.len.toNat) :
    { s with ctx := s.ctx.copyData now (b :: data) } = feed (run net printf) now (b :: data) s := by
  induction data generalizing b s with
  | nil => rw [feed_cons, run_data hin hst hlate, feed_nil]
  | cons c data ih =>
    simp only [List.length_cons] at hlen
    have hstep : run net printf now b s = _ := run_data hin hst hlate b
    have hin' : (run net printf now b s).ctx.InFrame := run_inFrame hin b
    rw [hstep] at hin'
    have hl : (s.ctx.copyData now [b]).len.toNat = s.ctx.len.toNat - 1 := by
      have := s.ctx.len.toNat_lt
      simp only [Ctx.copyData, List.length_singleton, UInt16.toNat_ofNat']
      omega
    have hst' : (s.ctx.copyData now [b]).status = .data := by
      have hne : (s.ctx.copyData now [b]).len ≠ 0 := by
        intro h0; rw [h0] at hl; simp at hl; omega
      exact (if_neg hne).trans hst
    have hrest := ih (s := { s with ctx := s.ctx.copyData now [b] }) c hin' hst'
      (Ctx.not_late_of_tick rfl) (by simp only [List.length_cons, hl]; omega)
    rw [feed_cons, hstep, ← hrest, ← Ctx.copyData_cons hin hst (by omega)]

/-- The block parser of the 0xE9 protocol takes harmless shortcuts, from contexts
that a block does not find late. -/
theorem parser_shortcuts : (parser net printf).Shortcuts Node.Agrees (fun s => s.ctx.InFrame)
    (fun now s => ¬ s.ctx.Late now) where
  refl _ := rfl
  step_congr _ b _ _ h := congrArg Node.observed (h.run_eq b)
  step_inv _ b _ h := run_inFrame h b
  step_onTime _ b s := Ctx.not_late_of_tick (run_lastRxTick b s)
  skip now b s s' hidle hb h := by
    have hs : s.ctx.status = .idle := by simpa [parser] using hidle
    have hs' : s'.ctx.status = .idle := h.status_eq ▸ hs
    have hne : b ≠ sopByte := by simpa [parser] using hb
    have hskip : run net printf now b s' =
        { s' with ctx := { s'.ctx with lastRxTick := now } } := by
      simp [run, Ctx.receive, Node.take, Ctx.take, hs', hne]
    refine Eq.trans (show s.observed = s'.observed from h) ?_
    show _ = Node.observed (run net printf now b s')
    rw [hskip]
    simp [Node.observed, Ctx.observed, hs']
  idle_awaited s hidle := by
    have hs : s.ctx.status = .idle := by simpa [parser] using hidle
    simp [parser, hs]
  copy_eq now b data s hin hlate hlen := by
    by_cases hst : s.ctx.status = .data
    · exact copyData_eq_feed b data hin hst hlate (by simpa [parser, hst] using hlen)
    · simp [parser, hst] at hlen

/-- A late byte is the first of a new frame, if it is part of one at all. -/
theorem run_late {s : Node} (h : s.ctx.Late now) (b : UInt8) :
    (run net printf now b s).ctx.status = .idle ∨ (run net printf now b s).ctx.status = .msgL0 := by
  obtain ⟨hst, hlt⟩ := h
  have hrecv : s.ctx.receive now = { s.ctx.reset with lastRxTick := now } := by
    simp [Ctx.receive, hst, hlt]
  by_cases hb : b = sopByte
  · simp [run, hrecv, Node.take, Ctx.take, hb]
  · simp [run, hrecv, Node.take, Ctx.take, hb]

/-- The bulk path takes a late byte as payload. -/
theorem runBuffer_late {s : Node} (hin : s.ctx.InFrame) (h : s.ctx.Late now) (b : UInt8) :
    (runBuffer net printf now [b] s).ctx.status = .data ∨
      (runBuffer net printf now [b] s).ctx.status = .sum := by
  obtain ⟨hst, -⟩ := h
  have hw : (parser net printf).awaited s ≠ 0 := by
    simpa [parser, hst] using Nat.ne_of_gt (hin.data hst).1
  have hskip : (parser net printf).skipIdle [b] s = [b] := by
    simp [BlockParser.skipIdle, parser, hst]
  obtain ⟨m, hm⟩ := Nat.exists_eq_succ_of_ne_zero hw
  rw [runBuffer, BlockParser.runBuffer_copy hskip hw, hm, List.drop_succ_cons, List.drop_nil,
    List.take_succ_cons, List.take_nil,
    BlockParser.runBuffer_done (by simp [BlockParser.skipIdle])]
  show (if _ then Sta.sum else s.ctx.status) = .data ∨ (if _ then Sta.sum else s.ctx.status) = .sum
  split
  · exact Or.inr rfl
  · exact Or.inl hst

/-- For one block, being in time is exactly what agreement on all data takes. -/
theorem block_agrees_iff {s : Node} (hin : s.ctx.InFrame) :
    (∀ data, (runBuffer net printf now data s).Agrees (feed (run net printf) now data s)) ↔
      ¬ s.ctx.Late now := by
  constructor
  · intro h hlate
    have hst := (h [0]).status_eq
    rw [feed_cons, feed_nil] at hst
    rcases runBuffer_late hin hlate 0 with h₁ | h₁ <;> rcases run_late hlate 0 with h₂ | h₂ <;>
      exact absurd (h₁.symm.trans (hst.trans h₂)) (by decide)
  · intro hlate data
    exact (parser_shortcuts.runBuffer_agrees now data hin (fun _ => hlate) rfl).2

/-! ## Runs of blocks -/

/-- `DECLARE_COMM_V1_CTX`; the dynamic address is set by the application. -/
def Ctx.declare (src dSrc linkId : UInt8) : Ctx where
  dataBuffer _ := 0
  candidateBuffer _ := 0
  candidateSize := 256
  wireBuffer _ := 0
  status := .idle
  index := 0
  len := 0
  sum := 0
  msg := 0
  msgCnt := 0
  wireLen := 0
  isRoute := false
  isLocal := false
  pack := .zero
  func := none
  lastSeq := 0
  lastSeqValid := false
  lastRxTick := 0
  src := src
  dSrc := dSrc
  linkId := linkId

/-- A declared context fed byte by byte, at any ticks. -/
def byteSystem (net : Network) (printf : Output) : Transition Node where
  init s := ∃ src dSrc linkId commands, s = ⟨.declare src dSrc linkId, commands, []⟩
  next s t := ∃ now b, t = run net printf now b s

theorem inFrame_of_reachable {s : Node} (h : (byteSystem net printf).Reachable s) :
    s.ctx.InFrame := by
  refine h.invariant (P := fun s => s.ctx.InFrame) ?_ ?_
  · rintro s ⟨src, dSrc, linkId, commands, rfl⟩
    exact trivial
  · rintro s t hs ⟨now, b, rfl⟩
    exact run_inFrame hs b

/-- No block with data comes late into a payload. -/
def NoLateBlock (net : Network) (printf : Output) (blocks : List (UInt32 × List UInt8))
    (s : Node) : Prop :=
  Throughout (fun now data s => data ≠ [] → ¬ s.ctx.Late now) (runBuffer net printf) blocks s

/-- **Blocks agree with bytes** in every run in which no block comes late into a payload. -/
theorem v1_blocks_agree (net : Network) (printf : Output) {s : Node}
    (hs : (byteSystem net printf).Reachable s) (blocks : List (UInt32 × List UInt8))
    (hlate : NoLateBlock net printf blocks s) :
    (feedBlocks (runBuffer net printf) blocks s).Agrees
      (feedBlocks (feed (run net printf)) blocks s) :=
  parser_shortcuts.feedBlocks_agrees blocks (inFrame_of_reachable hs) hlate rfl

/-- A node with address 1 and one command. -/
def demoNode : Node := ⟨.declare 1 0 3, ⟨[⟨0, 1, 2, some 7⟩], some 0⟩, []⟩

/-- No routes, and a callback that changes nothing. -/
def demoNetwork : Network := ⟨[], [], fun _ _ pack data => (pack, data)⟩

theorem demoNode_reachable : (byteSystem demoNetwork none).Reachable demoNode :=
  .start ⟨1, 0, 3, ⟨[⟨0, 1, 2, some 7⟩], some 0⟩, rfl⟩

/-- A frame with one payload byte, up to its length byte. -/
def demoHead : List UInt8 := [0xE9, 0x0B, 0x08, 0x42, 0x00, 0x01]

/-- The payload byte and the checksum. -/
def demoTail : List UInt8 := [0x55, 0x94]

theorem v1_blocks_agree_in_time :
    NoLateBlock demoNetwork none [(0, demoHead), (1000, demoTail)] demoNode ∧
    (feedBlocks (runBuffer demoNetwork none) [(0, demoHead), (1000, demoTail)] demoNode).Agrees
      (feedBlocks (feed (run demoNetwork none)) [(0, demoHead), (1000, demoTail)] demoNode) := by
  have htime : NoLateBlock demoNetwork none [(0, demoHead), (1000, demoTail)] demoNode := by
    unfold NoLateBlock; decide +kernel
  exact ⟨htime, v1_blocks_agree demoNetwork none demoNode_reachable _ htime⟩

/-- A tick later the block is dispatched as a frame, its bytes are dropped. -/
theorem v1_late_block_dispatched :
    (byteSystem demoNetwork none).Reachable demoNode ∧
    ((feedBlocks (runBuffer demoNetwork none)
      [(0, demoHead), (1001, demoTail)] demoNode).log.length = 1 ∧
    (feedBlocks (feed (run demoNetwork none))
      [(0, demoHead), (1001, demoTail)] demoNode).log = []) ∧
    ¬ (feedBlocks (runBuffer demoNetwork none) [(0, demoHead), (1001, demoTail)] demoNode).Agrees
      (feedBlocks (feed (run demoNetwork none)) [(0, demoHead), (1001, demoTail)] demoNode) := by
  have hlogs : (feedBlocks (runBuffer demoNetwork none)
      [(0, demoHead), (1001, demoTail)] demoNode).log.length = 1 ∧
    (feedBlocks (feed (run demoNetwork none))
      [(0, demoHead), (1001, demoTail)] demoNode).log = [] := by decide +kernel
  refine ⟨demoNode_reachable, hlogs, fun h => ?_⟩
  have hlog := congrArg (fun n => n.log.length) (show Node.observed _ = Node.observed _ from h)
  simp only [Node.observed, hlogs.1, hlogs.2, List.length_nil] at hlog
  exact absurd hlog (by decide)

end Atoman.Comm.V1
