import Atoman.Comm.Parser
import Atoman.Lib.Transition
import Mathlib.Algebra.Group.Nat.Defs
import Mathlib.Data.List.Basic

/-!
# Blocks and bytes, 0xE8

A block fed through `commRunBuffer` and the same bytes fed through `commRun` at the
tick of the block leave the parser alike, provided the block does not come late
into a payload. The bulk path copies payload bytes without the timeout check that
every single byte goes through, so a late block continues the stale frame while the
bytes start afresh.
-/

namespace Atoman.Comm
open Lib

variable {net : Network} {printf : Output} {now : UInt32}

/-! ## What is observed -/

/-- The start state never reads the tick of the last byte. -/
def Ctx.observed (c : Ctx) : Ctx := if c.status = .sop then { c with lastRxTick := 0 } else c

/-- The node without the tick that its start state never reads. -/
def Node.observed (s : Node) : Node := { s with ctx := s.ctx.observed }

/-- Same parser state, same commands, same events. -/
def Node.Agrees (s s' : Node) : Prop := s.observed = s'.observed

theorem Ctx.observed_status (c : Ctx) : c.observed.status = c.status := by
  unfold Ctx.observed; split <;> rfl

/-- What the next byte does depends on what is observed only. -/
theorem Ctx.receive_observed (c : Ctx) (now : UInt32) : c.observed.receive now = c.receive now := by
  by_cases h : c.status = .sop
  · simp [Ctx.observed, Ctx.receive, h]
  · simp [Ctx.observed, h]

theorem commRun_observed (b : UInt8) (s : Node) :
    commRun net printf now b s.observed = commRun net printf now b s := by
  unfold commRun Node.observed
  rw [Ctx.receive_observed]

theorem Node.Agrees.commRun_eq {s s' : Node} (h : s.Agrees s') (b : UInt8) :
    commRun net printf now b s = commRun net printf now b s' := by
  rw [← commRun_observed, ← commRun_observed (s := s'), show s.observed = s'.observed from h]

theorem Node.Agrees.status_eq {s s' : Node} (h : s.Agrees s') : s.ctx.status = s'.ctx.status := by
  have := congrArg (fun n => n.ctx.status) (show s.observed = s'.observed from h)
  simpa [Node.observed, Ctx.observed_status] using this

/-! ## The tick of the last byte -/

@[simp] theorem Ctx.reset_status (c : Ctx) : c.reset.status = .sop := rfl
@[simp] theorem Ctx.reset_lastRxTick (c : Ctx) : c.reset.lastRxTick = c.lastRxTick := rfl
@[simp] theorem Ctx.updateCrc_status (c : Ctx) (b : UInt8) : (c.updateCrc b).status = c.status :=
  rfl
@[simp] theorem Ctx.updateCrc_lastRxTick (c : Ctx) (b : UInt8) :
    (c.updateCrc b).lastRxTick = c.lastRxTick := rfl

@[simp] theorem Ctx.receive_lastRxTick (c : Ctx) (now : UInt32) :
    (c.receive now).lastRxTick = now := rfl

theorem Ctx.take_lastRxTick (c : Ctx) (b : UInt8) : (c.take b).lastRxTick = c.lastRxTick := by
  cases hst : c.status <;> simp only [Ctx.take, hst]
  all_goals
    repeat' split
    all_goals rfl

theorem Node.routeRun_lastRxTick (s : Node) :
    (s.routeRun net).ctx.lastRxTick = s.ctx.lastRxTick := by
  unfold Node.routeRun
  split <;> (try split) <;> rfl

theorem Node.callFunc_lastRxTick (s : Node) :
    (s.callFunc net printf).ctx.lastRxTick = s.ctx.lastRxTick := by
  unfold Node.callFunc
  split <;> rfl

theorem Node.take_lastRxTick (s : Node) (b : UInt8) :
    (s.take net printf b).ctx.lastRxTick = s.ctx.lastRxTick := by
  unfold Node.take
  split
  · unfold Node.takeCmdWord
    dsimp only
    split <;> (try split) <;> rfl
  · split
    · unfold Node.takeEop
      dsimp only [Ctx.reset_lastRxTick]
      split <;> (try split) <;> simp [Node.routeRun_lastRxTick, Node.callFunc_lastRxTick]
    · exact s.ctx.take_lastRxTick b

/-- Every byte stamps its tick. -/
theorem commRun_lastRxTick (b : UInt8) (s : Node) :
    (commRun net printf now b s).ctx.lastRxTick = now := by
  unfold commRun
  rw [Node.take_lastRxTick]; rfl

/-! ## The payload stays in the buffer -/

/-- What is awaited of a payload fits behind what is stored of it. -/
def Ctx.Fits (c : Ctx) : Prop :=
  c.status = .data → c.index.toNat + c.len.toNat ≤ c.bufferSize.toNat

theorem Ctx.fits_of_status {c : Ctx} (h : c.status ≠ .data) : c.Fits := fun hd => absurd hd h

theorem Ctx.Fits.receive {c : Ctx} (h : c.Fits) (now : UInt32) : (c.receive now).Fits := by
  unfold Ctx.receive
  dsimp only
  split
  · exact fits_of_status (by simp)
  · exact h

/-- A payload starts after its length is checked, and every byte moves one place from
what is awaited to what is stored. -/
theorem Ctx.Fits.take {c : Ctx} (h : c.Fits) (b : UInt8) : (c.take b).Fits := by
  cases hst : c.status <;> simp only [Ctx.take, hst]
  case len =>
    split
    · exact fits_of_status (by simp)
    · split
      · exact fits_of_status (by simp)
      · next hle =>
        intro _
        have := UInt16.not_lt.mp hle
        simpa [Ctx.updateCrc, UInt16.le_iff_toNat_le] using this
  case data =>
    split
    · next hlen =>
      intro _
      have hfit := h hst
      have hbound := c.bufferSize.toNat_lt
      have hpos : 1 ≤ c.len.toNat := Nat.one_le_iff_ne_zero.mpr fun h0 =>
        hlen (UInt16.toNat_inj.mp h0)
      have hpred : (c.len - 1).toNat = c.len.toNat - 1 :=
        UInt16.toNat_sub_of_le c.len 1 (UInt16.le_iff_toNat_le.mpr hpos)
      simp only [Ctx.updateCrc, hpred, UInt16.toNat_add, UInt16.toNat_one]
      omega
    · exact fits_of_status (by simp)
  all_goals
    refine fits_of_status ?_
    repeat' split
    all_goals simp [hst]

theorem Node.take_fits {s : Node} (h : s.ctx.Fits) (b : UInt8) :
    (s.take net printf b).ctx.Fits := by
  unfold Node.take
  split
  · unfold Node.takeCmdWord
    dsimp only
    split
    · exact Ctx.fits_of_status (by simp)
    · split <;> exact Ctx.fits_of_status (by simp)
  · split
    · exact Ctx.fits_of_status (by simp [Node.takeEop])
    · exact h.take b

theorem commRun_fits {s : Node} (h : s.ctx.Fits) (b : UInt8) :
    (commRun net printf now b s).ctx.Fits :=
  Node.take_fits (h.receive now) b

/-! ## The bulk path -/

/-- A payload is awaited and the block comes too late for it. -/
def Ctx.Late (c : Ctx) (now : UInt32) : Prop :=
  c.status = .data ∧ c.len ≠ 0 ∧ commFrameTimeoutTick < now - c.lastRxTick

instance (c : Ctx) (now : UInt32) : Decidable (c.Late now) :=
  inferInstanceAs (Decidable (_ ∧ _ ∧ _))

/-- A payload byte in time is the bulk path on one byte. -/
theorem commRun_data {s : Node} (hst : s.ctx.status = .data) (hlen : s.ctx.len ≠ 0)
    (hlate : ¬ s.ctx.Late now) (b : UInt8) :
    commRun net printf now b s = { s with ctx := s.ctx.copyData now [b] } := by
  have htime : ¬ commFrameTimeoutTick < now - s.ctx.lastRxTick := fun h => hlate ⟨hst, hlen, h⟩
  have hrecv : s.ctx.receive now = { s.ctx with lastRxTick := now } := by
    simp [Ctx.receive, htime]
  have hpos : 1 ≤ s.ctx.len.toNat :=
    Nat.one_le_iff_ne_zero.mpr fun h0 => hlen (UInt16.toNat_inj.mp h0)
  have hlen' : UInt16.ofNat (s.ctx.len.toNat - 1) = s.ctx.len - 1 := by
    apply UInt16.toNat_inj.mp
    rw [UInt16.toNat_sub_of_le s.ctx.len 1 (UInt16.le_iff_toNat_le.mpr hpos)]
    simp
    have := s.ctx.len.toNat_lt
    omega
  have hidx : UInt16.ofNat (s.ctx.index.toNat + 1) = s.ctx.index + 1 := by
    apply UInt16.toNat_inj.mp
    simp
  simp [commRun, hrecv, Node.take, Ctx.take, hst, hlen, Ctx.copyData, Ctx.updateCrc,
    crc16UpdateBlock, hlen', hidx]

/-- The bulk path can be taken byte by byte. -/
theorem Ctx.copyData_cons {c : Ctx} {b : UInt8} {data : List UInt8}
    (hidx : c.index.toNat + 1 < 2 ^ 16) :
    c.copyData now (b :: data) = (c.copyData now [b]).copyData now data := by
  have hindex : (UInt16.ofNat (c.index.toNat + 1)).toNat = c.index.toNat + 1 := by
    simp; omega
  have hlen : (UInt16.ofNat (c.len.toNat - 1)).toNat = c.len.toNat - 1 := by
    have := c.len.toNat_lt
    simp; omega
  simp only [Ctx.copyData, List.length_cons, List.length_nil, Nat.zero_add, hindex, hlen,
    crc16UpdateBlock, List.foldl_cons, List.foldl_nil]
  rw [Memory.write_cons]
  congr 2 <;> omega

/-- A context that a byte at this tick does not find late. -/
theorem Ctx.not_late_of_tick {c : Ctx} (h : c.lastRxTick = now) : ¬ c.Late now := by
  rintro ⟨-, -, hlt⟩
  rw [h, UInt32.sub_self] at hlt
  exact absurd hlt (by decide)

/-- **The bulk path agrees with the payload bytes it copies.** By induction on the
bytes; each of them is in time, the first by assumption, the others because the one
before carries the same tick. -/
theorem copyData_eq_feed (b : UInt8) (data : List UInt8) {s : Node} (hfit : s.ctx.Fits)
    (hst : s.ctx.status = .data) (hlate : ¬ s.ctx.Late now)
    (hlen : (b :: data).length ≤ s.ctx.len.toNat) :
    { s with ctx := s.ctx.copyData now (b :: data) } =
      feed (commRun net printf) now (b :: data) s := by
  induction data generalizing b s with
  | nil =>
    have hne : s.ctx.len ≠ 0 := by rintro h; simp [h] at hlen
    rw [feed_cons, commRun_data hst hne hlate, feed_nil]
  | cons c data ih =>
    have hne : s.ctx.len ≠ 0 := by rintro h; simp [h] at hlen
    have hbound := s.ctx.bufferSize.toNat_lt
    have hidx : s.ctx.index.toNat + 1 < 2 ^ 16 := by
      have := hfit hst
      simp only [List.length_cons] at hlen
      omega
    have hstep : commRun net printf now b s = _ := commRun_data hst hne hlate b
    have hfit' : (commRun net printf now b s).ctx.Fits := commRun_fits hfit b
    rw [hstep] at hfit'
    have hrest := ih (s := { s with ctx := s.ctx.copyData now [b] }) c hfit' hst
      (Ctx.not_late_of_tick rfl) (by
        have := s.ctx.len.toNat_lt
        simp only [List.length_cons] at hlen ⊢
        simp only [Ctx.copyData, List.length_singleton, UInt16.toNat_ofNat']
        omega)
    rw [feed_cons, hstep, ← hrest, ← Ctx.copyData_cons hidx]

/-- The block parser of the 0xE8 protocol takes harmless shortcuts, from contexts
that a block does not find late. -/
theorem parser_shortcuts : (parser net printf).Shortcuts Node.Agrees (fun s => s.ctx.Fits)
    (fun now s => ¬ s.ctx.Late now) where
  refl _ := rfl
  step_congr _ b _ _ h := congrArg Node.observed (h.commRun_eq b)
  step_inv _ b _ h := commRun_fits h b
  step_onTime _ b s := Ctx.not_late_of_tick (commRun_lastRxTick b s)
  skip now b s s' hidle hb h := by
    have hs : s.ctx.status = .sop := by simpa [parser] using hidle
    have hs' : s'.ctx.status = .sop := h.status_eq ▸ hs
    have hne : b ≠ commSopByte := by simpa [parser] using hb
    have hskip : commRun net printf now b s' =
        { s' with ctx := { s'.ctx with lastRxTick := now } } := by
      simp [commRun, Ctx.receive, Node.take, Ctx.take, hs', hne]
    refine Eq.trans (show s.observed = s'.observed from h) ?_
    show _ = Node.observed (commRun net printf now b s')
    rw [hskip]
    simp [Node.observed, Ctx.observed, hs']
  idle_awaited s hidle := by
    have hs : s.ctx.status = .sop := by simpa [parser] using hidle
    simp [parser, hs]
  copy_eq now b data s hfit hlate hlen := by
    by_cases hst : s.ctx.status = .data
    · exact copyData_eq_feed b data hfit hst hlate (by simpa [parser, hst] using hlen)
    · simp [parser, hst] at hlen

/-- A late byte is the first of a new frame, if it is part of one at all. -/
theorem commRun_late {s : Node} (h : s.ctx.Late now) (b : UInt8) :
    (commRun net printf now b s).ctx.status ≠ .data := by
  obtain ⟨hst, -, hlt⟩ := h
  have hrecv : s.ctx.receive now = { s.ctx.reset with lastRxTick := now } := by
    simp [Ctx.receive, hst, hlt]
  by_cases hb : b = commSopByte
  · simp [commRun, hrecv, Node.take, Ctx.take, hb]
  · simp [commRun, hrecv, Node.take, Ctx.take, hb]

/-- The bulk path takes a late byte as payload. -/
theorem commRunBuffer_late {s : Node} (h : s.ctx.Late now) (b : UInt8) :
    (commRunBuffer net printf now [b] s).ctx.status = .data := by
  obtain ⟨hst, hlen, -⟩ := h
  have hw : (parser net printf).awaited s ≠ 0 := by
    simpa [parser, hst] using fun h0 => hlen (UInt16.toNat_inj.mp h0)
  have hskip : (parser net printf).skipIdle [b] s = [b] := by
    simp [BlockParser.skipIdle, parser, hst]
  obtain ⟨m, hm⟩ := Nat.exists_eq_succ_of_ne_zero hw
  rw [commRunBuffer, BlockParser.runBuffer_copy hskip hw, hm, List.drop_succ_cons, List.drop_nil,
    List.take_succ_cons, List.take_nil]
  rw [BlockParser.runBuffer_done]
  · exact hst
  · simp [BlockParser.skipIdle]

/-- For one block, being in time is exactly what agreement on all data takes. -/
theorem block_agrees_iff {s : Node} (hfit : s.ctx.Fits) :
    (∀ data, (commRunBuffer net printf now data s).Agrees
        (feed (commRun net printf) now data s)) ↔ ¬ s.ctx.Late now := by
  constructor
  · intro h hlate
    have hst := (h [0]).status_eq
    rw [commRunBuffer_late hlate] at hst
    exact commRun_late hlate 0 hst.symm
  · intro hlate data
    exact (parser_shortcuts.runBuffer_agrees now data hfit (fun _ => hlate) rfl).2

/-! ## Runs of blocks -/

/-- `DECLARE_COMM_CTX`; the dynamic address is set by the application. -/
def Ctx.declare (payloadSize : UInt16) (src dSrc linkId : UInt8) : Ctx where
  dataBuffer _ := 0
  bufferSize := payloadSize
  index := 0
  status := .sop
  crc := 0
  pack := .zero
  func := none
  len := 0
  src := src
  dSrc := dSrc
  lastRxTick := 0
  srcFlag := false
  dstFlag := false
  cmdFlag := false
  lenFlag := false
  eopFlag := false
  isRoute := false
  linkId := linkId

/-- A declared context fed byte by byte, at any ticks. -/
def byteSystem (net : Network) (printf : Output) : Transition Node where
  init s := ∃ payloadSize src dSrc linkId commands,
    s = ⟨.declare payloadSize src dSrc linkId, commands, []⟩
  next s t := ∃ now b, t = commRun net printf now b s

theorem fits_of_reachable {s : Node} (h : (byteSystem net printf).Reachable s) : s.ctx.Fits := by
  refine h.invariant (P := fun s => s.ctx.Fits) ?_ ?_
  · rintro s ⟨payloadSize, src, dSrc, linkId, commands, rfl⟩
    exact Ctx.fits_of_status (by simp [Ctx.declare])
  · rintro s t hs ⟨now, b, rfl⟩
    exact commRun_fits hs b

/-- No block with data comes late into a payload. -/
def NoLateBlock (net : Network) (printf : Output) (blocks : List (UInt32 × List UInt8))
    (s : Node) : Prop :=
  Throughout (fun now data s => data ≠ [] → ¬ s.ctx.Late now) (commRunBuffer net printf) blocks s

/-- **Blocks agree with bytes** in every run in which no block comes late into a payload. -/
theorem blocks_agree (net : Network) (printf : Output) {s : Node}
    (hs : (byteSystem net printf).Reachable s) (blocks : List (UInt32 × List UInt8))
    (hlate : NoLateBlock net printf blocks s) :
    (feedBlocks (commRunBuffer net printf) blocks s).Agrees
      (feedBlocks (feed (commRun net printf)) blocks s) :=
  parser_shortcuts.feedBlocks_agrees blocks (fits_of_reachable hs) hlate rfl

/-- A node with address 1 and one command. -/
def demoNode : Node :=
  ⟨.declare 16 1 0 3, ⟨[⟨0, 1, 2, some 7⟩], some 0⟩, []⟩

/-- No routes, and a callback that changes nothing. -/
def demoNetwork : Network := ⟨[], [], fun _ _ pack data => (pack, data)⟩

theorem demoNode_reachable : (byteSystem demoNetwork none).Reachable demoNode :=
  .start ⟨16, 1, 0, 3, ⟨[⟨0, 1, 2, some 7⟩], some 0⟩, rfl⟩

/-- The header of a frame with one payload byte. -/
def demoHead : List UInt8 := [0xE8, 0x01, 0x02, 0x00, 0x01, 0x00, 0x01, 0x02, 0x00, 0x01, 0x00]

/-- The payload byte, the CRC and the end bytes. -/
def demoTail : List UInt8 := [0x55, 0x43, 0xFB, 0x0D, 0x0A]

theorem blocks_agree_in_time :
    NoLateBlock demoNetwork none [(0, demoHead), (1000, demoTail)] demoNode ∧
    (feedBlocks (commRunBuffer demoNetwork none) [(0, demoHead), (1000, demoTail)] demoNode).Agrees
      (feedBlocks (feed (commRun demoNetwork none)) [(0, demoHead), (1000, demoTail)]
        demoNode) := by
  have htime : NoLateBlock demoNetwork none [(0, demoHead), (1000, demoTail)] demoNode := by
    unfold NoLateBlock; decide +kernel
  exact ⟨htime, blocks_agree demoNetwork none demoNode_reachable _ htime⟩

/-- A tick later the block is dispatched as a frame, its bytes are dropped. -/
theorem late_block_dispatched :
    (byteSystem demoNetwork none).Reachable demoNode ∧
    ((feedBlocks (commRunBuffer demoNetwork none)
      [(0, demoHead), (1001, demoTail)] demoNode).log.length = 1 ∧
    (feedBlocks (feed (commRun demoNetwork none))
      [(0, demoHead), (1001, demoTail)] demoNode).log = []) ∧
    ¬ (feedBlocks (commRunBuffer demoNetwork none) [(0, demoHead), (1001, demoTail)]
      demoNode).Agrees
      (feedBlocks (feed (commRun demoNetwork none))
        [(0, demoHead), (1001, demoTail)] demoNode) := by
  have hlogs : (feedBlocks (commRunBuffer demoNetwork none)
      [(0, demoHead), (1001, demoTail)] demoNode).log.length = 1 ∧
    (feedBlocks (feed (commRun demoNetwork none))
      [(0, demoHead), (1001, demoTail)] demoNode).log = [] := by decide +kernel
  refine ⟨demoNode_reachable, hlogs, fun h => ?_⟩
  have hlog := congrArg (fun n => n.log.length) (show Node.observed _ = Node.observed _ from h)
  simp only [Node.observed, hlogs.1, hlogs.2, List.length_nil] at hlog
  exact absurd hlog (by decide)

end Atoman.Comm
