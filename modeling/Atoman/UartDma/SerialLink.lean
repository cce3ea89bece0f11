import Atoman.UartDma.SerialFrame
import Atoman.Lib.Transition

/-!
# The serial round trip

The receiver looks at the transmitter's own output, directly or through the synchroniser's two
flops. It starts to count up to three ticks after the transmitter and sees the line up to two
ticks late, so every sample falls between the fifth and the tenth tick of its bit. `Phase` says
where the two machines are; every clock leads from a phase to a phase. As every nonzero
increment makes a tick within 2^32 clocks, every byte is delivered.
-/

namespace Atoman.UartDma
open Lib SerialConfig

/-- The core with the bytes taken for transmission and the bytes delivered. -/
structure Link where
  core : SerialCore
  sent : List Byte := []
  received : List Byte := []

namespace Link
variable (cfg : SerialConfig) (x : Link) (i : SerialInput)

def clock : Link where
  core := x.core.clock cfg i
  sent := x.sent ++ if x.core.txReady i && i.tx_valid then [i.tx_data] else []
  received := x.received ++ if x.core.rx.rx_valid then [x.core.rx.rx_data] else []

/-- Enabled after a reset, with any accumulator. -/
def Start : Prop :=
  ∃ baud_accumulator baud_tick, x = { core := ⟨baud_accumulator, baud_tick, true, true, {}, {}⟩ }

/-- The core stays enabled, and its input is wired to its output unless it loops back
internally. -/
def Looped : Prop :=
  i.Running ∧ (cfg.internal_loopback = false → i.uart_rxd = x.core.tx.tx_output)

/-- What the receiver makes of the bytes sent. -/
def low (bytes : List Byte) : List Byte := bytes.map (lowBits · cfg.bits)

/-- The bytes delivered, with the one on the output now. -/
def delivered : List Byte :=
  x.received ++ if x.core.rx.rx_valid then [x.core.rx.rx_data] else []

/-- No error is raised. -/
structure Clean : Prop where
  parity_error : x.core.rx.parity_error_pulse = false
  frame_error : x.core.rx.frame_error_pulse = false
  break_error : x.core.rx.break_error_pulse = false

end Link

/-- Runs of the looped core. -/
def looping (cfg : SerialConfig) : Transition Link :=
  .driven Link.Start (Link.clock cfg) (Link.Looped cfg)

/-! ## The line -/

/-- The line `P` ticks into a frame, the first of them on the start bit; it was high before. -/
def lineLevel (cfg : SerialConfig) (b : Byte) (P : ℕ) : Bool :=
  if P = 0 then true else cfg.level b ((P - 1) / 16)

/-- The transmitter is `P` ticks into the frame, and the receiver sees the line as it was at
`Q`. -/
structure Wire (cfg : SerialConfig) (b : Byte) (P Q : ℕ) (s : SerialCore) : Prop where
  output : s.tx.tx_output = lineLevel cfg b P
  loop : cfg.internal_loopback = true → Q = P
  sync : cfg.internal_loopback = false → ∃ M, s.rxd_meta = lineLevel cfg b M ∧
    s.rxd_sync = lineLevel cfg b Q ∧ Q ≤ M ∧ M ≤ P ∧ P ≤ M + 1 ∧ M ≤ Q + 1

section Wire
variable {cfg : SerialConfig} {b : Byte} {P Q : ℕ} {s : SerialCore} {i : SerialInput}

theorem Wire.bounds (h : Wire cfg b P Q s) : Q ≤ P ∧ P ≤ Q + 2 := by
  cases hl : cfg.internal_loopback with
  | true => have := h.loop hl; omega
  | false => obtain ⟨M, -, -, h1, h2, h3, h4⟩ := h.sync hl; omega

theorem Wire.selected (h : Wire cfg b P Q s) : s.selectedRxd cfg = lineLevel cfg b Q := by
  cases hl : cfg.internal_loopback with
  | true => simp only [SerialCore.selectedRxd, hl, if_true, h.output, h.loop hl]
  | false =>
    obtain ⟨M, -, hs, -⟩ := h.sync hl
    simpa [SerialCore.selectedRxd, hl] using hs

/-- The line moves on with the transmitter. -/
theorem Wire.clock (h : Wire cfg b P Q s) (hi : i.Running)
    (hw : cfg.internal_loopback = false → i.uart_rxd = s.tx.tx_output) {P' : ℕ}
    (hP : P ≤ P') (hP' : P' ≤ P + 1)
    (ho : (s.clock cfg i).tx.tx_output = lineLevel cfg b P') :
    ∃ Q', Wire cfg b P' Q' (s.clock cfg i) ∧ Q ≤ Q' ∧ Q' ≤ Q + 1 := by
  cases hl : cfg.internal_loopback with
  | true =>
    have hQ := h.loop hl
    exact ⟨P', ⟨ho, fun _ => rfl, fun hl' => by simp [hl] at hl'⟩, by omega, by omega⟩
  | false =>
    obtain ⟨M, hmeta, hsync, h1, h2, h3, h4⟩ := h.sync hl
    refine ⟨M, ⟨ho, fun hl' => by simp [hl] at hl', fun _ => ⟨P, ?_, ?_, h2, hP, hP', h3⟩⟩, h1, h4⟩
    · simp only [SerialCore.clock, hi.1, Bool.false_eq_true, if_false]
      rw [hw hl, h.output]
    · simp only [SerialCore.clock, hi.1, Bool.false_eq_true, if_false]
      exact hmeta

/-- Before a frame the line is high. -/
theorem Wire.high (b : Byte) (ho : s.tx.tx_output = true)
    (hs : cfg.internal_loopback = false → s.rxd_meta = true ∧ s.rxd_sync = true) :
    Wire cfg b 0 0 s :=
  ⟨ho, fun _ => rfl, fun hl => ⟨0, (hs hl).1, (hs hl).2, by omega, by omega, by omega, by omega⟩⟩

/-- In the last stop bit the line is high. -/
theorem lineLevel_stop (hP : 16 * (cfg.frameBits - 1) < P) (hP' : P ≤ 16 * cfg.frameBits) :
    lineLevel cfg b P = true := by
  have hdiv : (P - 1) / 16 = cfg.frameBits - 1 := by omega
  rw [lineLevel, if_neg (by omega), hdiv]
  exact level_stop b (by simp only [frameBits]; omega)

end Wire

/-! ## The phases of a byte -/

/-- The transmitter is `P` ticks into the frame of the last byte sent. -/
structure InFrame (cfg : SerialConfig) (x : Link) (front : List Byte) (b : Byte) (P Q : ℕ) :
    Prop where
  sent : x.sent = front ++ [b]
  tx : x.core.tx = txRegs cfg b (P - 1)
  pos : 0 < P
  le : P ≤ 16 * cfg.frameBits
  wire : Wire cfg b P Q x.core

/-- Where transmitter and receiver are. -/
inductive Phase (cfg : SerialConfig) (x : Link) : Prop
  | idle (tx : x.core.tx.tx_state = .idle) (output : x.core.tx.tx_output = true)
      (line : cfg.internal_loopback = false → x.core.rxd_meta = true ∧ x.core.rxd_sync = true)
      (rx : x.core.rx.rx_state = .idle) (delivered : x.delivered = Link.low cfg x.sent)
  | waiting (front : List Byte) (b : Byte) (P Q : ℕ) (frame : InFrame cfg x front b P Q)
      (early : Q ≤ 1) (rx : x.core.rx.rx_state = .idle)
      (delivered : x.delivered = Link.low cfg front)
  | active (front : List Byte) (b : Byte) (P Q R : ℕ) (frame : InFrame cfg x front b P Q)
      (behind : R + 1 ≤ P) (near : P ≤ R + 4) (rx : RxAt cfg b R x.core.rx)
      (delivered : x.delivered = Link.low cfg front)
  | done (front : List Byte) (b : Byte) (P Q : ℕ) (frame : InFrame cfg x front b P Q)
      (late : 16 * (cfg.frameBits - 1) + 8 < P) (rx : x.core.rx.rx_state = .idle)
      (delivered : x.delivered = Link.low cfg x.sent)

section Phase
variable {cfg : SerialConfig} {x : Link} {i : SerialInput} {front : List Byte} {b : Byte} {P Q : ℕ}

/-- What was delivered stays delivered. -/
theorem clock_received : (x.clock cfg i).received = x.delivered := rfl

theorem delivered_silent (h : (x.clock cfg i).core.rx.Silent) :
    (x.clock cfg i).delivered = x.delivered := by
  rw [Link.delivered, clock_received, h.rx_valid]
  exact List.append_nil _

theorem Receiver.Silent.clean (h : x.core.rx.Silent) : x.Clean :=
  ⟨h.parity_error, h.frame_error, h.break_error⟩

/-- During a frame no byte is taken. -/
theorem InFrame.sent_clock (h : InFrame cfg x front b P Q) :
    (x.clock cfg i).sent = front ++ [b] := by
  have hne : x.core.tx.tx_state ≠ .idle := by
    rw [h.tx]
    exact stage_ne_idle _
  simp [Link.clock, SerialCore.txReady, hne, h.sent]

/-- A clock that does not end the frame. -/
theorem InFrame.clock (h : InFrame cfg x front b P Q) (hc : cfg.Valid) (hl : x.Looped cfg i)
    (hend : x.core.baud_tick = true → P < 16 * cfg.frameBits) :
    ∃ Q', InFrame cfg (x.clock cfg i) front b (P + x.core.baud_tick.toNat) Q' ∧ Q ≤ Q' ∧
      Q' ≤ Q + 1 := by
  obtain ⟨hi, hw⟩ := hl
  have hpos := h.pos
  have htx : (x.core.clock cfg i).tx = txRegs cfg b (P + x.core.baud_tick.toNat - 1) := by
    show x.core.tx.clock cfg x.core.baud_tick i = _
    rw [h.tx]
    cases ht : x.core.baud_tick with
    | false => exact tx_hold hi
    | true =>
      have hlt := hend ht
      rw [tx_tick hc hi (by omega)]
      congr 1
      rw [Bool.toNat_true]
      omega
  have hle : P + x.core.baud_tick.toNat ≤ 16 * cfg.frameBits := by
    cases ht : x.core.baud_tick with
    | false => exact h.le
    | true => exact hend ht
  have hout : (x.core.clock cfg i).tx.tx_output =
      lineLevel cfg b (P + x.core.baud_tick.toNat) := by
    rw [htx, lineLevel, if_neg (by omega)]
    rfl
  have hbit := Bool.toNat_le x.core.baud_tick
  obtain ⟨Q', hwire, hlo, hhi⟩ := h.wire.clock hi hw (Nat.le_add_right _ _) (by omega) hout
  exact ⟨Q', ⟨h.sent_clock, htx, by omega, hle, hwire⟩, hlo, hhi⟩

/-- The clock that ends the frame leaves the line high. -/
theorem InFrame.finish (h : InFrame cfg x front b P Q) (hc : cfg.Valid) (hl : x.Looped cfg i)
    (ht : x.core.baud_tick = true) (hP : P = 16 * cfg.frameBits) :
    (x.clock cfg i).core.tx.tx_state = .idle ∧ (x.clock cfg i).core.tx.tx_output = true ∧
      (cfg.internal_loopback = false →
        (x.clock cfg i).core.rxd_meta = true ∧ (x.clock cfg i).core.rxd_sync = true) := by
  obtain ⟨hi, hw⟩ := hl
  have hframe := hc.frameBits_le
  have htx : (x.clock cfg i).core.tx = (txRegs cfg b (P - 1)).clock cfg true i := by
    show x.core.tx.clock cfg x.core.baud_tick i = _
    rw [h.tx, ht]
  obtain ⟨hstate, hout⟩ := tx_done (b := b) (T := P - 1) hc hi (by omega)
  refine ⟨by rw [htx, hstate], by rw [htx, hout], fun hloop => ?_⟩
  obtain ⟨M, hmeta, -, -, h2, h3, -⟩ := h.wire.sync hloop
  refine ⟨?_, ?_⟩
  · show (if i.clear then true else i.uart_rxd) = true
    rw [hi.1, hw hloop, h.wire.output]
    exact lineLevel_stop (by omega) (by omega)
  · show (if i.clear then true else x.core.rxd_meta) = true
    rw [hi.1, hmeta]
    exact lineLevel_stop (by omega) (by omega)

theorem clock_rx : (x.clock cfg i).core.rx =
    x.core.rx.clock cfg x.core.baud_tick (x.core.selectedRxd cfg) i := rfl

/-- An idle receiver on a high line. -/
theorem clock_rx_high (hi : i.Running) (hr : x.core.rx.rx_state = .idle)
    (hs : x.core.selectedRxd cfg = true) :
    (x.clock cfg i).core.rx.rx_state = .idle ∧ (x.clock cfg i).core.rx.Silent := by
  rw [clock_rx, hs]
  exact rx_idle hi hr x.core.baud_tick

/-- Between frames. -/
theorem idle_clock (hc : cfg.Valid) (hl : x.Looped cfg i) (htx : x.core.tx.tx_state = .idle)
    (hout : x.core.tx.tx_output = true)
    (hline : cfg.internal_loopback = false → x.core.rxd_meta = true ∧ x.core.rxd_sync = true)
    (hrx : x.core.rx.rx_state = .idle) (hd : x.delivered = Link.low cfg x.sent) :
    Phase cfg (x.clock cfg i) ∧ (x.clock cfg i).Clean := by
  have hwire := Wire.high i.tx_data hout hline
  have hbits := hc.bits_bounds
  have hframe := hc.frameBits_le
  obtain ⟨hrx', hsilent⟩ := clock_rx_high hl.1 hrx hwire.selected
  have hd' := delivered_silent hsilent
  refine ⟨?_, hsilent.clean⟩
  cases hv : i.tx_valid with
  | true =>
    have htake : (x.clock cfg i).core.tx = txRegs cfg i.tx_data 0 :=
      tx_take hl.1 htx hv x.core.baud_tick
    have hsent : (x.clock cfg i).sent = x.sent ++ [i.tx_data] := by
      simp [Link.clock, SerialCore.txReady, htx, hv, hl.1.2]
    obtain ⟨Q, hwire', -, hQ⟩ := hwire.clock hl.1 hl.2 (show 0 ≤ 1 by omega) (by omega)
      (by show (x.clock cfg i).core.tx.tx_output = _
          rw [htake]
          rfl)
    exact .waiting x.sent i.tx_data 1 Q ⟨hsent, htake, by omega, by omega, hwire'⟩ (by omega)
      hrx' (hd'.trans hd)
  | false =>
    obtain ⟨htx', hout'⟩ :
        (x.clock cfg i).core.tx.tx_state = .idle ∧ (x.clock cfg i).core.tx.tx_output = true :=
      tx_idle hl.1 htx hout hv x.core.baud_tick
    have hsent : (x.clock cfg i).sent = x.sent := by simp [Link.clock, hv]
    refine .idle htx' hout' (fun hloop => ⟨?_, ?_⟩) hrx' ?_
    · show (if i.clear then true else i.uart_rxd) = true
      rw [hl.1.1, hl.2 hloop, hout]
      rfl
    · show (if i.clear then true else x.core.rxd_meta) = true
      rw [hl.1.1, (hline hloop).1]
      rfl
    · rw [hd', hsent, hd]

/-- The receiver has not seen the start bit, or sees it now. -/
theorem waiting_clock (hc : cfg.Valid) (hl : x.Looped cfg i) (h : InFrame cfg x front b P Q)
    (hQ : Q ≤ 1) (hrx : x.core.rx.rx_state = .idle) (hd : x.delivered = Link.low cfg front) :
    Phase cfg (x.clock cfg i) ∧ (x.clock cfg i).Clean := by
  have hframe := hc.frameBits_le
  have hbits := hc.bits_bounds
  have hwire := h.wire.bounds
  have hbit := Bool.toNat_le x.core.baud_tick
  obtain ⟨Q', hnext, hlo, hhi⟩ := h.clock hc hl (fun _ => by omega)
  rcases Nat.eq_zero_or_pos Q with rfl | hpos
  · have hsel : x.core.selectedRxd cfg = true := h.wire.selected
    obtain ⟨hrx', hsilent⟩ := clock_rx_high hl.1 hrx hsel
    exact ⟨.waiting front b _ Q' hnext (by omega) hrx' ((delivered_silent hsilent).trans hd),
      hsilent.clean⟩
  · obtain rfl : Q = 1 := by omega
    have hsel : x.core.selectedRxd cfg = false := h.wire.selected
    obtain ⟨hat, hsilent⟩ := rx_detect (b := b) hc hl.1 hrx x.core.baud_tick
    rw [← hsel, ← clock_rx] at hat hsilent
    exact ⟨.active front b _ Q' 0 hnext (by omega) (by omega) hat
      ((delivered_silent hsilent).trans hd), hsilent.clean⟩

/-- The receiver counts and samples. -/
theorem active_clock (hc : cfg.Valid) (hl : x.Looped cfg i) (h : InFrame cfg x front b P Q)
    {R : ℕ} (hRP : R + 1 ≤ P) (hPR : P ≤ R + 4) (hrx : RxAt cfg b R x.core.rx)
    (hd : x.delivered = Link.low cfg front) :
    Phase cfg (x.clock cfg i) ∧ (x.clock cfg i).Clean := by
  have hwire := h.wire.bounds
  have hlt := hrx.lt
  obtain ⟨Q', hnext, hlo, hhi⟩ := h.clock hc hl (fun _ => by omega)
  cases ht : x.core.baud_tick with
  | false =>
    obtain ⟨hat, hsilent⟩ := hrx.hold hl.1 (x.core.selectedRxd cfg)
    rw [← ht, ← clock_rx] at hat hsilent
    rw [ht] at hnext
    exact ⟨.active front b _ Q' R hnext (by simpa using hRP) (by simpa using hPR) hat
      ((delivered_silent hsilent).trans hd), hsilent.clean⟩
  | true =>
    rw [ht, Bool.toNat_true] at hnext
    by_cases hsample : (R + 9) % 16 = 0
    · obtain ⟨m, rfl⟩ : ∃ m, R = 16 * m + 7 := ⟨R / 16, by omega⟩
      -- the receiver sees the line inside bit `m`
      have hdiv : (Q - 1) / 16 = m := by omega
      have hsel : x.core.selectedRxd cfg = cfg.level b m := by
        rw [h.wire.selected, lineLevel, if_neg (by omega), hdiv]
      have hclock : (x.clock cfg i).core.rx =
          x.core.rx.sample cfg (cfg.level b m) (x.core.rx.cleared (cfg.level b m)) := by
        rw [clock_rx, ht, hsel, hrx.clock_tick hl.1, if_pos (hrx.sampleTick_iff.mpr (by omega))]
      rcases Nat.lt_or_ge (m + 1) cfg.frameBits with hm | hm
      · obtain ⟨hat, hsilent⟩ := hrx.sample_next hc hm
        rw [← hclock] at hat hsilent
        exact ⟨.active front b _ Q' _ hnext (by omega) (by omega) hat
          ((delivered_silent hsilent).trans hd), hsilent.clean⟩
      · have hlast := hrx.sample_last hc (m := m) (by omega)
        rw [← hclock] at hlast
        refine ⟨.done front b _ Q' hnext (by omega) hlast.state ?_,
          ⟨hlast.parity_error, hlast.frame_error, hlast.break_error⟩⟩
        rw [Link.delivered, clock_received, hlast.rx_valid, hlast.rx_data, hd, hnext.sent]
        simp [Link.low]
    · obtain ⟨hat, hsilent⟩ := hrx.tick hl.1 (x.core.selectedRxd cfg) hsample
      rw [← ht, ← clock_rx] at hat hsilent
      exact ⟨.active front b _ Q' _ hnext (by omega) (by omega) hat
        ((delivered_silent hsilent).trans hd), hsilent.clean⟩

/-- The byte is delivered, the transmitter is in the last stop bit. -/
theorem done_clock (hc : cfg.Valid) (hl : x.Looped cfg i) (h : InFrame cfg x front b P Q)
    (hP : 16 * (cfg.frameBits - 1) + 8 < P) (hrx : x.core.rx.rx_state = .idle)
    (hd : x.delivered = Link.low cfg x.sent) :
    Phase cfg (x.clock cfg i) ∧ (x.clock cfg i).Clean := by
  have hwire := h.wire.bounds
  have hle := h.le
  have hsel : x.core.selectedRxd cfg = true := by
    rw [h.wire.selected]
    exact lineLevel_stop (by omega) (by omega)
  obtain ⟨hrx', hsilent⟩ := clock_rx_high hl.1 hrx hsel
  have hsent : (x.clock cfg i).sent = x.sent := h.sent_clock.trans h.sent.symm
  have hd' : (x.clock cfg i).delivered = Link.low cfg (x.clock cfg i).sent := by
    rw [delivered_silent hsilent, hsent, hd]
  refine ⟨?_, hsilent.clean⟩
  by_cases hend : x.core.baud_tick = true ∧ P = 16 * cfg.frameBits
  · obtain ⟨htx', hout', hline'⟩ := h.finish hc hl hend.1 hend.2
    exact .idle htx' hout' hline' hrx' hd'
  · obtain ⟨Q', hnext, -, -⟩ := h.clock hc hl (fun ht => by
      rcases Nat.lt_or_ge P (16 * cfg.frameBits) with hlt | hge
      · exact hlt
      · exact absurd ⟨ht, by omega⟩ hend)
    exact .done front b _ Q' hnext (by omega) hrx' hd'

/-- **One clock** leads from a phase to a phase and raises no error. -/
theorem Phase.clock (hc : cfg.Valid) (h : Phase cfg x) (hl : x.Looped cfg i) :
    Phase cfg (x.clock cfg i) ∧ (x.clock cfg i).Clean := by
  cases h with
  | idle htx hout hline hrx hd => exact idle_clock hc hl htx hout hline hrx hd
  | waiting front b P Q hf hQ hrx hd => exact waiting_clock hc hl hf hQ hrx hd
  | active front b P Q R hf hRP hPR hrx hd => exact active_clock hc hl hf hRP hPR hrx hd
  | done front b P Q hf hP hrx hd => exact done_clock hc hl hf hP hrx hd

theorem Link.Start.phase (h : x.Start) : Phase cfg x ∧ x.Clean := by
  obtain ⟨baud_accumulator, baud_tick, rfl⟩ := h
  exact ⟨.idle rfl rfl (fun _ => ⟨rfl, rfl⟩) rfl rfl, ⟨rfl, rfl, rfl⟩⟩

theorem phase_of_reachable (hc : cfg.Valid) (h : (looping cfg).Reachable x) :
    Phase cfg x ∧ x.Clean :=
  h.driven_invariant (Q := fun y => Phase cfg y ∧ y.Clean) (fun _ hs => hs.phase)
    fun _ _ hy hj => hy.1.clock hc hj

end Phase

/-! ## Delivery -/

/-- Clocks until the frame ends, counted in increments of the accumulator. -/
def budget (cfg : SerialConfig) (s : SerialCore) (P : ℕ) : ℕ :=
  2 ^ 32 * (16 * cfg.frameBits + 1 - P - s.baud_tick.toNat) + (2 ^ 32 - s.baud_accumulator.toNat)

section Delivery
variable {cfg : SerialConfig} {x : Link} {i : SerialInput} {front : List Byte} {b : Byte} {P Q : ℕ}

/-- The accumulator and its carry. -/
theorem baud_clock (cfg : SerialConfig) (s : SerialCore) (hi : i.Running) :
    (s.clock cfg i).baud_accumulator.toNat + 2 ^ 32 * (s.clock cfg i).baud_tick.toNat =
      s.baud_accumulator.toNat + cfg.baud_increment.toNat := by
  have hacc := s.baud_accumulator.isLt
  have hinc := cfg.baud_increment.isLt
  have hsum : (s.baudSum cfg).toNat = s.baud_accumulator.toNat + cfg.baud_increment.toNat := by
    rw [SerialCore.baudSum, BitVec.toNat_add, BitVec.toNat_setWidth, BitVec.toNat_setWidth]
    omega
  have hcarry : ((s.baudSum cfg).getLsbD 32).toNat = (s.baudSum cfg).toNat / 2 ^ 32 := by
    rw [BitVec.getLsbD, Nat.testBit_eq_decide_div_mod_eq]
    have hlt := (s.baudSum cfg).isLt
    rcases Nat.lt_or_ge (s.baudSum cfg).toNat (2 ^ 32) with h | h
    · have hzero : (s.baudSum cfg).toNat / 2 ^ 32 = 0 := by omega
      rw [hzero]
      rfl
    · have hone : (s.baudSum cfg).toNat / 2 ^ 32 = 1 := by omega
      rw [hone]
      rfl
  simp only [SerialCore.clock, hi.1, hi.2, Bool.false_eq_true, if_false, Bool.and_true, hcarry,
    BitVec.toNat_setWidth, hsum]
  omega

/-- Every clock of a frame uses up one increment. -/
theorem budget_clock (hi : i.Running) (hP : P + x.core.baud_tick.toNat ≤ 16 * cfg.frameBits) :
    budget cfg (x.clock cfg i).core (P + x.core.baud_tick.toNat) + cfg.baud_increment.toNat =
      budget cfg x.core P := by
  have hbaud := baud_clock cfg x.core hi
  have hacc := x.core.baud_accumulator.isLt
  have hacc' := (x.core.clock cfg i).baud_accumulator.isLt
  have htick := Bool.toNat_le (x.core.clock cfg i).baud_tick
  show budget cfg (x.core.clock cfg i) _ + _ = _
  simp only [budget]
  cases ht : (x.core.clock cfg i).baud_tick <;> simp only [ht, Bool.toNat_true, Bool.toNat_false]
    at hbaud ⊢ <;> omega

theorem delivered_mono (is : List SerialInput) (x : Link) :
    x.delivered <+: (is.foldl (Link.clock cfg) x).delivered := by
  induction is generalizing x with
  | nil => exact List.prefix_rfl
  | cons i is ih =>
    have hone : x.delivered <+: (x.clock cfg i).delivered := by
      show (x.clock cfg i).received <+: _
      exact List.prefix_append _ _
    exact hone.trans (ih _)

/-- The byte of a frame is delivered when the budget is used up. -/
theorem frame_delivered (hc : cfg.Valid) (is : List SerialInput) {x : Link} {P Q : ℕ}
    (hphase : Phase cfg x) (h : InFrame cfg x front b P Q)
    (hl : Transition.Admits (Link.clock cfg) (Link.Looped cfg) x is)
    (hbudget : budget cfg x.core P ≤ is.length) :
    Link.low cfg (front ++ [b]) <+: (is.foldl (Link.clock cfg) x).delivered := by
  induction is generalizing x P Q with
  | nil =>
    have := x.core.baud_accumulator.isLt
    simp only [budget, List.length_nil] at hbudget
    omega
  | cons i is ih =>
    have hnext := (hphase.clock hc hl.1).1
    by_cases hend : x.core.baud_tick = true ∧ P = 16 * cfg.frameBits
    · -- the frame ends: the transmitter is idle, so all is delivered
      have hidle := (h.finish hc hl.1 hend.1 hend.2).1
      have hd : (x.clock cfg i).delivered = Link.low cfg (x.clock cfg i).sent := by
        cases hnext with
        | idle _ _ _ _ hd => exact hd
        | done _ _ _ _ _ _ _ hd => exact hd
        | waiting _ _ _ _ hf =>
          rw [hf.tx] at hidle
          exact absurd hidle (stage_ne_idle _)
        | active _ _ _ _ _ hf =>
          rw [hf.tx] at hidle
          exact absurd hidle (stage_ne_idle _)
      rw [h.sent_clock] at hd
      rw [← hd]
      exact delivered_mono is _
    · have hlt : x.core.baud_tick = true → P < 16 * cfg.frameBits := fun ht => by
        have hle := h.le
        rcases Nat.lt_or_ge P (16 * cfg.frameBits) with hlt | hge
        · exact hlt
        · exact absurd ⟨ht, by omega⟩ hend
      have hP : P + x.core.baud_tick.toNat ≤ 16 * cfg.frameBits := by
        cases ht : x.core.baud_tick with
        | false => exact h.le
        | true => exact hlt ht
      obtain ⟨Q', hframe, -, -⟩ := h.clock hc hl.1 hlt
      have hless := budget_clock hl.1.1 hP
      have hinc : 0 < cfg.baud_increment.toNat := by
        rcases Nat.eq_zero_or_pos cfg.baud_increment.toNat with hz | hpos
        · exact absurd (BitVec.eq_of_toNat_eq hz) hc.baud
        · exact hpos
      rw [List.length_cons] at hbudget
      exact ih hnext hframe hl.2 (by omega)

/-- Every byte sent is on the output within the time of a frame. -/
theorem sent_delivered (hc : cfg.Valid) (h : Phase cfg x) (is : List SerialInput)
    (hl : Transition.Admits (Link.clock cfg) (Link.Looped cfg) x is)
    (hlen : 2 ^ 32 * 194 ≤ is.length) :
    Link.low cfg x.sent <+: (is.foldl (Link.clock cfg) x).delivered := by
  have hframe := hc.frameBits_le
  have hbudget (P : ℕ) (hP : 0 < P) : budget cfg x.core P ≤ is.length := by
    simp only [budget]
    omega
  cases h with
  | idle _ _ _ _ hd => rw [← hd]; exact delivered_mono is x
  | done _ _ _ _ _ _ _ hd => rw [← hd]; exact delivered_mono is x
  | waiting front b P Q hf hQ hrx hd =>
    rw [hf.sent]
    exact frame_delivered hc is (.waiting front b P Q hf hQ hrx hd) hf hl (hbudget P hf.pos)
  | active front b P Q R hf hRP hPR hrx hd =>
    rw [hf.sent]
    exact frame_delivered hc is (.active front b P Q R hf hRP hPR hrx hd) hf hl (hbudget P hf.pos)

/-- Nothing is delivered that was not sent. -/
theorem delivered_prefix (h : Phase cfg x) : x.received <+: Link.low cfg x.sent := by
  have hrec : x.received <+: x.delivered := List.prefix_append _ _
  cases h with
  | idle _ _ _ _ hd => rwa [hd] at hrec
  | done _ _ _ _ _ _ _ hd => rwa [hd] at hrec
  | waiting _ _ _ _ hf _ _ hd =>
    rw [hd] at hrec
    rw [hf.sent, Link.low, List.map_append]
    exact hrec.trans (List.prefix_append _ _)
  | active _ _ _ _ _ hf _ _ _ hd =>
    rw [hd] at hrec
    rw [hf.sent, Link.low, List.map_append]
    exact hrec.trans (List.prefix_append _ _)

end Delivery

/-- **The serial round trip**: no error is ever raised, the bytes received are the first of
those sent with their low `data_bits` bits, in order, and within `2 ^ 40` clocks every byte
sent is received. -/
theorem serial_round_trip {cfg : SerialConfig} (hc : cfg.Valid) {x : Link}
    (h : (looping cfg).Reachable x) :
    x.Clean ∧ x.received <+: Link.low cfg x.sent ∧
      ∀ is, Transition.Admits (Link.clock cfg) (Link.Looped cfg) x is → 2 ^ 40 ≤ is.length →
        Link.low cfg x.sent <+: (is.foldl (Link.clock cfg) x).received := by
  obtain ⟨hphase, hclean⟩ := phase_of_reachable hc h
  refine ⟨hclean, delivered_prefix hphase, fun is hl hlen => ?_⟩
  obtain ⟨init, i, rfl⟩ : ∃ init i, is = init ++ [i] := by
    refine ⟨is.dropLast, is.getLast ?_, (List.dropLast_append_getLast _).symm⟩
    rintro rfl
    simp at hlen
  have hinit : Transition.Admits (Link.clock cfg) (Link.Looped cfg) x init := hl.left
  rw [List.length_append, List.length_singleton] at hlen
  rw [List.foldl_append]
  exact sent_delivered hc hphase init hinit (by omega)

instance (cfg : SerialConfig) (x : Link) (i : SerialInput) : Decidable (x.Looped cfg i) :=
  inferInstanceAs (Decidable ((_ ∧ _) ∧ (_ → _)))

/-- 8 data bits, odd parity, two stop bits, looped back internally. -/
def oddConfig : SerialConfig := ⟨0xC0000000, 8, 0b10, true, true⟩

/-- Enabled with a cleared accumulator. -/
def Link.fresh : Link := { core := ⟨0, false, true, true, {}, {}⟩ }

/-- A byte is sent in 256 clocks, and then another one. -/
def twoFrames : List SerialInput :=
  { tx_data := 0x55, tx_valid := true } :: List.replicate 300 ({} : SerialInput) ++
    { tx_data := 0xA3, tx_valid := true } :: List.replicate 300 ({} : SerialInput)

theorem serial_round_trip_twoFrames :
    (twoFrames.foldl (Link.clock oddConfig) .fresh).received = [0x55, 0xA3] ∧
      (twoFrames.foldl (Link.clock oddConfig) .fresh).Clean ∧
      (twoFrames.foldl (Link.clock oddConfig) .fresh).received <+:
        Link.low oddConfig (twoFrames.foldl (Link.clock oddConfig) .fresh).sent ∧
      ∀ is, Transition.Admits (Link.clock oddConfig) (Link.Looped oddConfig)
          (twoFrames.foldl (Link.clock oddConfig) .fresh) is → 2 ^ 40 ≤ is.length →
        Link.low oddConfig (twoFrames.foldl (Link.clock oddConfig) .fresh).sent <+:
          (is.foldl (Link.clock oddConfig)
            (twoFrames.foldl (Link.clock oddConfig) .fresh)).received :=
  ⟨by decide +kernel, serial_round_trip ⟨by decide, by decide, by decide, by decide⟩
    (Transition.Admits.reachable (by decide +kernel) (.start ⟨_, _, rfl⟩))⟩

end Atoman.UartDma
