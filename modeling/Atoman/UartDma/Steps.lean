import Atoman.UartDma.Peripheral

/-!
# What one clock does

The receive channel is reset, idle, drains a byte, issues a write, waits for its handshakes or
takes its response; one lemma for each, and the same for the transmit channel. The register
process keeps the ring registers while the peripheral is enabled.
-/

namespace Atoman.UartDma
namespace State
variable {s : State} {i : Input}

/-! ## The receive channel -/

theorem rxReady_iff : s.rxReady = true ↔ s.control.uart_enable = true ∧
    s.rx.rx_dma_halted = false ∧ s.rx.rx_write_active = false ∧ s.rx.rx_fifo_pop_delay = false ∧
    s.rx_fifo.empty = false := by
  simp [rxReady, and_assoc]

theorem rxResponds_iff : s.rxResponds i = true ↔
    s.rx.rx_write_active = true ∧ s.rx.rx_bready = true ∧ i.m_axi_bvalid = true := by
  simp [rxResponds, and_assoc]

theorem rxReady_of_active (ha : s.rx.rx_write_active = true) : s.rxReady = false := by
  simp [rxReady, ha]

theorem rxNext_reset (hp : s.control.soft_reset_pulse = true) : s.rxNext i = {} := by
  simp [rxNext, hp]

theorem rxNext_idle (hp : s.control.soft_reset_pulse = false)
    (ha : s.rx.rx_write_active = false) (hr : s.rxReady = false) :
    s.rxNext i = { s.rx with rx_fifo_pop := false, rx_fifo_pop_delay := false } := by
  simp [rxNext, rxStart, rxWrite, hp, ha, hr]

theorem rxNext_drain (hp : s.control.soft_reset_pulse = false) (hd : s.rxDrains = true) :
    s.rxNext i = { s.rx with rx_fifo_pop := true, rx_fifo_pop_delay := true } := by
  simp only [rxDrains, Bool.and_eq_true] at hd
  have ha := (rxReady_iff.mp hd.1).2.2.1
  simp [rxNext, rxStart, rxWrite, hp, ha, hd.1, hd.2]

/-- The receive channel issues a write. -/
def rxIssues (s : State) : Bool := s.rxReady && !s.rxRingFull

theorem rxIssues_iff : s.rxIssues = true ↔ s.rxReady = true ∧ s.rxRingFull = false := by
  simp [rxIssues]

theorem rxNext_issue (hp : s.control.soft_reset_pulse = false) (hi : s.rxIssues = true) :
    s.rxNext i = { s.rx with
      rx_fifo_pop := false
      rx_fifo_pop_delay := false
      rx_write_address := s.rxAddress &&& 0xFFFFFFFC
      rx_write_data := laneData (s.rxAddress &&& 3) s.rx_fifo.popData
      rx_write_strobe := laneStrobe (s.rxAddress &&& 3)
      rx_awvalid := true
      rx_wvalid := true
      rx_write_active := true } := by
  obtain ⟨hr, hf⟩ := rxIssues_iff.mp hi
  have ha := (rxReady_iff.mp hr).2.2.1
  simp [rxNext, rxStart, rxWrite, hp, ha, hr, hf]

/-- Both write channels have been accepted, in this clock or before. -/
def rxAccepted (s : State) (i : Input) : Bool :=
  (!s.rx.rx_awvalid || i.m_axi_awready) && (!s.rx.rx_wvalid || i.m_axi_wready)

theorem rxNext_wait (hp : s.control.soft_reset_pulse = false)
    (ha : s.rx.rx_write_active = true) (hn : s.rxResponds i = false) :
    s.rxNext i = { s.rx with
      rx_fifo_pop := false
      rx_fifo_pop_delay := false
      rx_awvalid := s.rx.rx_awvalid && !i.m_axi_awready
      rx_wvalid := s.rx.rx_wvalid && !i.m_axi_wready
      rx_bready := s.rx.rx_bready || s.rxAccepted i } := by
  have hr := rxReady_of_active ha
  simp only [rxResponds, ha, Bool.true_and] at hn
  simp only [rxNext, rxStart, rxWrite, rxAccepted, hp, ha, hr, hn, Bool.false_eq_true, if_false,
    if_true]
  cases s.rx.rx_awvalid <;> cases i.m_axi_awready <;> cases s.rx.rx_wvalid <;>
    cases i.m_axi_wready <;> simp

theorem rxNext_respond (hp : s.control.soft_reset_pulse = false) (hn : s.rxResponds i = true) :
    s.rxNext i = { s.rx with
      rx_fifo_pop := true
      rx_fifo_pop_delay := true
      rx_awvalid := s.rx.rx_awvalid && !i.m_axi_awready
      rx_wvalid := s.rx.rx_wvalid && !i.m_axi_wready
      rx_bready := false
      rx_write_active := false
      rx_produced := if i.m_axi_bresp == 0 then s.rx.rx_produced + 1 else s.rx.rx_produced
      rx_dma_halted := if i.m_axi_bresp == 0 then s.rx.rx_dma_halted else true } := by
  obtain ⟨ha, hb, hv⟩ := rxResponds_iff.mp hn
  have hr := rxReady_of_active ha
  simp only [rxNext, rxStart, rxWrite, hp, ha, hr, hb, hv, Bool.false_eq_true, if_false, if_true,
    Bool.and_self]
  cases s.rx.rx_awvalid <;> cases i.m_axi_awready <;> cases s.rx.rx_wvalid <;>
    cases i.m_axi_wready <;> cases i.m_axi_bresp == 0 <;> simp

/-- The count and the halt move with a response only. -/
theorem rxNext_counts (hp : s.control.soft_reset_pulse = false) :
    (s.rxNext i).rx_produced = (if s.rxResponds i && i.m_axi_bresp == 0 then s.rx.rx_produced + 1
      else s.rx.rx_produced) ∧
    (s.rxNext i).rx_dma_halted = (s.rx.rx_dma_halted ||
      (s.rxResponds i && i.m_axi_bresp != 0)) := by
  cases hn : s.rxResponds i with
  | true =>
    rw [rxNext_respond hp hn]
    by_cases hb : i.m_axi_bresp = 0#2
    · simp [hb]
    · simp [hb]
  | false =>
    cases ha : s.rx.rx_write_active with
    | true => simp [rxNext_wait hp ha hn]
    | false =>
      cases hr : s.rxReady with
      | false => simp [rxNext_idle hp ha hr]
      | true =>
        cases hf : s.rxRingFull with
        | true => simp [rxNext_drain hp (by simp [rxDrains, hr, hf])]
        | false => simp [rxNext_issue hp (rxIssues_iff.mpr ⟨hr, hf⟩)]

/-! ## The transmit channel -/

theorem txReady_iff : s.txReady = true ↔ s.control.uart_enable = true ∧
    s.tx.tx_dma_halted = false ∧ s.tx.tx_read_active = false ∧ s.txRingEmpty = false ∧
    s.tx_fifo.item_count < 15#5 := by
  simp [txReady, and_assoc]

theorem txNext_reset (hp : s.control.soft_reset_pulse = true) : s.txNext i = {} := by
  simp [txNext, hp]

theorem txNext_idle (hp : s.control.soft_reset_pulse = false)
    (ha : s.tx.tx_read_active = false) (hr : s.txReady = false) :
    s.txNext i = { s.tx with tx_fifo_push := false } := by
  simp [txNext, txStart, txRead, hp, ha, hr]

theorem txNext_issue (hp : s.control.soft_reset_pulse = false) (hr : s.txReady = true) :
    s.txNext i = { s.tx with
      tx_fifo_push := false
      tx_read_address := s.txAddress &&& 0xFFFFFFFC
      tx_read_lane := s.txAddress.extractLsb' 0 2
      tx_arvalid := true
      tx_read_active := true } := by
  have ha := (txReady_iff.mp hr).2.2.1
  simp [txNext, txStart, txRead, hp, ha, hr]

theorem txNext_wait (hp : s.control.soft_reset_pulse = false)
    (ha : s.tx.tx_read_active = true) (hn : s.txResponds i = false) :
    s.txNext i = { s.tx with
      tx_fifo_push := false
      tx_arvalid := s.tx.tx_arvalid && !i.m_axi_arready
      tx_rready := s.tx.tx_rready || (s.tx.tx_arvalid && i.m_axi_arready) } := by
  have hr : s.txReady = false := by simp [txReady, ha]
  simp only [txResponds, ha, Bool.true_and] at hn
  simp only [txNext, txStart, txRead, hp, ha, hr, hn, Bool.false_eq_true, if_false, if_true]
  cases s.tx.tx_arvalid <;> cases i.m_axi_arready <;> simp

theorem txNext_respond (hp : s.control.soft_reset_pulse = false) (hn : s.txResponds i = true) :
    (s.txNext i).tx_read_active = false ∧ (s.txNext i).tx_rready = false ∧
      (s.txNext i).tx_arvalid = (s.tx.tx_arvalid && !i.m_axi_arready) := by
  simp only [txResponds, Bool.and_eq_true] at hn
  have hr : s.txReady = false := by simp [txReady, hn.1.1]
  simp only [txNext, txStart, txRead, hp, hr, hn, Bool.false_eq_true, if_false, if_true,
    Bool.and_self]
  cases s.tx.tx_arvalid <;> cases i.m_axi_arready <;> cases readOkay i <;> simp

/-- A good beat: its byte is pushed with the next clock. -/
theorem txNext_okay (hp : s.control.soft_reset_pulse = false) (hn : s.txResponds i = true)
    (hok : readOkay i = true) : (s.txNext i).tx_consumed = s.tx.tx_consumed + 1 ∧
      (s.txNext i).tx_fifo_push = true ∧
      (s.txNext i).tx_fifo_push_data =
        i.m_axi_rdata.extractLsb' (8 * s.tx.tx_read_lane.toNat) 8 := by
  simp only [txResponds, Bool.and_eq_true] at hn
  have hr : s.txReady = false := by simp [txReady, hn.1.1]
  simp only [txNext, txStart, txRead, hp, hr, hn, hok, Bool.false_eq_true, if_false, if_true,
    Bool.and_self]
  refine ⟨trivial, trivial, ?_⟩
  have hlane : ∀ lane : BitVec 2, lane = 0#2 ∨ lane = 1#2 ∨ lane = 2#2 ∨ lane = 3#2 := by decide
  rcases hlane s.tx.tx_read_lane with h | h | h | h <;> simp only [h] <;> rfl

/-! ## The register process -/

theorem commits_iff {index : BitVec 6} :
    s.commits index = true ↔ s.liteWriteCommit = true ∧ s.liteWriteIndex = index := by
  simp [commits]

/-- A write asks for a soft reset. -/
def resetRequest (s : State) : Bool := s.commits 0x00#6 && s.lite.lite_wdata.getLsbD 1

/-- A write takes the enable bit away. -/
def disableRequest (s : State) : Bool := s.commits 0x00#6 && !s.lite.lite_wdata.getLsbD 0

/-- A write to the control register. -/
theorem registerWrite_control (h0 : s.liteWriteIndex = 0x00#6) (n : Control) :
    s.registerWrite n =
      if s.lite.lite_wdata.getLsbD 1 then { n with soft_reset_pulse := true, uart_enable := false }
      else
        { n with
          internal_loopback := s.lite.lite_wdata.getLsbD 2
          uart_enable := if s.enableAccepted then true
            else if !s.lite.lite_wdata.getLsbD 0 then false else n.uart_enable } := by
  simp only [registerWrite, h0]

/-- A write to another register. -/
theorem registerWrite_other (h0 : s.liteWriteIndex ≠ 0x00#6) (n : Control) :
    (s.registerWrite n).soft_reset_pulse = n.soft_reset_pulse ∧
      (s.registerWrite n).uart_enable = n.uart_enable := by
  unfold registerWrite
  split
  case h_1 h => exact absurd h h0
  all_goals first | exact ⟨rfl, rfl⟩ | (split <;> exact ⟨rfl, rfl⟩)

/-- While the peripheral is enabled no write changes the rings. -/
theorem registerWrite_ring (he : s.control.uart_enable = true) (n : Control) :
    ((s.registerWrite n).rx_ring_base = n.rx_ring_base ∧
      (s.registerWrite n).rx_ring_size = n.rx_ring_size) ∧
    (s.registerWrite n).tx_ring_base = n.tx_ring_base ∧
      (s.registerWrite n).tx_ring_size = n.tx_ring_size := by
  simp only [registerWrite, he, Bool.not_true, Bool.false_eq_true, if_false]
  split
  case h_1 => split <;> exact ⟨⟨rfl, rfl⟩, rfl, rfl⟩
  all_goals exact ⟨⟨rfl, rfl⟩, rfl, rfl⟩

theorem registerWrite_consumed (n : Control) :
    (s.registerWrite n).rx_consumed =
      if s.liteWriteIndex = 0x07#6 then s.written s.control.rx_consumed else n.rx_consumed := by
  by_cases h7 : s.liteWriteIndex = 0x07#6
  · simp only [registerWrite, h7, if_true]
  · rw [if_neg h7]
    unfold registerWrite
    split
    case h_6 h => exact absurd h h7
    all_goals first | rfl | (split <;> rfl)

theorem registerWrite_produced (n : Control) :
    (s.registerWrite n).tx_produced =
      if s.liteWriteIndex = 0x0A#6 then s.written s.control.tx_produced else n.tx_produced := by
  by_cases ha : s.liteWriteIndex = 0x0A#6
  · simp only [registerWrite, ha, if_true]
  · rw [if_neg ha]
    unfold registerWrite
    split
    case h_9 h => exact absurd h ha
    all_goals first | rfl | (split <;> rfl)

theorem controlNext_pulse : s.controlNext.soft_reset_pulse = s.resetRequest := by
  have hwrite (n : Control) (hn : n.soft_reset_pulse = false) :
      (s.registerWrite n).soft_reset_pulse =
        (s.liteWriteIndex == 0x00#6 && s.lite.lite_wdata.getLsbD 1) := by
    by_cases h0 : s.liteWriteIndex = 0x00#6
    · rw [registerWrite_control h0, h0]
      split <;> simp_all
    · rw [(registerWrite_other h0 n).1, hn]
      simp [h0]
  simp only [controlNext, resetRequest, commits]
  cases s.liteWriteCommit <;> cases s.control.soft_reset_pulse <;> simp [hwrite]

end State
end Atoman.UartDma
