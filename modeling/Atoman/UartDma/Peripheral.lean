import Atoman.UartDma.SyncFifo

/-!
# The UART peripheral

`axi_uart_dma`, clock by clock: the AXI4-Lite registers, the two FIFOs, and the masters that
move received bytes to a ring in memory and bytes to transmit from another. The serial core
is seen through its outputs. A clock reads the registers as they are and computes the next
ones; where the source assigns a register twice, the last assignment wins.
-/

namespace Atoman.UartDma

/-- Eight data bits. -/
abbrev Byte := BitVec 8

/-- The serial core's outputs in one clock. -/
structure Serial where
  rx_data : Byte := 0
  rx_valid : Bool := false
  parity_error : Bool := false
  frame_error : Bool := false
  break_error : Bool := false
  tx_ready : Bool := false
  tx_busy : Bool := false

/-- The inputs in one clock. -/
structure Input where
  s_axi_awaddr : BitVec 8 := 0
  s_axi_awvalid : Bool := false
  s_axi_wdata : BitVec 32 := 0
  s_axi_wstrb : BitVec 4 := 0
  s_axi_wvalid : Bool := false
  s_axi_bready : Bool := false
  s_axi_araddr : BitVec 8 := 0
  s_axi_arvalid : Bool := false
  s_axi_rready : Bool := false
  m_axi_awready : Bool := false
  m_axi_wready : Bool := false
  m_axi_bresp : BitVec 2 := 0
  m_axi_bvalid : Bool := false
  m_axi_arready : Bool := false
  m_axi_rdata : BitVec 32 := 0
  m_axi_rresp : BitVec 2 := 0
  m_axi_rlast : Bool := false
  m_axi_rvalid : Bool := false
  serial : Serial := {}

/-! ## Registers -/

/-- The AXI4-Lite slave. -/
structure Lite where
  lite_awaddr : BitVec 8 := 0
  lite_wdata : BitVec 32 := 0
  lite_wstrb : BitVec 4 := 0
  lite_aw_pending : Bool := false
  lite_w_pending : Bool := false
  lite_bvalid : Bool := false
  lite_rdata : BitVec 32 := 0
  lite_rvalid : Bool := false

/-- The registers that software writes. -/
structure Control where
  uart_enable : Bool := false
  internal_loopback : Bool := false
  soft_reset_pulse : Bool := false
  uart_config : BitVec 32 := 0x00000008
  baud_increment : BitVec 32 := 1266637395
  rx_ring_base : BitVec 32 := 0x00001000
  rx_ring_size : BitVec 32 := 256
  rx_consumed : BitVec 32 := 0
  tx_ring_base : BitVec 32 := 0x00002000
  tx_ring_size : BitVec 32 := 256
  tx_produced : BitVec 32 := 0
  irq_enable : BitVec 32 := 0x0000003F

/-- The receive channel: FIFO to memory. -/
structure Rx where
  rx_produced : BitVec 32 := 0
  rx_dma_halted : Bool := false
  rx_fifo_pop : Bool := false
  rx_fifo_pop_delay : Bool := false
  rx_write_active : Bool := false
  rx_awvalid : Bool := false
  rx_wvalid : Bool := false
  rx_bready : Bool := false
  rx_write_address : BitVec 32 := 0
  rx_write_data : BitVec 32 := 0
  rx_write_strobe : BitVec 4 := 0

/-- The transmit channel: memory to FIFO. -/
structure Tx where
  tx_consumed : BitVec 32 := 0
  tx_dma_halted : Bool := false
  tx_fifo_push : Bool := false
  tx_fifo_push_data : Byte := 0
  tx_read_active : Bool := false
  tx_arvalid : Bool := false
  tx_rready : Bool := false
  tx_read_address : BitVec 32 := 0
  tx_read_lane : BitVec 2 := 0

/-- Interrupt flags and counters. -/
structure Errors where
  irq_status : BitVec 32 := 0
  parity_error_count : BitVec 16 := 0
  frame_error_count : BitVec 16 := 0
  overflow_error_count : BitVec 16 := 0
  axi_read_error_count : BitVec 8 := 0
  axi_write_error_count : BitVec 8 := 0
  dma_stop_reason : BitVec 32 := 0

structure State where
  lite : Lite
  control : Control
  rx : Rx
  tx : Tx
  errors : Errors
  rx_fifo : SyncFifo 4 Byte
  tx_fifo : SyncFifo 4 Byte

/-- After `aresetn`; the FIFO memories have no reset. -/
def State.reset (rxMemory txMemory : Lib.Memory Byte) : State where
  lite := {}
  control := {}
  rx := {}
  tx := {}
  errors := {}
  rx_fifo := ⟨rxMemory, 0, 0, 0⟩
  tx_fifo := ⟨txMemory, 0, 0, 0⟩

/-! ## Combinational signals -/

/-- `apply_wstrb`. -/
def applyWstrb (current_value write_value : BitVec 32) (byte_strobe : BitVec 4) : BitVec 32 :=
  let lane (k : ℕ) : BitVec 8 :=
    (if byte_strobe.getLsbD k then write_value else current_value).extractLsb' (8 * k) 8
  lane 3 ++ lane 2 ++ lane 1 ++ lane 0

def ringSizeValid (size_value : BitVec 32) : Bool :=
  decide (256#32 ≤ size_value) && decide (size_value ≤ 65536#32) &&
    (size_value &&& (size_value - 1)) == 0

/-- The address of the ring position with this number. -/
def ringAddress (base size number : BitVec 32) : BitVec 32 := base + (number &&& (size - 1))

namespace State
variable (s : State) (i : Input)

def liteWriteCommit : Bool :=
  s.lite.lite_aw_pending && s.lite.lite_w_pending && !s.lite.lite_bvalid

def liteWriteIndex : BitVec 6 := s.lite.lite_awaddr.extractLsb' 2 6

/-- A register write takes effect in this clock. -/
def commits (index : BitVec 6) : Bool := s.liteWriteCommit && s.liteWriteIndex == index

def axiAwready : Bool := !s.lite.lite_aw_pending && !s.lite.lite_bvalid
def axiWready : Bool := !s.lite.lite_w_pending && !s.lite.lite_bvalid
def axiArready : Bool := !s.lite.lite_rvalid

def rxRingFull : Bool :=
  decide (s.control.rx_ring_size ≤ s.rx.rx_produced - s.control.rx_consumed)

def txRingEmpty : Bool := s.control.tx_produced == s.tx.tx_consumed

def ringConfigurationValid : Bool :=
  ringSizeValid s.control.rx_ring_size && ringSizeValid s.control.tx_ring_size &&
    s.control.rx_ring_base.extractLsb' 0 2 == 0 && s.control.tx_ring_base.extractLsb' 0 2 == 0

/-- The concatenation has 31 bits. -/
def statusValue : BitVec 32 :=
  let bit (b : Bool) : BitVec 1 := BitVec.ofBool b
  BitVec.setWidth 32 (0#20 ++ bit s.tx.tx_dma_halted ++ bit s.rx.rx_dma_halted ++
    bit (s.errors.irq_status.extractLsb' 0 6 != 0) ++ bit s.tx_fifo.full ++ bit s.tx_fifo.empty ++
    bit s.rx_fifo.full ++ bit s.rx_fifo.empty ++ bit s.txRingEmpty ++ bit s.rxRingFull ++
    bit i.serial.tx_busy ++ bit s.control.uart_enable)

def registerRead (register_index : BitVec 6) : BitVec 32 :=
  match register_index with
  | 0x00#6 => 0#29 ++ BitVec.ofBool s.control.internal_loopback ++ 0#1 ++
      BitVec.ofBool s.control.uart_enable
  | 0x01#6 => s.statusValue i
  | 0x02#6 => s.control.uart_config
  | 0x03#6 => s.control.baud_increment
  | 0x04#6 => s.control.rx_ring_base
  | 0x05#6 => s.control.rx_ring_size
  | 0x06#6 => s.rx.rx_produced
  | 0x07#6 => s.control.rx_consumed
  | 0x08#6 => s.control.tx_ring_base
  | 0x09#6 => s.control.tx_ring_size
  | 0x0A#6 => s.control.tx_produced
  | 0x0B#6 => s.tx.tx_consumed
  | 0x0C#6 => s.errors.irq_status
  | 0x0D#6 => s.control.irq_enable
  | 0x0E#6 => s.errors.frame_error_count ++ s.errors.parity_error_count
  | 0x0F#6 => s.errors.axi_write_error_count ++ s.errors.axi_read_error_count ++
      s.errors.overflow_error_count
  | 0x10#6 => s.errors.dma_stop_reason
  | 0x11#6 => 0x00010000
  | _ => 0

/-! ## The register process -/

def liteNext : Lite :=
  let n := s.lite
  let n := if s.axiAwready && i.s_axi_awvalid then
      { n with lite_awaddr := i.s_axi_awaddr, lite_aw_pending := true } else n
  let n := if s.axiWready && i.s_axi_wvalid then
      { n with lite_wdata := i.s_axi_wdata, lite_wstrb := i.s_axi_wstrb, lite_w_pending := true }
    else n
  let n := if s.lite.lite_bvalid && i.s_axi_bready then { n with lite_bvalid := false } else n
  let n := if s.liteWriteCommit then
      { n with lite_aw_pending := false, lite_w_pending := false, lite_bvalid := true } else n
  -- the read channel is a process of its own
  let n := if s.lite.lite_rvalid && i.s_axi_rready then { n with lite_rvalid := false } else n
  if s.axiArready && i.s_axi_arvalid then
    { n with lite_rdata := s.registerRead i (i.s_axi_araddr.extractLsb' 2 6), lite_rvalid := true }
  else n

/-- What a write of `data` would make of a register. -/
def written (current_value : BitVec 32) : BitVec 32 :=
  applyWstrb current_value s.lite.lite_wdata s.lite.lite_wstrb

/-- The enable bit is taken only with a configuration that can run. -/
def enableAccepted : Bool :=
  s.lite.lite_wdata.getLsbD 0 && s.ringConfigurationValid &&
    decide (5#4 ≤ s.control.uart_config.extractLsb' 0 4) &&
    decide (s.control.uart_config.extractLsb' 0 4 ≤ 8#4) &&
    s.control.uart_config.extractLsb' 4 2 != 3 && s.control.baud_increment != 0

/-- The register write, on the registers `n` as assigned before it. -/
def registerWrite (n : Control) : Control :=
  match s.liteWriteIndex with
  | 0x00#6 =>
    if s.lite.lite_wdata.getLsbD 1 then { n with soft_reset_pulse := true, uart_enable := false }
    else
      { n with
        internal_loopback := s.lite.lite_wdata.getLsbD 2
        uart_enable := if s.enableAccepted then true
          else if !s.lite.lite_wdata.getLsbD 0 then false else n.uart_enable }
  | 0x02#6 => if !s.control.uart_enable then
      { n with uart_config := s.written s.control.uart_config } else n
  | 0x03#6 => if !s.control.uart_enable then
      { n with baud_increment := s.written s.control.baud_increment } else n
  | 0x04#6 => if !s.control.uart_enable then
      { n with rx_ring_base := s.written s.control.rx_ring_base } else n
  | 0x05#6 => if !s.control.uart_enable then
      { n with rx_ring_size := s.written s.control.rx_ring_size } else n
  | 0x07#6 => { n with rx_consumed := s.written s.control.rx_consumed }
  | 0x08#6 => if !s.control.uart_enable then
      { n with tx_ring_base := s.written s.control.tx_ring_base } else n
  | 0x09#6 => if !s.control.uart_enable then
      { n with tx_ring_size := s.written s.control.tx_ring_size } else n
  | 0x0A#6 => { n with tx_produced := s.written s.control.tx_produced }
  | 0x0D#6 => { n with irq_enable := s.written s.control.irq_enable }
  | _ => n

def controlNext : Control :=
  let n := { s.control with soft_reset_pulse := false }
  let n := if s.control.soft_reset_pulse then { n with rx_consumed := 0, tx_produced := 0 } else n
  if s.liteWriteCommit then s.registerWrite n else n

/-! ## The DMA process -/

/-- The receive channel takes up the head of the FIFO. -/
def rxReady : Bool :=
  s.control.uart_enable && !s.rx.rx_dma_halted && !s.rx.rx_write_active &&
    !s.rx.rx_fifo_pop_delay && !s.rx_fifo.empty

/-- It is dropped: the ring is full. -/
def rxDrains : Bool := s.rxReady && s.rxRingFull

/-- Its response is taken. -/
def rxResponds : Bool := s.rx.rx_write_active && s.rx.rx_bready && i.m_axi_bvalid

/-- The data lane a byte is put on. -/
def laneData (lane : BitVec 32) (b : Byte) : BitVec 32 :=
  match lane with
  | 0#32 => 0#24 ++ b
  | 1#32 => 0#16 ++ b ++ 0#8
  | 2#32 => 0#8 ++ b ++ 0#16
  | _ => b ++ 0#24

def laneStrobe (lane : BitVec 32) : BitVec 4 :=
  match lane with
  | 0#32 => 0b0001
  | 1#32 => 0b0010
  | 2#32 => 0b0100
  | _ => 0b1000

def rxAddress : BitVec 32 :=
  ringAddress s.control.rx_ring_base s.control.rx_ring_size s.rx.rx_produced

def rxStart (n : Rx) : Rx :=
  if s.rxReady then
    if s.rxRingFull then { n with rx_fifo_pop := true, rx_fifo_pop_delay := true }
    else
      { n with
        rx_write_address := s.rxAddress &&& 0xFFFFFFFC
        rx_write_data := laneData (s.rxAddress &&& 3) s.rx_fifo.popData
        rx_write_strobe := laneStrobe (s.rxAddress &&& 3)
        rx_awvalid := true
        rx_wvalid := true
        rx_write_active := true }
  else n

def rxWrite (n : Rx) : Rx :=
  let r := s.rx
  if r.rx_write_active then
    let n := if r.rx_awvalid && i.m_axi_awready then { n with rx_awvalid := false } else n
    let n := if r.rx_wvalid && i.m_axi_wready then { n with rx_wvalid := false } else n
    let n := if (!r.rx_awvalid || i.m_axi_awready) && (!r.rx_wvalid || i.m_axi_wready) then
        { n with rx_bready := true } else n
    if r.rx_bready && i.m_axi_bvalid then
      let n := { n with
        rx_bready := false
        rx_write_active := false
        rx_fifo_pop := true
        rx_fifo_pop_delay := true }
      if i.m_axi_bresp == 0 then { n with rx_produced := r.rx_produced + 1 }
      else { n with rx_dma_halted := true }
    else n
  else n

def rxNext : Rx :=
  if s.control.soft_reset_pulse then {}
  else
    let n := { s.rx with
      rx_fifo_pop := false
      rx_fifo_pop_delay := if s.rx.rx_fifo_pop_delay then false else s.rx.rx_fifo_pop_delay }
    s.rxWrite i (s.rxStart n)

/-- The transmit channel reads the next byte. -/
def txReady : Bool :=
  s.control.uart_enable && !s.tx.tx_dma_halted && !s.tx.tx_read_active && !s.txRingEmpty &&
    decide (s.tx_fifo.item_count < 15#5)

/-- Its read beat is taken. -/
def txResponds : Bool := s.tx.tx_read_active && s.tx.tx_rready && i.m_axi_rvalid

/-- A read beat is good: OKAY and last. -/
def readOkay : Bool := i.m_axi_rresp == 0 && i.m_axi_rlast

def txAddress : BitVec 32 :=
  ringAddress s.control.tx_ring_base s.control.tx_ring_size s.tx.tx_consumed

def txStart (n : Tx) : Tx :=
  if s.txReady then
    { n with
      tx_read_address := s.txAddress &&& 0xFFFFFFFC
      tx_read_lane := s.txAddress.extractLsb' 0 2
      tx_arvalid := true
      tx_read_active := true }
  else n

def txRead (n : Tx) : Tx :=
  let t := s.tx
  if t.tx_read_active then
    let n := if t.tx_arvalid && i.m_axi_arready then
      { n with tx_arvalid := false, tx_rready := true }
      else n
    if t.tx_rready && i.m_axi_rvalid then
      let n := { n with tx_rready := false, tx_read_active := false }
      if readOkay i then
        { n with
          tx_fifo_push_data := match t.tx_read_lane with
            | 0#2 => i.m_axi_rdata.extractLsb' 0 8
            | 1#2 => i.m_axi_rdata.extractLsb' 8 8
            | 2#2 => i.m_axi_rdata.extractLsb' 16 8
            | _ => i.m_axi_rdata.extractLsb' 24 8
          tx_fifo_push := true
          tx_consumed := t.tx_consumed + 1 }
      else { n with tx_dma_halted := true }
    else n
  else n

def txNext : Tx :=
  if s.control.soft_reset_pulse then {}
  else s.txRead i (s.txStart { s.tx with tx_fifo_push := false })

/-- A byte arrives while the FIFO reads full. -/
def rxOverflows : Bool := i.serial.rx_valid && s.rx_fifo.full

/-- An enable request with invalid rings. -/
def configFault : Bool :=
  s.commits 0x00#6 && s.lite.lite_wdata.getLsbD 0 && !s.ringConfigurationValid

def readFault : Bool := s.txResponds i && !readOkay i
def writeFault : Bool := s.rxResponds i && i.m_axi_bresp != 0

/-- `value` with bit `bit` set if `on`. -/
def setBit (value : BitVec 32) (bit : ℕ) (on : Bool) : BitVec 32 :=
  if on then value ||| BitVec.twoPow 32 bit else value

def errorsNext : Errors :=
  if s.control.soft_reset_pulse then {}
  else
    let e := s.errors
    let frame := i.serial.frame_error || i.serial.break_error
    -- both overflow branches add one to the old count
    let overflow := s.rxOverflows i || s.rxDrains
    let status := if s.commits 0x0C#6 then e.irq_status &&& ~~~ s.written 0 else e.irq_status
    let status := setBit status 0 i.serial.parity_error
    let status := setBit status 1 frame
    let status := setBit status 2 overflow
    let status := setBit status 3 (s.readFault i)
    let status := setBit status 4 (s.writeFault i)
    let reason := setBit e.dma_stop_reason 5 s.configFault
    let reason := setBit reason 4 (s.writeFault i)
    { irq_status := setBit status 5 s.configFault
      parity_error_count := if i.serial.parity_error then e.parity_error_count + 1
        else e.parity_error_count
      frame_error_count := if frame then e.frame_error_count + 1 else e.frame_error_count
      overflow_error_count := if overflow then e.overflow_error_count + 1
        else e.overflow_error_count
      axi_read_error_count := if s.readFault i then e.axi_read_error_count + 1
        else e.axi_read_error_count
      axi_write_error_count := if s.writeFault i then e.axi_write_error_count + 1
        else e.axi_write_error_count
      dma_stop_reason := setBit reason 3 (s.readFault i) }

/-! ## One clock -/

def txFifoPop : Bool := i.serial.tx_ready && !s.tx_fifo.empty

def clock : State where
  lite := s.liteNext i
  control := s.controlNext
  rx := s.rxNext i
  tx := s.txNext i
  errors := s.errorsNext i
  rx_fifo := s.rx_fifo.clock s.control.soft_reset_pulse i.serial.rx_valid i.serial.rx_data
    s.rx.rx_fifo_pop
  tx_fifo := s.tx_fifo.clock s.control.soft_reset_pulse s.tx.tx_fifo_push s.tx.tx_fifo_push_data
    (s.txFifoPop i)

end State
end Atoman.UartDma
