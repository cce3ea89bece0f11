import Atoman.UartDma.Peripheral

/-!
# The serial core

`uart_serial_core`, clock by clock: the fractional baud accumulator, the two-flop synchroniser,
the transmitter and the receiver. The receiver takes 16 ticks to a bit (OVERSAMPLE) and samples
in the middle.
-/

namespace Atoman.UartDma

/-- The settings, which software changes only while the core is disabled. -/
structure SerialConfig where
  baud_increment : BitVec 32
  data_bits : BitVec 4
  parity_mode : BitVec 2
  two_stop_bits : Bool
  internal_loopback : Bool

/-- The other inputs of a clock. -/
structure SerialInput where
  clear : Bool := false
  enable : Bool := true
  uart_rxd : Bool := true
  tx_data : Byte := 0
  tx_valid : Bool := false

/-- TX_IDLE, TX_START, … and RX_IDLE, RX_START, … -/
inductive LineState
  | idle
  | start
  | data
  | parity
  | stop1
  | stop2
deriving DecidableEq

structure Transmitter where
  tx_state : LineState := .idle
  tx_tick_count : BitVec 4 := 0
  tx_bit_index : BitVec 3 := 0
  tx_shift : Byte := 0
  tx_parity : Bool := false
  tx_output : Bool := true

structure Receiver where
  rx_state : LineState := .idle
  rx_tick_count : BitVec 4 := 0
  rx_bit_index : BitVec 3 := 0
  rx_shift : Byte := 0
  rx_parity : Bool := false
  rx_all_low : Bool := true
  rx_data : Byte := 0
  rx_valid : Bool := false
  parity_error_pulse : Bool := false
  frame_error_pulse : Bool := false
  break_error_pulse : Bool := false

structure SerialCore where
  baud_accumulator : BitVec 32
  baud_tick : Bool
  rxd_meta : Bool
  rxd_sync : Bool
  tx : Transmitter
  rx : Receiver

/-- SAMPLE_MID, `OVERSAMPLE / 2 - 1`. -/
def sampleMid : BitVec 4 := 7#4

/-- SAMPLE_LAST, `OVERSAMPLE - 1`. -/
def sampleLast : BitVec 4 := 15#4

namespace SerialConfig
variable (cfg : SerialConfig)

def parityEnabled : Bool := cfg.parity_mode != 0b00

/-- The parity bit over data of parity `p`. -/
def expectedParity (p : Bool) : Bool := if cfg.parity_mode == 0b10 then !p else p

/-- The bit with this index is the last data bit. -/
def lastBit (bit_index : BitVec 3) : Bool := bit_index.setWidth 4 == cfg.data_bits - 1

end SerialConfig

namespace Transmitter
variable (cfg : SerialConfig) (t : Transmitter)

/-- The end of a bit. -/
def bitEnd : Transmitter :=
  let n := { t with tx_tick_count := 0 }
  match t.tx_state with
  | .start =>
    { n with
      tx_output := t.tx_shift.getLsbD 0, tx_parity := t.tx_shift.getLsbD 0, tx_state := .data }
  | .data =>
    if cfg.lastBit t.tx_bit_index then
      if cfg.parityEnabled then
        { n with tx_output := cfg.expectedParity t.tx_parity, tx_state := .parity }
      else { n with tx_output := true, tx_state := .stop1 }
    else
      { n with
        tx_bit_index := t.tx_bit_index + 1
        tx_shift := t.tx_shift >>> 1
        tx_output := t.tx_shift.getLsbD 1
        tx_parity := t.tx_parity ^^ t.tx_shift.getLsbD 1 }
  | .parity => { n with tx_output := true, tx_state := .stop1 }
  | .stop1 => { n with tx_state := if cfg.two_stop_bits then .stop2 else .idle }
  | .stop2 => { n with tx_state := .idle }
  | .idle => { n with tx_state := .idle, tx_output := true }

def clock (tick : Bool) (i : SerialInput) : Transmitter :=
  if i.clear || !i.enable then {}
  else if t.tx_state == .idle && i.tx_valid then
    { t with
      tx_shift := i.tx_data
      tx_parity := false
      tx_bit_index := 0
      tx_tick_count := 0
      tx_output := false
      tx_state := .start }
  else if tick then
    if t.tx_tick_count != sampleLast then { t with tx_tick_count := t.tx_tick_count + 1 }
    else t.bitEnd cfg
  else t

end Transmitter

/-- `v` with bit `k` set to `x`. -/
def assignBit (v : Byte) (k : BitVec 3) (x : Bool) : Byte :=
  if x then v ||| BitVec.twoPow 8 k.toNat else v &&& ~~~ BitVec.twoPow 8 k.toNat

namespace Receiver
variable (cfg : SerialConfig) (r : Receiver)

/-- The sample of a bit, at the last tick counted for it; `n` has the pulses cleared. -/
def sample (selected : Bool) (n : Receiver) : Receiver :=
  match r.rx_state with
  | .start =>
    if !selected then
      { n with
        rx_state := .data
        rx_tick_count := 0
        rx_bit_index := 0
        rx_shift := 0
        rx_parity := false }
    else { n with rx_state := .idle }
  | .data =>
    let n := { n with
      rx_tick_count := 0
      rx_shift := assignBit r.rx_shift r.rx_bit_index selected
      rx_parity := r.rx_parity ^^ selected }
    if cfg.lastBit r.rx_bit_index then
      { n with rx_state := if cfg.parityEnabled then .parity else .stop1 }
    else { n with rx_bit_index := r.rx_bit_index + 1 }
  | .parity =>
    { n with
      rx_tick_count := 0
      parity_error_pulse := selected != cfg.expectedParity r.rx_parity
      rx_state := .stop1 }
  | .stop1 =>
    let n := { n with
      rx_tick_count := 0
      frame_error_pulse := !selected
      break_error_pulse := !selected && r.rx_all_low }
    if cfg.two_stop_bits then { n with rx_state := .stop2 }
    else { n with rx_data := r.rx_shift, rx_valid := true, rx_state := .idle }
  | .stop2 =>
    { n with
      frame_error_pulse := !selected
      rx_data := r.rx_shift
      rx_valid := true
      rx_state := .idle
      rx_tick_count := 0 }
  | .idle => { n with rx_state := .idle }

/-- The tick count at which a bit is sampled. -/
def sampleTick : BitVec 4 := if r.rx_state == .start then sampleMid else sampleLast

def clock (tick selected : Bool) (i : SerialInput) : Receiver :=
  if i.clear || !i.enable then {}
  else
    let n := { r with
      rx_valid := false
      parity_error_pulse := false
      frame_error_pulse := false
      break_error_pulse := false }
    if r.rx_state == .idle then
      if !selected then { n with rx_state := .start, rx_tick_count := 0, rx_all_low := true } else n
    else if tick then
      let n := { n with rx_all_low := r.rx_all_low && !selected }
      if r.rx_tick_count == r.sampleTick then r.sample cfg selected n
      else { n with rx_tick_count := r.rx_tick_count + 1 }
    else n

end Receiver

namespace SerialCore
variable (cfg : SerialConfig) (s : SerialCore)

/-- What the receiver sees. -/
def selectedRxd : Bool := if cfg.internal_loopback then s.tx.tx_output else s.rxd_sync

def txReady (i : SerialInput) : Bool := i.enable && s.tx.tx_state == .idle

/-- `baud_sum`. -/
def baudSum : BitVec 33 := s.baud_accumulator.setWidth 33 + cfg.baud_increment.setWidth 33

def clock (i : SerialInput) : SerialCore where
  baud_accumulator := if i.clear then 0 else (s.baudSum cfg).setWidth 32
  baud_tick := if i.clear then false else (s.baudSum cfg).getLsbD 32 && i.enable
  rxd_meta := if i.clear then true else i.uart_rxd
  rxd_sync := if i.clear then true else s.rxd_meta
  tx := s.tx.clock cfg s.baud_tick i
  rx := s.rx.clock cfg s.baud_tick (s.selectedRxd cfg) i

end SerialCore
end Atoman.UartDma
