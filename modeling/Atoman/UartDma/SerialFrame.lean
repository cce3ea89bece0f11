import Atoman.UartDma.SerialCore

/-!
# Frames on the serial line

A frame is a start bit, the data bits from the lowest on, a parity bit if enabled, and one or
two stop bits, each 16 ticks long. `txRegs` gives the transmitter's registers after any number
of ticks of a frame; `RxAt` says what the receiver's registers hold after it has counted `R`
ticks, which is in the middle of bit `m` at `R = 16 * m + 8`.
-/

namespace Atoman.UartDma

/-! ## The frame -/

namespace SerialConfig
variable (cfg : SerialConfig) (b : Byte)

/-- The settings with which the peripheral lets itself be enabled. -/
structure Valid : Prop where
  bits_low : 5#4 ≤ cfg.data_bits
  bits_high : cfg.data_bits ≤ 8#4
  parity : cfg.parity_mode ≠ 0b11
  baud : cfg.baud_increment ≠ 0

/-- The number of data bits. -/
def bits : ℕ := cfg.data_bits.toNat

/-- The number of bits of a frame. -/
def frameBits : ℕ := cfg.bits + cfg.parityEnabled.toNat + cfg.two_stop_bits.toNat + 2

/-- The parity of the lowest `j` bits. -/
def prefixParity (b : Byte) : ℕ → Bool
  | 0 => false
  | j + 1 => prefixParity b j ^^ b.getLsbD j

/-- The lowest `j` bits. -/
def lowBits (b : Byte) (j : ℕ) : Byte := b &&& BitVec.ofNat 8 (2 ^ j - 1)

/-- The level of bit `k` of the frame of `b`. -/
def level (k : ℕ) : Bool :=
  if k = 0 then false
  else if k ≤ cfg.bits then b.getLsbD (k - 1)
  else if k = cfg.bits + 1 ∧ cfg.parityEnabled = true then
    cfg.expectedParity (prefixParity b cfg.bits)
  else true

/-- What bit `k` of a frame is. -/
def stage (k : ℕ) : LineState :=
  if k = 0 then .start
  else if k ≤ cfg.bits then .data
  else if k = cfg.bits + 1 ∧ cfg.parityEnabled = true then .parity
  else if k = cfg.bits + cfg.parityEnabled.toNat + 1 then .stop1
  else .stop2

variable {cfg}

theorem Valid.bits_bounds (h : cfg.Valid) : 5 ≤ cfg.bits ∧ cfg.bits ≤ 8 := by
  have hlow := BitVec.le_def.mp h.bits_low
  have hhigh := BitVec.le_def.mp h.bits_high
  exact ⟨by simpa [bits] using hlow, by simpa [bits] using hhigh⟩

theorem Valid.frameBits_le (h : cfg.Valid) : cfg.bits + 2 ≤ cfg.frameBits ∧ cfg.frameBits ≤ 12 := by
  have hbits := h.bits_bounds
  have hp := Bool.toNat_le cfg.parityEnabled
  have hs := Bool.toNat_le cfg.two_stop_bits
  simp only [frameBits]
  omega

theorem Valid.lastBit_iff (h : cfg.Valid) {j : ℕ} (hj : j < 8) :
    cfg.lastBit (BitVec.ofNat 3 j) = true ↔ j + 1 = cfg.bits := by
  have hbits := h.bits_bounds
  have hsub : (cfg.data_bits - 1).toNat = cfg.bits - 1 := by
    rw [BitVec.toNat_sub_of_le (by rw [BitVec.le_def]; simp only [bits] at hbits; simp; omega)]
    rfl
  rw [lastBit, beq_iff_eq, ← BitVec.toNat_inj, hsub, BitVec.toNat_setWidth, BitVec.toNat_ofNat]
  omega

theorem level_start : cfg.level b 0 = false := rfl

theorem level_data {k : ℕ} (hk : k < cfg.bits) : cfg.level b (k + 1) = b.getLsbD k := by
  rw [level, if_neg (Nat.succ_ne_zero k), if_pos (Nat.succ_le_of_lt hk), Nat.add_sub_cancel]

theorem level_parity (hp : cfg.parityEnabled = true) :
    cfg.level b (cfg.bits + 1) = cfg.expectedParity (prefixParity b cfg.bits) := by
  simp [level, hp]

/-- The stop bits are high. -/
theorem level_stop {k : ℕ} (hk : cfg.bits + cfg.parityEnabled.toNat < k) :
    cfg.level b k = true := by
  have hne : ¬ (k = cfg.bits + 1 ∧ cfg.parityEnabled = true) := by
    rintro ⟨rfl, hp⟩
    simp [hp] at hk
  rw [level, if_neg (by omega), if_neg (by omega), if_neg hne]

theorem stage_data {k : ℕ} (hk : 0 < k) (hk' : k ≤ cfg.bits) : cfg.stage k = .data := by
  rw [stage, if_neg (by omega), if_pos hk']

theorem stage_parity (hp : cfg.parityEnabled = true) : cfg.stage (cfg.bits + 1) = .parity := by
  simp [stage, hp]

theorem stage_stop1 {k : ℕ} (hk : k = cfg.bits + cfg.parityEnabled.toNat + 1) :
    cfg.stage k = .stop1 := by
  have hne : ¬ (k = cfg.bits + 1 ∧ cfg.parityEnabled = true) := by
    rintro ⟨rfl, hp⟩
    simp [hp] at hk
  rw [stage, if_neg (by omega), if_neg (by omega), if_neg hne, if_pos hk]

theorem stage_stop2 {k : ℕ} (hk : cfg.bits + cfg.parityEnabled.toNat + 1 < k) :
    cfg.stage k = .stop2 := by
  have hne : ¬ (k = cfg.bits + 1 ∧ cfg.parityEnabled = true) := by
    rintro ⟨rfl, hp⟩
    simp only [hp, Bool.toNat_true] at hk
    omega
  rw [stage, if_neg (by omega), if_neg (by omega), if_neg hne, if_neg (by omega)]

theorem stage_ne_idle (k : ℕ) : cfg.stage k ≠ .idle := by
  unfold stage
  repeat' split
  all_goals decide

/-- A bit is the start bit, a data bit, the parity bit or a stop bit. -/
theorem bit_cases {k : ℕ} (hk : k < cfg.frameBits) :
    k = 0 ∨ (0 < k ∧ k < cfg.bits) ∨ (k = cfg.bits) ∨
      (k = cfg.bits + 1 ∧ cfg.parityEnabled = true) ∨
      (k = cfg.bits + cfg.parityEnabled.toNat + 1) ∨
      (k = cfg.bits + cfg.parityEnabled.toNat + 2 ∧ cfg.two_stop_bits = true) := by
  simp only [frameBits] at hk
  cases hp : cfg.parityEnabled <;> cases hs : cfg.two_stop_bits <;> simp [hp, hs] at hk ⊢ <;> omega

theorem getLsbD_lowBits (j i : ℕ) (hj : j ≤ 8) :
    (lowBits b j).getLsbD i = (decide (i < j) && b.getLsbD i) := by
  rw [lowBits, BitVec.getLsbD_and, BitVec.getLsbD_ofNat, Nat.testBit_two_pow_sub_one]
  by_cases hi : i < j
  · simp [hi, show i < 8 by omega]
  · simp [hi]

/-- The next bit is taken in. -/
theorem lowBits_succ {j : ℕ} (hj : j < 8) :
    assignBit (lowBits b j) (BitVec.ofNat 3 j) (b.getLsbD j) = lowBits b (j + 1) := by
  have hindex : (BitVec.ofNat 3 j).toNat = j := by
    rw [BitVec.toNat_ofNat]
    omega
  refine BitVec.eq_of_getLsbD_eq fun i hi => ?_
  have hlow := getLsbD_lowBits b j i hj.le
  rw [getLsbD_lowBits b (j + 1) i (by omega), assignBit, hindex]
  rcases Nat.lt_trichotomy i j with hlt | rfl | hgt
  · have hne : j ≠ i := by omega
    split <;> simp [-BitVec.getLsbD_eq_getElem, hlow, hlt, hne, hi, Nat.lt_succ_of_lt hlt]
  · cases hbit : b.getLsbD i <;> simp [-BitVec.getLsbD_eq_getElem, hlow, hi]
  · have hne : j ≠ i := by omega
    split <;> simp [-BitVec.getLsbD_eq_getElem, hlow, hne, show ¬ i < j by omega,
      show ¬ i < j + 1 by omega]

end SerialConfig

/-! ## The transmitter -/

open SerialConfig

/-- The core is enabled and not cleared. -/
def SerialInput.Running (i : SerialInput) : Prop := i.clear = false ∧ i.enable = true

/-- The transmitter after `T` ticks of the frame of `b`. -/
def txRegs (cfg : SerialConfig) (b : Byte) (T : ℕ) : Transmitter where
  tx_state := cfg.stage (T / 16)
  tx_tick_count := BitVec.ofNat 4 (T % 16)
  tx_bit_index := BitVec.ofNat 3 (min (T / 16 - 1) (cfg.bits - 1))
  tx_shift := b >>> min (T / 16 - 1) (cfg.bits - 1)
  tx_parity := if T / 16 = 0 then false else prefixParity b (min (T / 16 - 1) (cfg.bits - 1) + 1)
  tx_output := cfg.level b (T / 16)

section Transmit
variable {cfg : SerialConfig} {b : Byte} {T : ℕ} {i : SerialInput}

/-- A byte is taken when the transmitter is idle. -/
theorem tx_take {t : Transmitter} (hi : i.Running) (ht : t.tx_state = .idle)
    (hv : i.tx_valid = true) (tick : Bool) :
    t.clock cfg tick i = txRegs cfg i.tx_data 0 := by
  simp [Transmitter.clock, hi.1, hi.2, ht, hv, txRegs, stage, level]

/-- Without a byte the idle line stays high. -/
theorem tx_idle {t : Transmitter} (hi : i.Running) (ht : t.tx_state = .idle)
    (ho : t.tx_output = true) (hv : i.tx_valid = false) (tick : Bool) :
    (t.clock cfg tick i).tx_state = .idle ∧ (t.clock cfg tick i).tx_output = true := by
  simp only [Transmitter.clock, hi.1, hi.2, ht, hv, Transmitter.bitEnd]
  cases tick <;> cases t.tx_tick_count != sampleLast <;> simp [ht, ho]

theorem tx_hold (hi : i.Running) : (txRegs cfg b T).clock cfg false i = txRegs cfg b T := by
  have hne : cfg.stage (T / 16) ≠ .idle := stage_ne_idle _
  simp [Transmitter.clock, hi.1, hi.2, txRegs, hne]

/-- The last tick of bit `k` begins the next bit. -/
theorem tx_bitEnd (hc : cfg.Valid) {k : ℕ} (hk : k + 1 < cfg.frameBits) :
    (txRegs cfg b (16 * k + 15)).bitEnd cfg = txRegs cfg b (16 * (k + 1)) := by
  obtain ⟨hbits, hbits'⟩ := hc.bits_bounds
  have hdiv : (16 * k + 15) / 16 = k := by omega
  have hdiv' : 16 * (k + 1) / 16 = k + 1 := by omega
  have hmod : 16 * (k + 1) % 16 = 0 := by omega
  simp only [txRegs, hdiv, hdiv', hmod, Nat.add_sub_cancel]
  rcases bit_cases (Nat.lt_of_succ_lt hk) with
    rfl | ⟨hk0, hkb⟩ | rfl | ⟨rfl, hp⟩ | hstop | ⟨hstop, htwo⟩
  · -- the start bit
    have hlevel := level_data (b := b) (show 0 < cfg.bits by omega)
    simp only [Transmitter.bitEnd]
    rw [show cfg.stage 0 = .start from rfl, stage_data (by omega) (by omega), hlevel]
    simp [prefixParity]
  · -- a data bit, not the last one
    have hlast : cfg.lastBit (BitVec.ofNat 3 (k - 1)) = false := by
      rw [← Bool.not_eq_true, hc.lastBit_iff (by omega)]
      omega
    have hmin : min (k - 1) (cfg.bits - 1) = k - 1 := by omega
    have hmin' : min k (cfg.bits - 1) = k := by omega
    have hlevel := level_data (b := b) hkb
    simp only [Transmitter.bitEnd, stage_data hk0 hkb.le, stage_data (Nat.succ_pos k) hkb, hmin,
      hmin', hlast, hlevel]
    obtain ⟨j, rfl⟩ := Nat.exists_eq_add_of_lt hk0
    simp [BitVec.ofNat_add, prefixParity, BitVec.shiftRight_add, Nat.add_comm]
  · -- the last data bit
    have hlast : cfg.lastBit (BitVec.ofNat 3 (cfg.bits - 1)) = true := by
      rw [hc.lastBit_iff (by omega)]
      omega
    have hmin : min cfg.bits (cfg.bits - 1) = cfg.bits - 1 := by omega
    have hsucc : cfg.bits - 1 + 1 = cfg.bits := by omega
    cases hp : cfg.parityEnabled with
    | true =>
      simp only [Transmitter.bitEnd, stage_data (show 0 < cfg.bits by omega) le_rfl,
        stage_parity hp, min_self, hmin, hlast, hp, level_parity b hp, hsucc]
      simp [show cfg.bits ≠ 0 by omega]
    | false =>
      have hstage : cfg.stage (cfg.bits + 1) = .stop1 := stage_stop1 (by simp [hp])
      have hlevel : cfg.level b (cfg.bits + 1) = true := level_stop b (by simp [hp])
      simp only [Transmitter.bitEnd, stage_data (show 0 < cfg.bits by omega) le_rfl, hstage,
        min_self, hmin, hlast, hp, hlevel]
      simp [show cfg.bits ≠ 0 by omega]
  · -- the parity bit
    have hstage : cfg.stage (cfg.bits + 1 + 1) = .stop1 := stage_stop1 (by simp [hp])
    have hlevel : cfg.level b (cfg.bits + 1 + 1) = true := level_stop b (by simp [hp])
    simp only [Transmitter.bitEnd, stage_parity hp, hstage, hlevel, Nat.add_sub_cancel,
      show min cfg.bits (cfg.bits - 1) = cfg.bits - 1 by omega,
      show min (cfg.bits + 1) (cfg.bits - 1) = cfg.bits - 1 by omega]
    simp
  · -- the first of two stop bits
    have htwo : cfg.two_stop_bits = true := by
      by_contra hone
      simp only [frameBits, Bool.not_eq_true] at hk hone
      rw [hone, Bool.toNat_false] at hk
      omega
    have hstage : cfg.stage (k + 1) = .stop2 := stage_stop2 (by omega)
    have hlevel : cfg.level b k = true := level_stop b (by omega)
    have hlevel' : cfg.level b (k + 1) = true := level_stop b (by omega)
    simp only [Transmitter.bitEnd, stage_stop1 hstop, hstage, hlevel, hlevel', htwo,
      show min (k - 1) (cfg.bits - 1) = cfg.bits - 1 by omega,
      show min k (cfg.bits - 1) = cfg.bits - 1 by omega]
    simp [show k ≠ 0 by omega]
  · simp only [frameBits, htwo, Bool.toNat_true] at hk
    omega

/-- The last tick of the frame. -/
theorem tx_frameEnd (hc : cfg.Valid) {k : ℕ} (hk : k + 1 = cfg.frameBits) :
    ((txRegs cfg b (16 * k + 15)).bitEnd cfg).tx_state = .idle ∧
      ((txRegs cfg b (16 * k + 15)).bitEnd cfg).tx_output = true := by
  have hdiv : (16 * k + 15) / 16 = k := by omega
  have hbits := hc.bits_bounds
  simp only [txRegs, hdiv]
  simp only [frameBits] at hk
  have hlevel : cfg.level b k = true := level_stop b (by omega)
  cases htwo : cfg.two_stop_bits with
  | true =>
    rw [htwo, Bool.toNat_true] at hk
    simp [Transmitter.bitEnd, show cfg.stage k = .stop2 from stage_stop2 (by omega), hlevel]
  | false =>
    rw [htwo, Bool.toNat_false] at hk
    simp [Transmitter.bitEnd, show cfg.stage k = .stop1 from stage_stop1 (by omega), hlevel, htwo]

/-- A tick within the frame. -/
theorem tx_tick (hc : cfg.Valid) (hi : i.Running) (hT : T + 1 < 16 * cfg.frameBits) :
    (txRegs cfg b T).clock cfg true i = txRegs cfg b (T + 1) := by
  have hne : cfg.stage (T / 16) ≠ .idle := stage_ne_idle _
  have hstate : (txRegs cfg b T).tx_state ≠ .idle := hne
  simp only [Transmitter.clock, hi.1, hi.2, Bool.not_true, Bool.or_false, Bool.false_eq_true,
    if_false, if_true, beq_false_of_ne hstate, Bool.false_and]
  rcases Nat.lt_or_ge (T % 16) 15 with hlt | hge
  · have hcount : (txRegs cfg b T).tx_tick_count ≠ sampleLast := by
      simp only [txRegs, sampleLast, ne_eq, ← BitVec.toNat_inj, BitVec.toNat_ofNat]
      omega
    rw [if_pos (by simpa using hcount)]
    have hdiv : (T + 1) / 16 = T / 16 := by omega
    have hmod : (T + 1) % 16 = T % 16 + 1 := by omega
    simp only [txRegs, hdiv, hmod, BitVec.ofNat_add]
    rfl
  · obtain ⟨k, rfl⟩ : ∃ k, T = 16 * k + 15 := ⟨T / 16, by omega⟩
    have hcount : (txRegs cfg b (16 * k + 15)).tx_tick_count = sampleLast := by
      simp only [txRegs, sampleLast, ← BitVec.toNat_inj, BitVec.toNat_ofNat]
      omega
    rw [if_neg (by simp [hcount]), tx_bitEnd hc (by omega)]
    rfl

/-- The tick that ends the frame. -/
theorem tx_done (hc : cfg.Valid) (hi : i.Running) (hT : T + 1 = 16 * cfg.frameBits) :
    ((txRegs cfg b T).clock cfg true i).tx_state = .idle ∧
      ((txRegs cfg b T).clock cfg true i).tx_output = true := by
  have hstate : (txRegs cfg b T).tx_state ≠ .idle := stage_ne_idle _
  obtain ⟨k, rfl⟩ : ∃ k, T = 16 * k + 15 := ⟨T / 16, by omega⟩
  have hcount : (txRegs cfg b (16 * k + 15)).tx_tick_count = sampleLast := by
    simp only [txRegs, sampleLast, ← BitVec.toNat_inj, BitVec.toNat_ofNat]
    omega
  simp only [Transmitter.clock, hi.1, hi.2, Bool.not_true, Bool.or_false, Bool.false_eq_true,
    if_false, if_true, beq_false_of_ne hstate, Bool.false_and]
  rw [if_neg (by simp [hcount])]
  exact tx_frameEnd hc (by omega)

end Transmit

/-! ## The receiver -/

/-- No output pulse. -/
structure Receiver.Silent (r : Receiver) : Prop where
  rx_valid : r.rx_valid = false
  parity_error : r.parity_error_pulse = false
  frame_error : r.frame_error_pulse = false
  break_error : r.break_error_pulse = false

/-- The receiver after it has counted `R` ticks of the frame of `b`. -/
structure RxAt (cfg : SerialConfig) (b : Byte) (R : ℕ) (r : Receiver) : Prop where
  lt : R + 8 < 16 * cfg.frameBits
  state : r.rx_state = cfg.stage ((R + 8) / 16)
  count : r.rx_tick_count = BitVec.ofNat 4 (if R < 8 then R else (R + 8) % 16)
  index : 8 ≤ R → r.rx_bit_index = BitVec.ofNat 3 (min ((R + 8) / 16 - 1) (cfg.bits - 1))
  shift : 8 ≤ R → r.rx_shift = lowBits b (min ((R + 8) / 16 - 1) cfg.bits)
  parity : 8 ≤ R → r.rx_parity = prefixParity b (min ((R + 8) / 16 - 1) cfg.bits)

/-- The receiver has delivered the byte. -/
structure Delivers (cfg : SerialConfig) (b : Byte) (r : Receiver) : Prop where
  state : r.rx_state = .idle
  rx_valid : r.rx_valid = true
  rx_data : r.rx_data = lowBits b cfg.bits
  parity_error : r.parity_error_pulse = false
  frame_error : r.frame_error_pulse = false
  break_error : r.break_error_pulse = false

section Receive
variable {cfg : SerialConfig} {b : Byte} {R : ℕ} {r : Receiver} {i : SerialInput}

/-- An idle receiver on a high line. -/
theorem rx_idle (hi : i.Running) (hr : r.rx_state = .idle) (tick : Bool) :
    (r.clock cfg tick true i).rx_state = .idle ∧ (r.clock cfg tick true i).Silent := by
  simp only [Receiver.clock, hi.1, hi.2, hr]
  exact ⟨by simp, by constructor <;> simp⟩

/-- A low line begins a frame. -/
theorem rx_detect (hc : cfg.Valid) (hi : i.Running) (hr : r.rx_state = .idle) (tick : Bool) :
    RxAt cfg b 0 (r.clock cfg tick false i) ∧ (r.clock cfg tick false i).Silent := by
  have hframe := hc.frameBits_le
  have hnext : r.clock cfg tick false i =
      { r with
        rx_valid := false
        parity_error_pulse := false
        frame_error_pulse := false
        break_error_pulse := false
        rx_state := .start
        rx_tick_count := 0
        rx_all_low := true } := by
    simp [Receiver.clock, hi.1, hi.2, hr]
  rw [hnext]
  refine ⟨⟨by omega, rfl, rfl, ?_, ?_, ?_⟩, ⟨rfl, rfl, rfl, rfl⟩⟩
  all_goals exact fun h => absurd h (by decide)

/-- Without a tick the receiver waits. -/
theorem RxAt.hold (h : RxAt cfg b R r) (hi : i.Running) (selected : Bool) :
    RxAt cfg b R (r.clock cfg false selected i) ∧ (r.clock cfg false selected i).Silent := by
  have hne : r.rx_state ≠ .idle := by rw [h.state]; exact stage_ne_idle _
  have hnext : r.clock cfg false selected i =
      { r with
        rx_valid := false
        parity_error_pulse := false
        frame_error_pulse := false
        break_error_pulse := false } := by
    simp [Receiver.clock, hi.1, hi.2, hne]
  rw [hnext]
  exact ⟨⟨h.lt, h.state, h.count, h.index, h.shift, h.parity⟩, ⟨rfl, rfl, rfl, rfl⟩⟩

/-- The registers before a tick, with the pulses cleared and `rx_all_low` taken. -/
def Receiver.cleared (r : Receiver) (selected : Bool) : Receiver :=
  { r with
    rx_valid := false
    parity_error_pulse := false
    frame_error_pulse := false
    break_error_pulse := false
    rx_all_low := r.rx_all_low && !selected }

theorem RxAt.clock_tick (h : RxAt cfg b R r) (hi : i.Running) (selected : Bool) :
    r.clock cfg true selected i =
      if r.rx_tick_count == r.sampleTick then r.sample cfg selected (r.cleared selected)
      else { r.cleared selected with rx_tick_count := r.rx_tick_count + 1 } := by
  have hne : r.rx_state ≠ .idle := by rw [h.state]; exact stage_ne_idle _
  simp [Receiver.clock, Receiver.cleared, hi.1, hi.2, hne]

/-- The bit is sampled in its middle. -/
theorem RxAt.sampleTick_iff (h : RxAt cfg b R r) :
    (r.rx_tick_count == r.sampleTick) = true ↔ (R + 9) % 16 = 0 := by
  have hstart : r.rx_state = .start ↔ R < 8 := by
    rw [h.state]
    constructor
    · intro hs
      by_contra hge
      unfold stage at hs
      rw [if_neg (by omega)] at hs
      split at hs
      · cases hs
      · split at hs
        · cases hs
        · split at hs <;> cases hs
    · intro hlt
      rw [show (R + 8) / 16 = 0 by omega]
      rfl
  rw [beq_iff_eq, h.count, Receiver.sampleTick]
  by_cases hlt : R < 8
  · rw [if_pos hlt, if_pos (by simpa using hstart.mpr hlt), sampleMid, ← BitVec.toNat_inj,
      BitVec.toNat_ofNat, BitVec.toNat_ofNat]
    omega
  · have hne : r.rx_state ≠ .start := fun hs => hlt (hstart.mp hs)
    rw [if_neg hlt, if_neg (by simpa using hne), sampleLast, ← BitVec.toNat_inj,
      BitVec.toNat_ofNat, BitVec.toNat_ofNat]
    omega

/-- A tick between two samples. -/
theorem RxAt.tick (h : RxAt cfg b R r) (hi : i.Running) (selected : Bool)
    (hR : (R + 9) % 16 ≠ 0) :
    RxAt cfg b (R + 1) (r.clock cfg true selected i) ∧
      (r.clock cfg true selected i).Silent := by
  have hno : ¬ (r.rx_tick_count == r.sampleTick) = true := fun hs => hR (h.sampleTick_iff.mp hs)
  have hlt := h.lt
  have hdiv : (R + 1 + 8) / 16 = (R + 8) / 16 := by omega
  have hcount := h.count
  rw [h.clock_tick hi, if_neg hno]
  refine ⟨⟨by omega, ?_, ?_, ?_, ?_, ?_⟩, ⟨rfl, rfl, rfl, rfl⟩⟩
  · rw [hdiv]
    exact h.state
  · show r.rx_tick_count + 1 = _
    rw [hcount]
    by_cases hlow : R < 8
    · rw [if_pos hlow, if_pos (by omega), BitVec.ofNat_add]
      rfl
    · rw [if_neg hlow, if_neg (by omega), show (R + 1 + 8) % 16 = (R + 8) % 16 + 1 by omega,
        BitVec.ofNat_add]
      rfl
  all_goals
    intro h8
    rw [hdiv]
  · exact h.index (by omega)
  · exact h.shift (by omega)
  · exact h.parity (by omega)

theorem stage_pos_lt {m : ℕ} (hm : m + 1 < cfg.frameBits) :
    cfg.stage m ≠ .stop1 ∨ cfg.two_stop_bits = true := by
  cases htwo : cfg.two_stop_bits with
  | true => exact .inr rfl
  | false =>
    left
    intro hs
    simp only [frameBits, htwo, Bool.toNat_false] at hm
    unfold stage at hs
    split at hs
    · cases hs
    · split at hs
      · cases hs
      · split at hs
        · cases hs
        · split at hs
          · omega
          · cases hs

/-- The registers at the tick that samples bit `m`, not the start bit. -/
theorem RxAt.sampled {m : ℕ} (h : RxAt cfg b (16 * m + 7) r) (hm : 0 < m) :
    r.rx_state = cfg.stage m ∧
      r.rx_bit_index = BitVec.ofNat 3 (min (m - 1) (cfg.bits - 1)) ∧
      r.rx_shift = lowBits b (min (m - 1) cfg.bits) ∧
      r.rx_parity = prefixParity b (min (m - 1) cfg.bits) := by
  have hdiv : (16 * m + 7 + 8) / 16 = m := by omega
  have hstate := h.state
  have hindex := h.index (by omega)
  have hshift := h.shift (by omega)
  have hparity := h.parity (by omega)
  rw [hdiv] at hstate hindex hshift hparity
  exact ⟨hstate, hindex, hshift, hparity⟩

/-- What the sample of bit `m` leaves: the stage of bit `m + 1`, its first tick. -/
theorem RxAt.of_next {m : ℕ} (hm : m + 1 < cfg.frameBits) (hs : r.rx_state = cfg.stage (m + 1))
    (ht : r.rx_tick_count = 0) (hi : r.rx_bit_index = BitVec.ofNat 3 (min m (cfg.bits - 1)))
    (hsh : r.rx_shift = lowBits b (min m cfg.bits))
    (hp : r.rx_parity = prefixParity b (min m cfg.bits)) : RxAt cfg b (16 * m + 8) r := by
  have hdiv : (16 * m + 8 + 8) / 16 = m + 1 := by omega
  have hcount : (if 16 * m + 8 < 8 then 16 * m + 8 else (16 * m + 8 + 8) % 16) = 0 := by
    rw [if_neg (by omega)]
    omega
  refine ⟨by omega, by rw [hdiv, hs], ?_, fun _ => ?_, fun _ => ?_, fun _ => ?_⟩
  · rw [hcount, ht]
    rfl
  · rw [hdiv, Nat.add_sub_cancel, hi]
  · rw [hdiv, Nat.add_sub_cancel, hsh]
  · rw [hdiv, Nat.add_sub_cancel, hp]

/-- The start bit is low. -/
theorem RxAt.sample_start (hc : cfg.Valid) (h : RxAt cfg b (16 * 0 + 7) r)
    (hm : 0 + 1 < cfg.frameBits) :
    RxAt cfg b (16 * 0 + 8) (r.sample cfg (cfg.level b 0) (r.cleared (cfg.level b 0))) ∧
      (r.sample cfg (cfg.level b 0) (r.cleared (cfg.level b 0))).Silent := by
  obtain ⟨hbits, -⟩ := hc.bits_bounds
  have hs : r.rx_state = .start := h.state
  rw [level_start]
  simp only [Receiver.sample, hs]
  refine ⟨.of_next hm (stage_data (by omega) (by omega)).symm rfl ?_ ?_ ?_, ⟨rfl, rfl, rfl, rfl⟩⟩
  · simp
  · simp [lowBits]
  · simp [prefixParity]

/-- A data bit, not the last one, is shifted in. -/
theorem RxAt.sample_data (hc : cfg.Valid) {j : ℕ} (h : RxAt cfg b (16 * (j + 1) + 7) r)
    (hm : j + 1 + 1 < cfg.frameBits) (hj : j + 1 < cfg.bits) :
    RxAt cfg b (16 * (j + 1) + 8)
        (r.sample cfg (cfg.level b (j + 1)) (r.cleared (cfg.level b (j + 1)))) ∧
      (r.sample cfg (cfg.level b (j + 1)) (r.cleared (cfg.level b (j + 1)))).Silent := by
  obtain ⟨-, hbits⟩ := hc.bits_bounds
  obtain ⟨hstate, hindex, hshift, hparity⟩ := h.sampled j.succ_pos
  rw [Nat.add_sub_cancel, min_eq_left (by omega)] at hindex hshift hparity
  have hlast : cfg.lastBit (BitVec.ofNat 3 j) = false := by
    rw [← Bool.not_eq_true, hc.lastBit_iff (by omega)]
    omega
  have hs : r.rx_state = .data := hstate.trans (stage_data j.succ_pos hj.le)
  simp only [level_data (b := b) (show j < cfg.bits by omega), Receiver.sample, hs, hindex, hshift,
    hparity, hlast, lowBits_succ b (show j < 8 by omega)]
  refine ⟨.of_next hm (hs.trans (stage_data (by omega) hj).symm) rfl ?_ ?_ ?_,
    ⟨rfl, rfl, rfl, rfl⟩⟩
  · rw [min_eq_left (by omega), BitVec.ofNat_add]
    rfl
  · rw [min_eq_left hj.le]
    rfl
  · rw [min_eq_left hj.le]
    rfl

/-- The last data bit is shifted in, and the parity or the first stop bit awaited. -/
theorem RxAt.sample_lastData (hc : cfg.Valid) {j : ℕ} (h : RxAt cfg b (16 * (j + 1) + 7) r)
    (hm : j + 1 + 1 < cfg.frameBits) (hj : j + 1 = cfg.bits) :
    RxAt cfg b (16 * (j + 1) + 8)
        (r.sample cfg (cfg.level b (j + 1)) (r.cleared (cfg.level b (j + 1)))) ∧
      (r.sample cfg (cfg.level b (j + 1)) (r.cleared (cfg.level b (j + 1)))).Silent := by
  obtain ⟨-, hbits⟩ := hc.bits_bounds
  obtain ⟨hstate, hindex, hshift, hparity⟩ := h.sampled j.succ_pos
  rw [Nat.add_sub_cancel, min_eq_left (by omega)] at hindex hshift hparity
  have hlast : cfg.lastBit (BitVec.ofNat 3 j) = true := by
    rw [hc.lastBit_iff (by omega)]
    exact hj
  have hs : r.rx_state = .data := hstate.trans (stage_data j.succ_pos hj.le)
  have hnext : (if cfg.parityEnabled = true then LineState.parity else .stop1) =
      cfg.stage (j + 1 + 1) := by
    cases hp : cfg.parityEnabled with
    | true => rw [hj, stage_parity hp]; rfl
    | false => rw [stage_stop1 (by rw [hp, Bool.toNat_false]; omega)]; rfl
  simp only [level_data (b := b) (show j < cfg.bits by omega), Receiver.sample, hs, hindex, hshift,
    hparity, hlast, lowBits_succ b (show j < 8 by omega)]
  refine ⟨.of_next hm hnext rfl ?_ ?_ ?_, ⟨rfl, rfl, rfl, rfl⟩⟩
  · rw [min_eq_right (by omega), show cfg.bits - 1 = j by omega]
    exact hindex
  · rw [min_eq_left hj.le]
    rfl
  · rw [min_eq_left hj.le]
    rfl

/-- The parity bit is the one expected. -/
theorem RxAt.sample_parity (hc : cfg.Valid) (hp : cfg.parityEnabled = true)
    (h : RxAt cfg b (16 * (cfg.bits + 1) + 7) r) (hm : cfg.bits + 1 + 1 < cfg.frameBits) :
    RxAt cfg b (16 * (cfg.bits + 1) + 8)
        (r.sample cfg (cfg.level b (cfg.bits + 1)) (r.cleared (cfg.level b (cfg.bits + 1)))) ∧
      (r.sample cfg (cfg.level b (cfg.bits + 1))
        (r.cleared (cfg.level b (cfg.bits + 1)))).Silent := by
  obtain ⟨hbits, -⟩ := hc.bits_bounds
  obtain ⟨hstate, hindex, hshift, hparity⟩ := h.sampled cfg.bits.succ_pos
  rw [Nat.add_sub_cancel, min_eq_right (by omega)] at hindex
  rw [Nat.add_sub_cancel, min_self] at hshift hparity
  have hs : r.rx_state = .parity := hstate.trans (stage_parity hp)
  rw [level_parity b hp]
  simp only [Receiver.sample, hs]
  refine ⟨.of_next hm (stage_stop1 (by simp [hp])).symm rfl ?_ ?_ ?_, ⟨rfl, ?_, rfl, rfl⟩⟩
  · rw [min_eq_right (by omega)]
    exact hindex
  · rw [min_eq_right (by omega)]
    exact hshift
  · rw [min_eq_right (by omega)]
    exact hparity
  · simp [hparity]

/-- The first of two stop bits is high. -/
theorem RxAt.sample_stop1 (hc : cfg.Valid) {m : ℕ} (h : RxAt cfg b (16 * m + 7) r)
    (hm : m + 1 < cfg.frameBits) (hstop : m = cfg.bits + cfg.parityEnabled.toNat + 1) :
    RxAt cfg b (16 * m + 8) (r.sample cfg (cfg.level b m) (r.cleared (cfg.level b m))) ∧
      (r.sample cfg (cfg.level b m) (r.cleared (cfg.level b m))).Silent := by
  obtain ⟨hbits, -⟩ := hc.bits_bounds
  have htwo : cfg.two_stop_bits = true :=
    (stage_pos_lt hm).resolve_left fun hne => hne (stage_stop1 hstop)
  obtain ⟨hstate, hindex, hshift, hparity⟩ := h.sampled (by omega)
  rw [min_eq_right (by omega)] at hindex hshift hparity
  have hs : r.rx_state = .stop1 := hstate.trans (stage_stop1 hstop)
  rw [show cfg.level b m = true from level_stop b (by omega)]
  simp only [Receiver.sample, hs, htwo]
  refine ⟨.of_next hm (stage_stop2 (by omega)).symm rfl ?_ ?_ ?_, ⟨rfl, rfl, rfl, rfl⟩⟩
  · rw [min_eq_right (by omega)]
    exact hindex
  · rw [min_eq_right (by omega)]
    exact hshift
  · rw [min_eq_right (by omega)]
    exact hparity

/-- A bit before the last one is sampled at its level. -/
theorem RxAt.sample_next (hc : cfg.Valid) {m : ℕ} (h : RxAt cfg b (16 * m + 7) r)
    (hm : m + 1 < cfg.frameBits) :
    RxAt cfg b (16 * m + 8) (r.sample cfg (cfg.level b m) (r.cleared (cfg.level b m))) ∧
      (r.sample cfg (cfg.level b m) (r.cleared (cfg.level b m))).Silent := by
  rcases bit_cases (Nat.lt_of_succ_lt hm) with
    rfl | ⟨hm0, hmb⟩ | hmb | ⟨rfl, hp⟩ | hstop | ⟨hstop, htwo⟩
  · exact h.sample_start hc hm
  · obtain ⟨j, rfl⟩ := Nat.exists_eq_succ_of_ne_zero hm0.ne'
    exact h.sample_data hc hm hmb
  · obtain ⟨hbits, -⟩ := hc.bits_bounds
    obtain ⟨j, rfl⟩ := Nat.exists_eq_succ_of_ne_zero (show m ≠ 0 by omega)
    exact h.sample_lastData hc hm hmb
  · exact h.sample_parity hc hp hm
  · exact h.sample_stop1 hc hm hstop
  · -- the second stop bit is the last bit of the frame
    simp only [frameBits, htwo, Bool.toNat_true] at hm
    omega

/-- The last bit is sampled, and the byte delivered. -/
theorem RxAt.sample_last (hc : cfg.Valid) {m : ℕ} (h : RxAt cfg b (16 * m + 7) r)
    (hm : m + 1 = cfg.frameBits) :
    Delivers cfg b (r.sample cfg (cfg.level b m) (r.cleared (cfg.level b m))) := by
  obtain ⟨hbits, hbits'⟩ := hc.bits_bounds
  have hstate := h.state
  have hshift := h.shift
  rw [show (16 * m + 7 + 8) / 16 = m by omega] at hstate hshift
  simp only [frameBits] at hm
  have hp := Bool.toNat_le cfg.parityEnabled
  have hsh := hshift (by omega)
  rw [min_eq_right (by omega)] at hsh
  rw [show cfg.level b m = true from level_stop b (by omega)]
  cases htwo : cfg.two_stop_bits with
  | true =>
    rw [htwo, Bool.toNat_true] at hm
    have hs : r.rx_state = .stop2 := by rw [hstate]; exact stage_stop2 (by omega)
    simp only [Receiver.sample, hs]
    exact ⟨rfl, rfl, hsh, rfl, rfl, rfl⟩
  | false =>
    rw [htwo, Bool.toNat_false] at hm
    have hs : r.rx_state = .stop1 := by rw [hstate]; exact stage_stop1 (by omega)
    simp only [Receiver.sample, hs, htwo]
    exact ⟨rfl, rfl, hsh, rfl, rfl, rfl⟩

end Receive
end Atoman.UartDma
