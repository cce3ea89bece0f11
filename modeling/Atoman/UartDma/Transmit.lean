import Atoman.UartDma.Receive
import Atoman.UartDma.SerialCore

/-!
# The transmit path sends every byte once

The peripheral is wired to its serial core and reads a memory that software writes. Beside it
stand the bytes software has handed over, and those the FIFO and the transmitter have taken. A
read takes its byte from the memory at any time between its request and its response.
-/

namespace Atoman.UartDma
open Lib

/-- The transmitter loads a byte with this clock. -/
def Transmitter.accepts (t : Transmitter) (i : SerialInput) : Bool :=
  !(i.clear || !i.enable) && t.tx_state == .idle && i.tx_valid

theorem Transmitter.clock_accepts {t : Transmitter} {i : SerialInput} (cfg : SerialConfig)
    (tick : Bool) (h : t.accepts i = true) :
    (t.clock cfg tick i).tx_state = .start ∧ (t.clock cfg tick i).tx_shift = i.tx_data := by
  simp only [accepts, Bool.and_eq_true, Bool.not_eq_true', beq_iff_eq] at h
  obtain ⟨⟨hrun, hidle⟩, hvalid⟩ := h
  simp [clock, hrun, hidle, hvalid]

/-- What is driven from outside in one clock; the serial core drives the rest. -/
structure TxInput where
  axi : Input := {}
  uart_rxd : Bool := true
  /-- the memory after the clock -/
  memory : BitVec 32 → Byte

structure TxSession where
  state : State
  serial : SerialCore
  memory : BitVec 32 → Byte
  /-- the memories since the read in progress was begun -/
  seen : List (BitVec 32 → Byte)
  /-- the bytes software has handed over, by their positions from zero on -/
  offered : List Byte
  /-- how many of them were read -/
  fetched : ℕ
  /-- the bytes the FIFO has taken -/
  pushed : List Byte
  /-- the bytes the transmitter has taken -/
  sent : List Byte

namespace TxSession
variable (x : TxSession) (i : TxInput)

def serialConfig : SerialConfig where
  baud_increment := x.state.control.baud_increment
  data_bits := x.state.control.uart_config.extractLsb' 0 4
  parity_mode := x.state.control.uart_config.extractLsb' 4 2
  two_stop_bits := x.state.control.uart_config.getLsbD 6
  internal_loopback := x.state.control.internal_loopback

def serialInput : SerialInput where
  clear := x.state.control.soft_reset_pulse
  enable := x.state.control.uart_enable
  uart_rxd := i.uart_rxd
  tx_data := x.state.tx_fifo.popData
  tx_valid := !x.state.tx_fifo.empty

/-- The inputs of the peripheral with the outputs of the serial core. -/
def wired : Input :=
  { i.axi with serial :=
    { rx_data := x.serial.rx.rx_data
      rx_valid := x.serial.rx.rx_valid
      parity_error := x.serial.rx.parity_error_pulse
      frame_error := x.serial.rx.frame_error_pulse
      break_error := x.serial.rx.break_error_pulse
      tx_ready := x.serial.txReady (x.serialInput i)
      tx_busy := x.serial.tx.tx_state != .idle } }

/-- The address of ring position `k`. -/
def position (k : ℕ) : BitVec 32 :=
  ringAddress x.state.control.tx_ring_base x.state.control.tx_ring_size (BitVec.ofNat 32 k)

/-- What software adds to `tx_produced`. -/
def handed : ℕ := (x.state.controlNext.tx_produced - x.state.control.tx_produced).toNat

/-- A good beat is taken. -/
def fetches : Bool := x.state.txResponds (x.wired i) && State.readOkay (x.wired i)

/-- The FIFO takes the byte that is pushed. -/
def pushes : Bool :=
  x.state.tx_fifo.pushAccept x.state.tx.tx_fifo_push (x.state.txFifoPop (x.wired i))

/-- The transmitter takes a byte. -/
def loads : Bool := x.serial.tx.accepts (x.serialInput i)

def clock : TxSession where
  state := x.state.clock (x.wired i)
  serial := x.serial.clock x.serialConfig (x.serialInput i)
  memory := i.memory
  seen := (if x.state.tx.tx_read_active then x.seen else []) ++ [i.memory]
  offered := x.offered ++
    (List.range x.handed).map fun k => x.memory (x.position (x.offered.length + k))
  fetched := if x.fetches i then x.fetched + 1 else x.fetched
  pushed := x.pushed ++ if x.pushes i then [x.state.tx.tx_fifo_push_data] else []
  sent := x.sent ++ if x.loads i then [(x.serialInput i).tx_data] else []

/-- Out of hardware reset. -/
structure Start : Prop where
  state : ∃ rxMemory txMemory, x.state = .reset rxMemory txMemory
  serial : x.serial.tx = {}
  seen : x.seen = []
  offered : x.offered = []
  fetched : x.fetched = 0
  pushed : x.pushed = []
  sent : x.sent = []

/-- The environment: no soft reset, no disable; software hands over bytes while the peripheral is
enabled and the ring has room for them, and leaves them alone until they are read; the reads are
answered OKAY, each byte of the word as the memory had it at some time since the request. -/
structure Runs : Prop where
  no_reset : x.state.resetRequest = false
  no_disable : x.state.control.uart_enable = true → x.state.disableRequest = false
  produced : x.state.commits 0x0A#6 = true → x.state.control.uart_enable = true ∧
    (x.state.written x.state.control.tx_produced - x.state.control.tx_produced).toNat ≤
      x.state.control.tx_ring_size.toNat -
        (x.state.control.tx_produced - x.state.tx.tx_consumed).toNat
  kept : ∀ k, x.fetched ≤ k → k < (x.clock i).offered.length →
    i.memory (x.position k) = x.memory (x.position k)
  okay : x.state.txResponds (x.wired i) = true → State.readOkay (x.wired i) = true
  data : x.state.txResponds (x.wired i) = true →
    ∀ a, a &&& 0xFFFFFFFC = x.state.tx.tx_read_address → ∃ m ∈ x.seen,
      i.axi.m_axi_rdata.extractLsb' (8 * (a &&& 3).toNat) 8 = m a

/-- The byte in the push register. -/
def pushing : List Byte := if x.state.tx.tx_fifo_push then [x.state.tx.tx_fifo_push_data] else []

/-- **The transmit path.** -/
structure ExactlyOnce : Prop where
  /-- the bytes pushed, and the one about to be pushed, are those of the first ring positions -/
  pushed : x.pushed ++ x.pushing = x.offered.take x.fetched
  consumed : x.state.tx.tx_consumed = BitVec.ofNat 32 x.fetched
  fetched_le : x.fetched ≤ x.offered.length
  produced : x.state.control.tx_produced = BitVec.ofNat 32 x.offered.length
  /-- what is not read yet stands at its position -/
  unread : ∀ k (h : k < x.offered.length), x.fetched ≤ k → x.memory (x.position k) = x.offered[k]
  /-- no push is refused -/
  accepted : x.state.tx.tx_fifo_push = true → ∀ pop, x.state.tx_fifo.pushAccept true pop = true
  /-- what was pushed was sent, or it waits in the FIFO -/
  queue : ∃ waiting, x.state.tx_fifo.Holds waiting ∧ x.pushed = x.sent ++ waiting
  /-- the FIFO pops a byte with the clock in which the transmitter loads it -/
  popped : ∀ i, x.state.txFifoPop (x.wired i) = x.loads i
  loaded : ∀ i, x.loads i = true → (x.clock i).serial.tx.tx_state = .start ∧
    (x.clock i).serial.tx.tx_shift = x.state.tx_fifo.popData

end TxSession

/-- Runs from hardware reset. -/
def transmitting : Transition TxSession := .driven TxSession.Start TxSession.clock TxSession.Runs

/-! ## The invariant -/

namespace TxSession

/-- The invariant of a run. -/
structure Sound (x : TxSession) : Prop where
  quiet : x.state.control.soft_reset_pulse = false
  disabled : x.state.control.uart_enable = false →
    x.offered = [] ∧ x.state.tx.tx_read_active = false
  size : x.state.control.uart_enable = true → ringSizeValid x.state.control.tx_ring_size = true
  room : x.state.control.uart_enable = true →
    x.offered.length ≤ x.fetched + x.state.control.tx_ring_size.toNat
  pushed : x.pushed ++ x.pushing = x.offered.take x.fetched
  consumed : x.state.tx.tx_consumed = BitVec.ofNat 32 x.fetched
  fetched_le : x.fetched ≤ x.offered.length
  produced : x.state.control.tx_produced = BitVec.ofNat 32 x.offered.length
  unread : ∀ k (h : k < x.offered.length), x.fetched ≤ k → x.memory (x.position k) = x.offered[k]
  /-- with a read in progress or a byte in the push register the FIFO has room -/
  queue : ∃ waiting, x.state.tx_fifo.Holds waiting ∧ x.pushed = x.sent ++ waiting ∧
    (x.state.tx.tx_read_active = true ∨ x.state.tx.tx_fifo_push = true → waiting.length ≤ 15)
  /-- the read in progress is for the next position -/
  active : x.state.tx.tx_read_active = true → x.state.tx.tx_fifo_push = false ∧
    x.state.tx.tx_read_address = x.position x.fetched &&& 0xFFFFFFFC ∧
    x.state.tx.tx_read_lane = (x.position x.fetched).extractLsb' 0 2 ∧
    ∃ h : x.fetched < x.offered.length,
      ∀ m ∈ x.seen, m (x.position x.fetched) = x.offered[x.fetched]

variable {x : TxSession} {i : TxInput}

theorem Start.sound (h : Start x) : Sound x := by
  obtain ⟨rxMemory, txMemory, hstate⟩ := h.state
  have hoffered := h.offered
  refine ⟨?_, ?_, ?_, ?_, ?_, ?_, ?_, ?_, ?_, ⟨[], ?_, ?_, ?_⟩, ?_⟩
  · rw [hstate]; rfl
  · rw [hstate]
    exact fun _ => ⟨hoffered, rfl⟩
  · rw [hstate]
    exact nofun
  · simp [hoffered]
  · have hpushing : x.pushing = [] := by rw [pushing, hstate]; rfl
    rw [h.pushed, hpushing, hoffered]
    simp
  · rw [hstate, h.fetched]; rfl
  · simp [h.fetched]
  · rw [hstate, hoffered]; rfl
  · simp [hoffered]
  · rw [hstate]
    exact SyncFifo.holds_clear (f := ⟨txMemory, 0, 0, 0⟩)
  · rw [h.pushed, h.sent]
    rfl
  · simp
  · rw [hstate]
    exact nofun

/-! ### The serial core takes what the FIFO pops -/

theorem popped (hquiet : x.state.control.soft_reset_pulse = false) (i : TxInput) :
    x.state.txFifoPop (x.wired i) = x.loads i := by
  simp only [State.txFifoPop, wired, loads, Transmitter.accepts, SerialCore.txReady, serialInput,
    hquiet, Bool.false_or, Bool.not_not]

theorem loaded (h : x.loads i = true) : (x.clock i).serial.tx.tx_state = .start ∧
    (x.clock i).serial.tx.tx_shift = x.state.tx_fifo.popData :=
  Transmitter.clock_accepts _ _ h

/-! ### What software hands over -/

theorem controlNext_produced {s : State} (hp : s.control.soft_reset_pulse = false) :
    s.controlNext.tx_produced =
      if s.commits 0x0A#6 then s.written s.control.tx_produced else s.control.tx_produced := by
  have hwrite := State.registerWrite_produced (s := s) { s.control with soft_reset_pulse := false }
  by_cases hc : s.liteWriteCommit = true
  · simp [State.controlNext, State.commits, hp, hc, hwrite]
  · simp [State.controlNext, State.commits, hp, hc]

namespace Sound

/-- What is handed over and not read. -/
theorem outstanding (h : Sound x) (he : x.state.control.uart_enable = true) :
    (x.state.control.tx_produced - x.state.tx.tx_consumed).toNat =
      x.offered.length - x.fetched := by
  obtain ⟨-, hsize, -⟩ := ringSize_pow (h.size he)
  have hroom := h.room he
  have hle := h.fetched_le
  have hsum : x.state.control.tx_produced =
      BitVec.ofNat 32 (x.offered.length - x.fetched) + x.state.tx.tx_consumed := by
    rw [h.produced, h.consumed, ← BitVec.ofNat_add, Nat.sub_add_cancel hle]
  rw [hsum, BitVec.add_sub_cancel, BitVec.toNat_ofNat, Nat.mod_eq_of_lt (by omega)]

/-- Before the peripheral is enabled nothing is handed over, then no more than there is room. -/
theorem handed_le (h : Sound x) (hr : x.Runs i) : (x.handed = 0 ∨
    x.state.control.uart_enable = true) ∧ (x.state.control.uart_enable = true →
      x.offered.length + x.handed ≤ x.fetched + x.state.control.tx_ring_size.toNat) := by
  have hproduced := hr.produced
  rw [handed, controlNext_produced h.quiet]
  cases hc : x.state.commits 0x0A#6 with
  | false =>
    refine ⟨.inl (by simp), fun he => ?_⟩
    have := h.room he
    simpa using this
  | true =>
    obtain ⟨he, hle⟩ := hproduced hc
    refine ⟨.inr he, fun _ => ?_⟩
    rw [h.outstanding he] at hle
    have := h.room he
    have := h.fetched_le
    simp only [if_true]
    omega

theorem produced_next (h : Sound x) (i : TxInput) :
    (x.clock i).state.control.tx_produced = BitVec.ofNat 32 (x.clock i).offered.length := by
  have hlen : (x.clock i).offered.length = x.offered.length + x.handed := by simp [TxSession.clock]
  rw [hlen, BitVec.ofNat_add, ← h.produced, handed, BitVec.ofNat_toNat, BitVec.setWidth_eq,
    BitVec.add_comm, BitVec.sub_add_cancel]
  rfl

/-- The positions stay while the peripheral is enabled. -/
theorem position_next (he : x.state.control.uart_enable = true) (i : TxInput) (k : ℕ) :
    (x.clock i).position k = x.position k := by
  obtain ⟨-, hbase, hsize⟩ := controlNext_ring he
  show ringAddress x.state.controlNext.tx_ring_base x.state.controlNext.tx_ring_size _ = _
  rw [hbase, hsize]
  rfl

theorem fetched_mono (x : TxSession) (i : TxInput) : x.fetched ≤ (x.clock i).fetched := by
  simp only [TxSession.clock]
  split <;> omega

theorem unread_next (h : Sound x) (hr : x.Runs i) (k : ℕ) (hk : k < (x.clock i).offered.length)
    (hle : x.fetched ≤ k) :
    (x.clock i).memory ((x.clock i).position k) = (x.clock i).offered[k] := by
  have hlen : (x.clock i).offered.length = x.offered.length + x.handed := by simp [TxSession.clock]
  have he : x.state.control.uart_enable = true := by
    rcases (h.handed_le hr).1 with hnone | he
    · by_contra hoff
      have := (h.disabled (by simpa using hoff)).1
      rw [hlen, this, hnone] at hk
      exact Nat.not_lt_zero _ hk
    · exact he
  rw [position_next he]
  show i.memory (x.position k) = _
  rw [hr.kept k hle hk]
  simp only [TxSession.clock]
  rcases Nat.lt_or_ge k x.offered.length with hold | hnew
  · rw [List.getElem_append_left hold]
    exact h.unread k hold hle
  · rw [List.getElem_append_right hnew, List.getElem_map, List.getElem_range,
      Nat.add_sub_cancel' hnew]

/-! ### The FIFO -/

theorem accepted (h : Sound x) (hpush : x.state.tx.tx_fifo_push = true) (pop : Bool) :
    x.state.tx_fifo.pushAccept true pop = true := by
  obtain ⟨waiting, hholds, -, hroom⟩ := h.queue
  have := hroom (.inr hpush)
  exact (hholds.pushAccept_iff true pop).mpr ⟨rfl, .inl (by omega)⟩

theorem pushes_eq (h : Sound x) (i : TxInput) : x.pushes i = x.state.tx.tx_fifo_push := by
  cases hpush : x.state.tx.tx_fifo_push with
  | false => simp [pushes, SyncFifo.pushAccept, hpush]
  | true =>
    rw [pushes, hpush]
    exact h.accepted hpush _

/-- What was in the push register is pushed. -/
theorem pushed_next (h : Sound x) (i : TxInput) :
    (x.clock i).pushed = x.offered.take x.fetched := by
  rw [← h.pushed, pushing]
  simp only [TxSession.clock, h.pushes_eq]

/-- The FIFO and what was sent, after a clock. -/
theorem queue_next (h : Sound x) (i : TxInput) : ∃ waiting waiting', x.state.tx_fifo.Holds waiting ∧
    (x.clock i).state.tx_fifo.Holds waiting' ∧ (x.clock i).pushed = (x.clock i).sent ++ waiting' ∧
    waiting'.length ≤ waiting.length + (x.state.tx.tx_fifo_push).toNat ∧
    (x.state.tx.tx_read_active = true ∨ x.state.tx.tx_fifo_push = true → waiting.length ≤ 15) := by
  obtain ⟨waiting, hholds, hpushed, hroom⟩ := h.queue
  have hhead : (if x.loads i then [x.state.tx_fifo.popData] else []) ++
      (if x.loads i then waiting.tail else waiting) = waiting := by
    cases hpop : x.loads i with
    | false => rfl
    | true =>
      rw [← popped h.quiet i] at hpop
      cases waiting with
      | nil =>
        have hempty := hholds.empty_iff.mpr rfl
        simp [State.txFifoPop, hempty] at hpop
      | cons a rest =>
        show [x.state.tx_fifo.popData] ++ rest = a :: rest
        rw [hholds.popData]
        rfl
  refine ⟨waiting, (if x.loads i then waiting.tail else waiting) ++
    if x.pushes i then [x.state.tx.tx_fifo_push_data] else [], hholds, ?_, ?_, ?_, hroom⟩
  · show (x.state.tx_fifo.clock x.state.control.soft_reset_pulse _ _ _).Holds _
    rw [h.quiet, ← popped h.quiet i]
    exact hholds.clock _ _ _
  · show x.pushed ++ _ = (x.sent ++ if x.loads i then [x.state.tx_fifo.popData] else []) ++ (_ ++ _)
    rw [List.append_assoc x.sent, ← List.append_assoc (if x.loads i then _ else _), hhead, hpushed,
      List.append_assoc]
  · have htail : (if x.loads i then waiting.tail else waiting).length ≤ waiting.length := by
      split <;> simp
    have hone : (if x.pushes i then [x.state.tx.tx_fifo_push_data] else []).length =
        x.state.tx.tx_fifo_push.toNat := by
      rw [h.pushes_eq]
      cases x.state.tx.tx_fifo_push <;> rfl
    rw [List.length_append, hone]
    omega

/-! ### The read channel -/

/-- What the channel does with a clock. -/
inductive Channel (x : TxSession) (i : TxInput) : Prop
  | idle (fetches : x.fetches i = false)
      (next : x.state.txNext (x.wired i) = { x.state.tx with tx_fifo_push := false })
      (active : x.state.tx.tx_read_active = false)
  | issue (fetches : x.fetches i = false) (ready : x.state.txReady = true)
      (next : x.state.txNext (x.wired i) = { x.state.tx with
        tx_fifo_push := false
        tx_read_address := x.state.txAddress &&& 0xFFFFFFFC
        tx_read_lane := x.state.txAddress.extractLsb' 0 2
        tx_arvalid := true
        tx_read_active := true })
  | wait (fetches : x.fetches i = false) (active : x.state.tx.tx_read_active = true)
      (next : ∃ arvalid rready, x.state.txNext (x.wired i) = { x.state.tx with
        tx_fifo_push := false
        tx_arvalid := arvalid
        tx_rready := rready })
  | fetch (fetches : x.fetches i = true) (responds : x.state.txResponds (x.wired i) = true)
      (active : x.state.tx.tx_read_active = true)

theorem channel (h : Sound x) (hr : x.Runs i) : Channel x i := by
  cases hactive : x.state.tx.tx_read_active with
  | true =>
    cases hresponds : x.state.txResponds (x.wired i) with
    | true =>
      have hfetches : x.fetches i = true := by rw [fetches, hresponds, hr.okay hresponds]; rfl
      exact .fetch hfetches hresponds hactive
    | false =>
      exact .wait (by rw [fetches, hresponds]; rfl) hactive
        ⟨_, _, State.txNext_wait h.quiet hactive hresponds⟩
  | false =>
    have hfetches : x.fetches i = false := by simp [fetches, State.txResponds, hactive]
    cases hready : x.state.txReady with
    | true => exact .issue hfetches hready (State.txNext_issue h.quiet hready)
    | false => exact .idle hfetches (State.txNext_idle h.quiet hactive hready) hactive

theorem address_lane (a : BitVec 32) : (a &&& 3).toNat = (a.extractLsb' 0 2).toNat := by
  rw [BitVec.toNat_and, BitVec.extractLsb'_toNat]
  exact Nat.and_two_pow_sub_one_eq_mod a.toNat 2

/-- The byte of a good beat is that of the next position. -/
theorem fetched_data (h : Sound x) (hr : x.Runs i) (hactive : x.state.tx.tx_read_active = true)
    (hresponds : x.state.txResponds (x.wired i) = true) :
    ∃ hlt : x.fetched < x.offered.length,
      (x.state.txNext (x.wired i)).tx_fifo_push_data = x.offered[x.fetched] := by
  obtain ⟨-, haddress, hlane, hlt, hseen⟩ := h.active hactive
  obtain ⟨m, hm, hdata⟩ := hr.data hresponds (x.position x.fetched) haddress.symm
  refine ⟨hlt, ?_⟩
  rw [(State.txNext_okay h.quiet hresponds (hr.okay hresponds)).2.2, hlane, ← address_lane,
    ← hseen m hm]
  exact hdata

theorem consumed_next (h : Sound x) (hr : x.Runs i) :
    (x.clock i).state.tx.tx_consumed = BitVec.ofNat 32 (x.clock i).fetched := by
  have hconsumed := h.consumed
  show (x.state.txNext (x.wired i)).tx_consumed =
    BitVec.ofNat 32 (if x.fetches i then x.fetched + 1 else x.fetched)
  cases h.channel hr with
  | idle fetches next =>
    rw [next, fetches]
    exact hconsumed
  | issue fetches _ next =>
    rw [next, fetches]
    exact hconsumed
  | wait fetches _ next =>
    obtain ⟨_, _, next⟩ := next
    rw [next, fetches]
    exact hconsumed
  | fetch fetches responds =>
    rw [(State.txNext_okay h.quiet responds (hr.okay responds)).1, fetches, hconsumed,
      if_pos rfl, BitVec.ofNat_add]
    rfl

/-- The bytes pushed and the one in the push register, after a clock. -/
theorem pushing_next (h : Sound x) (hr : x.Runs i) : (x.clock i).fetched ≤ x.offered.length ∧
    (x.clock i).pushed ++ (x.clock i).pushing = x.offered.take (x.clock i).fetched := by
  rw [h.pushed_next]
  show (if x.fetches i then x.fetched + 1 else x.fetched) ≤ _ ∧
    _ ++ (if (x.state.txNext (x.wired i)).tx_fifo_push then
      [(x.state.txNext (x.wired i)).tx_fifo_push_data] else []) =
    x.offered.take (if x.fetches i then x.fetched + 1 else x.fetched)
  have hnone (hfetches : x.fetches i = false)
      (hpush : (x.state.txNext (x.wired i)).tx_fifo_push = false) :
      (if x.fetches i then x.fetched + 1 else x.fetched) ≤ x.offered.length ∧
      x.offered.take x.fetched ++ (if (x.state.txNext (x.wired i)).tx_fifo_push then
        [(x.state.txNext (x.wired i)).tx_fifo_push_data] else []) =
      x.offered.take (if x.fetches i then x.fetched + 1 else x.fetched) := by
    rw [hfetches, hpush]
    exact ⟨h.fetched_le, List.append_nil _⟩
  cases h.channel hr with
  | idle fetches next => exact hnone fetches (by rw [next])
  | issue fetches _ next => exact hnone fetches (by rw [next])
  | wait fetches _ next =>
    obtain ⟨_, _, next⟩ := next
    exact hnone fetches (by rw [next])
  | fetch fetches responds active =>
    obtain ⟨hlt, hdata⟩ := h.fetched_data hr active responds
    rw [(State.txNext_okay h.quiet responds (hr.okay responds)).2.1, fetches, hdata]
    exact ⟨hlt, (List.take_succ_eq_append_getElem hlt).symm⟩

/-- The FIFO has room for what comes. -/
theorem room_next (h : Sound x) (hr : x.Runs i) :
    ∃ waiting, (x.clock i).state.tx_fifo.Holds waiting ∧
    (x.clock i).pushed = (x.clock i).sent ++ waiting ∧
    ((x.clock i).state.tx.tx_read_active = true ∨ (x.clock i).state.tx.tx_fifo_push = true →
      waiting.length ≤ 15) := by
  obtain ⟨waiting, waiting', hholds, hholds', hpushed, hle, hroom⟩ := h.queue_next i
  refine ⟨waiting', hholds', hpushed, ?_⟩
  have hbusy (hactive : x.state.tx.tx_read_active = true) : waiting'.length ≤ 15 := by
    have := hroom (.inl hactive)
    rw [(h.active hactive).1] at hle
    exact hle.trans this
  show (x.state.txNext (x.wired i)).tx_read_active = true ∨ _ → _
  show _ ∨ (x.state.txNext (x.wired i)).tx_fifo_push = true → _
  cases h.channel hr with
  | idle _ next active => simp [next, active]
  | issue _ ready =>
    -- a read is begun with at most 14 bytes in the FIFO
    have hcount := (State.txReady_iff.mp ready).2.2.2.2
    rw [BitVec.lt_def, hholds.item_count] at hcount
    have hcount : waiting.length < 15 := hcount
    have : x.state.tx.tx_fifo_push.toNat ≤ 1 := Bool.toNat_le _
    exact fun _ => by omega
  | wait _ active => exact fun _ => hbusy active
  | fetch _ _ active => exact fun _ => hbusy active

/-- The byte at the next position, before and after a clock in which none is fetched. -/
theorem next_byte (h : Sound x) (hr : x.Runs i) (he : x.state.control.uart_enable = true)
    (hfetches : x.fetches i = false) (hlt : x.fetched < x.offered.length)
    (hseen : ∀ m ∈ (x.clock i).seen,
      m = i.memory ∨ m (x.position x.fetched) = x.offered[x.fetched]) :
    ∃ hlt : (x.clock i).fetched < (x.clock i).offered.length, ∀ m ∈ (x.clock i).seen,
      m (x.position x.fetched) = (x.clock i).offered[(x.clock i).fetched] := by
  have hlen : x.offered.length ≤ (x.clock i).offered.length := by simp [TxSession.clock]
  have hfetched : (x.clock i).fetched = x.fetched := by simp [TxSession.clock, hfetches]
  have hlt' : x.fetched < (x.clock i).offered.length := by omega
  have hunread := h.unread_next hr x.fetched hlt' (Nat.le_refl _)
  rw [position_next he] at hunread
  simp only [hfetched]
  refine ⟨hlt', fun m hm => ?_⟩
  rcases hseen m hm with rfl | hbyte
  · exact hunread
  · rw [hbyte]
    exact (List.getElem_append_left hlt).symm

/-- The read in progress after a clock. -/
theorem active_next (h : Sound x) (hr : x.Runs i)
    (hactive : (x.state.txNext (x.wired i)).tx_read_active = true) :
    x.state.control.uart_enable = true ∧ x.fetches i = false ∧
    (x.state.txNext (x.wired i)).tx_fifo_push = false ∧
    (x.state.txNext (x.wired i)).tx_read_address = x.position x.fetched &&& 0xFFFFFFFC ∧
    (x.state.txNext (x.wired i)).tx_read_lane = (x.position x.fetched).extractLsb' 0 2 ∧
    ∃ hlt : (x.clock i).fetched < (x.clock i).offered.length, ∀ m ∈ (x.clock i).seen,
      m (x.position x.fetched) = (x.clock i).offered[(x.clock i).fetched] := by
  cases h.channel hr with
  | idle _ next active =>
    rw [next] at hactive
    exact nomatch hactive.symm.trans active
  | fetch _ responds =>
    exact nomatch hactive.symm.trans (State.txNext_respond h.quiet responds).1
  | issue fetches ready next =>
    obtain ⟨he, -, hidle, hempty, -⟩ := State.txReady_iff.mp ready
    have hlt : x.fetched < x.offered.length := by
      refine Nat.lt_of_le_of_ne h.fetched_le fun heq => ?_
      rw [State.txRingEmpty, h.produced, h.consumed, heq, beq_self_eq_true] at hempty
      exact nomatch hempty
    have haddress : x.state.txAddress = x.position x.fetched := by
      rw [State.txAddress, h.consumed]
      rfl
    have hseen : ∀ m ∈ (x.clock i).seen, m = i.memory ∨
        m (x.position x.fetched) = x.offered[x.fetched] := by
      intro m hm
      simp only [TxSession.clock, hidle] at hm
      exact .inl (List.mem_singleton.mp hm)
    refine ⟨he, fetches, ?_, ?_, ?_, h.next_byte hr he fetches hlt hseen⟩
    all_goals rw [next]
    · rw [← haddress]
    · rw [← haddress]
  | wait fetches active next =>
    obtain ⟨_, _, next⟩ := next
    have he : x.state.control.uart_enable = true := by
      by_contra hoff
      exact nomatch active.symm.trans (h.disabled (by simpa using hoff)).2
    obtain ⟨-, haddress, hlane, hlt, hbytes⟩ := h.active active
    have hseen : ∀ m ∈ (x.clock i).seen, m = i.memory ∨
        m (x.position x.fetched) = x.offered[x.fetched] := by
      intro m hm
      simp only [TxSession.clock, active, if_true, List.mem_append, List.mem_singleton] at hm
      exact hm.symm.imp_right (hbytes m)
    refine ⟨he, fetches, ?_, ?_, ?_, h.next_byte hr he fetches hlt hseen⟩
    all_goals rw [next]
    · exact haddress
    · exact hlane

/-! ### One clock, and a run -/

theorem clock (h : Sound x) (hr : x.Runs i) : Sound (x.clock i) := by
  obtain ⟨hle, hpushed⟩ := h.pushing_next hr
  obtain ⟨hhanded, hroom⟩ := h.handed_le hr
  have hlen : (x.clock i).offered.length = x.offered.length + x.handed := by simp [TxSession.clock]
  have hmono := fetched_mono x i
  have hon : x.state.control.uart_enable = true → x.state.controlNext.uart_enable = true :=
    fun he => controlNext_enable he hr.no_reset (hr.no_disable he)
  have hoff : x.state.controlNext.uart_enable = false → x.state.control.uart_enable = false := by
    intro hnext
    by_contra he
    exact nomatch hnext.symm.trans (hon (by simpa using he))
  have hnothing (he : x.state.control.uart_enable = false) : (x.clock i).offered = [] := by
    rcases hhanded with hnone | hon
    · rw [← List.length_eq_zero_iff, hlen, hnone, (h.disabled he).1]
      rfl
    · exact nomatch hon.symm.trans he
  exact {
    quiet := by
      show x.state.controlNext.soft_reset_pulse = false
      rw [State.controlNext_pulse, hr.no_reset]
    disabled := fun hnext => by
      have he := hoff hnext
      refine ⟨hnothing he, ?_⟩
      rw [← Bool.not_eq_true]
      exact fun hactive => nomatch (h.active_next hr hactive).1.symm.trans he
    size := fun hnext => by
      show ringSizeValid x.state.controlNext.tx_ring_size = true
      cases he : x.state.control.uart_enable with
      | true =>
        rw [(controlNext_ring he).2.2]
        exact h.size he
      | false => exact (controlNext_enabled he hnext).2
    room := fun hnext => by
      show _ ≤ _ + x.state.controlNext.tx_ring_size.toNat
      cases he : x.state.control.uart_enable with
      | true =>
        rw [(controlNext_ring he).2.2, hlen]
        have := hroom he
        omega
      | false =>
        rw [hnothing he]
        exact Nat.zero_le _
    pushed := by
      rw [hpushed]
      exact (List.take_append_of_le_length hle).symm
    consumed := h.consumed_next hr
    fetched_le := by omega
    produced := h.produced_next i
    unread := fun k hk hkle => h.unread_next hr k hk (hmono.trans hkle)
    queue := h.room_next hr
    active := fun hactive => by
      obtain ⟨he, hfetches, hpush, haddress, hlane, hbytes⟩ := h.active_next hr hactive
      have hfetched : (x.clock i).fetched = x.fetched := by simp [TxSession.clock, hfetches]
      have hposition : (x.clock i).position (x.clock i).fetched = x.position x.fetched := by
        rw [position_next he, hfetched]
      rw [hposition]
      exact ⟨hpush, haddress, hlane, hbytes⟩ }

theorem of_reachable (h : transmitting.Reachable x) : Sound x :=
  h.driven_invariant (Q := Sound) (fun _ hs => hs.sound) fun _ _ hy hr => hy.clock hr

end Sound

/-- **Every byte is sent once, in order**, in every run. -/
theorem sends_exactly_once (h : transmitting.Reachable x) : x.ExactlyOnce := by
  have hs := Sound.of_reachable h
  obtain ⟨waiting, hholds, hpushed, -⟩ := hs.queue
  exact ⟨hs.pushed, hs.consumed, hs.fetched_le, hs.produced, hs.unread, hs.accepted,
    ⟨waiting, hholds, hpushed⟩, popped hs.quiet, fun _ => loaded⟩

/-! ### A run -/

/-- With a memory that always holds the same word, what is left of `Runs` to check. -/
def Checks (x : TxSession) (i : TxInput) : Prop :=
  x.state.resetRequest = false ∧
  (x.state.control.uart_enable = true → x.state.disableRequest = false) ∧
  (x.state.commits 0x0A#6 = true → x.state.control.uart_enable = true ∧
    (x.state.written x.state.control.tx_produced - x.state.control.tx_produced).toNat ≤
      x.state.control.tx_ring_size.toNat -
        (x.state.control.tx_produced - x.state.tx.tx_consumed).toNat) ∧
  (x.state.txResponds (x.wired i) = true → State.readOkay (x.wired i) = true ∧ x.seen ≠ [] ∧
    i.axi.m_axi_rdata = 0x44434241)

instance (x : TxSession) (i : TxInput) : Decidable (x.Checks i) :=
  inferInstanceAs (Decidable (_ ∧ _ ∧ _ ∧ (_ → _ ∧ _ ∧ _)))

/-- A memory with the bytes 0x41 to 0x44 in each word. -/
def words : BitVec 32 → Byte := fun a => 0x41 + (a &&& 3).setWidth 8

theorem Checks.runs (h : x.Checks i) (hi : i.memory = words) (hmemory : x.memory = words)
    (hseen : ∀ m ∈ x.seen, m = words) : x.Runs i := by
  obtain ⟨hreset, hdisable, hproduced, hresponse⟩ := h
  refine ⟨hreset, hdisable, hproduced, fun k _ _ => ?_, fun hn => (hresponse hn).1,
    fun hn a _ => ?_⟩
  · rw [hi, hmemory]
  · obtain ⟨-, hne, hdata⟩ := hresponse hn
    obtain ⟨m, hm⟩ := List.exists_mem_of_ne_nil _ hne
    refine ⟨m, hm, ?_⟩
    rw [hseen m hm, hdata, words]
    rcases lane_cases a with ha | ha | ha | ha <;> rw [ha] <;> rfl

theorem admits_of_checks {is : List TxInput} (h : Transition.Admits clock Checks x is)
    (his : ∀ i ∈ is, i.memory = words) (hmemory : x.memory = words)
    (hseen : ∀ m ∈ x.seen, m = words) :
    Transition.Admits clock Runs x is := by
  induction is generalizing x with
  | nil => trivial
  | cons i is ih =>
    have hi := his i List.mem_cons_self
    refine ⟨h.1.runs hi hmemory hseen, ih h.2 (fun j hj => his j (List.mem_cons_of_mem i hj)) hi ?_⟩
    intro m hm
    simp only [clock, List.mem_append, List.mem_singleton] at hm
    rcases hm with hm | hm
    · split at hm
      · exact hseen m hm
      · exact absurd hm List.not_mem_nil
    · rw [hm, hi]

def fresh : TxSession :=
  ⟨.reset (fun _ => 0) fun _ => 0, ⟨0, false, true, true, {}, {}⟩, words, [], [], 0, [], []⟩

theorem fresh_start : fresh.Start := ⟨⟨_, _, rfl⟩, rfl, rfl, rfl, rfl, rfl, rfl⟩

/-- A read is accepted and answered. -/
def readByte : List Input :=
  [.idle, .idle, { m_axi_arready := true },
    { m_axi_rvalid := true, m_axi_rlast := true, m_axi_rdata := 0x44434241 }]

/-- Two bytes are handed over and read; the second is sent once the frame of the first is over,
which takes 160 ticks. -/
def sendTwoBytes : List TxInput :=
  ([registerWrite 0x0C 0xFFFFFFFF, .idle, .idle, registerWrite 0x00 1, .idle, .idle,
      registerWrite 0x28 2] ++ readByte ++ [Input.idle] ++ readByte ++
    List.replicate 160 Input.idle).map fun axi => { axi := axi, memory := words }

theorem sends_exactly_once_twoBytes : (sendTwoBytes.foldl clock fresh).sent = [0x41, 0x42] ∧
    (sendTwoBytes.foldl clock fresh).ExactlyOnce := by
  have hmemory : ∀ i ∈ sendTwoBytes, i.memory = words := by
    intro i hi
    obtain ⟨axi, -, rfl⟩ := List.mem_map.mp hi
    rfl
  exact ⟨by decide +kernel, sends_exactly_once ((admits_of_checks (by decide +kernel) hmemory rfl
    fun _ hm => absurd hm List.not_mem_nil).reachable (.start fresh_start))⟩

end TxSession
end Atoman.UartDma
