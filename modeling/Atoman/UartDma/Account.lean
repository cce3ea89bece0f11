import Atoman.UartDma.Bus
import Atoman.Lib.Ledger
import Atoman.Lib.StreamRing
import Mathlib.Data.Nat.Bitwise

/-!
# The account of the received bytes

Beside the peripheral stand the memory its write responses have filled and the list of the
bytes received, each with its fate: it waits in the FIFO, was dropped because the FIFO or the
ring was full, was stored by a write with an OKAY response, or was refused by another
response. `Intact` is what the receive channel promises of a state.
-/

namespace Atoman.UartDma
open Lib

/-- A received byte with its number. -/
structure Arrival where
  number : ℕ
  data : Byte
deriving DecidableEq

/-! ## Stores -/

/-- A write to memory: an aligned word and the lanes written. -/
structure Store where
  address : BitVec 32
  data : BitVec 32
  strobe : BitVec 4
deriving DecidableEq

/-- The byte addresses a store writes. -/
def Store.Touches (w : Store) (x : BitVec 32) : Prop :=
  x &&& 0xFFFFFFFC = w.address ∧ w.strobe.getLsbD (x &&& 3).toNat = true

instance (w : Store) (x : BitVec 32) : Decidable (w.Touches x) :=
  inferInstanceAs (Decidable (_ ∧ _))

def Store.apply (w : Store) (m : BitVec 32 → Byte) (x : BitVec 32) : Byte :=
  if w.Touches x then w.data.extractLsb' (8 * (x &&& 3).toNat) 8 else m x

/-- The store that puts `b` at byte address `x`. -/
def Store.ofByte (x : BitVec 32) (b : Byte) : Store :=
  ⟨x &&& 0xFFFFFFFC, State.laneData (x &&& 3) b, State.laneStrobe (x &&& 3)⟩

theorem lane_cases (x : BitVec 32) : x &&& 3 = 0#32 ∨ x &&& 3 = 1#32 ∨ x &&& 3 = 2#32 ∨
    x &&& 3 = 3#32 := by
  have hmod : (x &&& 3).toNat = x.toNat % 4 := by
    rw [BitVec.toNat_and]
    exact Nat.and_two_pow_sub_one_eq_mod x.toNat 2
  simp only [← BitVec.toNat_inj, hmod]
  simp only [BitVec.toNat_ofNat]
  omega

/-- A byte address is a word and a lane. -/
theorem eq_of_word_lane {x y : BitVec 32} (hw : y &&& 0xFFFFFFFC = x &&& 0xFFFFFFFC)
    (hl : y &&& 3 = x &&& 3) : y = x := by
  have hsplit (z : BitVec 32) : z = (z &&& 0xFFFFFFFC) ||| (z &&& 3) := by
    rw [← BitVec.and_or_distrib_left]
    exact (BitVec.and_allOnes).symm
  rw [hsplit y, hsplit x, hw, hl]

/-- The store of a byte touches its address and no other. -/
theorem Store.touches_ofByte (x : BitVec 32) (b : Byte) (y : BitVec 32) :
    (ofByte x b).Touches y ↔ y = x := by
  constructor
  · rintro ⟨hw, hs⟩
    refine eq_of_word_lane hw ?_
    simp only [ofByte] at hs
    rcases lane_cases x with hx | hx | hx | hx <;> rcases lane_cases y with hy | hy | hy | hy <;>
      rw [hx, hy] at hs ⊢ <;> revert hs <;> decide
  · rintro rfl
    refine ⟨rfl, ?_⟩
    simp only [ofByte]
    rcases lane_cases y with hy | hy | hy | hy <;> rw [hy] <;> decide

/-- What is put on a lane is read on it. -/
theorem laneData_lane (x : BitVec 32) (b : Byte) :
    (State.laneData (x &&& 3) b).extractLsb' (8 * (x &&& 3).toNat) 8 = b := by
  rcases lane_cases x with hx | hx | hx | hx <;> rw [hx] <;> simp only [State.laneData] <;> ext k hk
  all_goals
    simp only [BitVec.getElem_extractLsb', BitVec.getLsbD_append, BitVec.toNat_ofNat]
    grind

theorem Store.ofByte_apply (x : BitVec 32) (b : Byte) (m : BitVec 32 → Byte) :
    (ofByte x b).apply m = Function.update m x b := by
  funext y
  rw [apply]
  by_cases hy : y = x
  · subst hy
    rw [if_pos ((touches_ofByte y b y).mpr rfl), Function.update_self]
    exact laneData_lane y b
  · rw [if_neg fun ht => hy ((touches_ofByte x b y).mp ht), Function.update_of_ne hy]

/-- The write the slave answers: the heads of what it has accepted. -/
def Bus.answered (b : Bus) : Option Store :=
  match b.aw, b.w with
  | (_, address) :: _, (_, data, strobe) :: _ => some ⟨address, data, strobe⟩
  | _, _ => none

/-! ## The account -/

structure Account where
  bus : Bus := {}
  memory : BitVec 32 → Byte
  /-- the stores answered OKAY -/
  stores : List Store := []
  arrivals : List Arrival := []
  waiting : List Arrival := []
  dropped : List Arrival := []
  stored : List Arrival := []
  refused : List Arrival := []
  /-- ring positions released by software -/
  consumed : ℕ := 0
  /-- a byte came in the clock before -/
  recent : Bool := false
  /-- clocks in which a byte came while the full FIFO was popped -/
  contested : ℕ := 0

namespace State
variable (s : State) (i : Input)

/-- A byte comes in while the full FIFO is popped. -/
def contests : Bool := s.rxOverflows i && s.rx.rx_fifo_pop

/-- The FIFO takes the byte that comes in. -/
def accepts : Bool := s.rx_fifo.pushAccept i.serial.rx_valid s.rx.rx_fifo_pop

/-- The fate of the head of the FIFO is decided. -/
def settles : Bool := s.rxDrains || s.rxResponds i

/-- What software adds to `rx_consumed`. -/
def released : ℕ := (s.controlNext.rx_consumed - s.control.rx_consumed).toNat

end State

/-- One clock. A byte gets the number of its arrival; the head of the FIFO gets its fate when
it is drained or its response is taken. -/
def Account.clock (a : Account) (s : State) (i : Input) : Account :=
  let arrival : Arrival := ⟨a.arrivals.length, i.serial.rx_data⟩
  let okay := s.rxResponds i && i.m_axi_bresp == 0
  let refusal := s.rxResponds i && i.m_axi_bresp != 0
  let head := a.waiting.take 1
  { bus := a.bus.clock s i
    memory := if okay then a.bus.answered.elim a.memory (·.apply a.memory) else a.memory
    stores := a.stores ++ if okay then a.bus.answered.toList else []
    arrivals := a.arrivals ++ if i.serial.rx_valid then [arrival] else []
    waiting := (if s.settles i then a.waiting.tail else a.waiting) ++
      if s.accepts i then [arrival] else []
    dropped := a.dropped ++ (if s.rxDrains then head else []) ++
      if i.serial.rx_valid && !s.accepts i then [arrival] else []
    stored := a.stored ++ if okay then head else []
    refused := a.refused ++ if refusal then head else []
    consumed := a.consumed + s.released
    recent := i.serial.rx_valid
    contested := a.contested + (s.contests i).toNat }

/-- What arrived and what of it was dropped. -/
def Account.ledger (a : Account) : Ledger Arrival := ⟨a.arrivals, a.dropped⟩

/-- The peripheral and its account. -/
structure Session where
  state : State
  account : Account

namespace Session
variable (x : Session) (i : Input)

def clock : Session := ⟨x.state.clock i, x.account.clock x.state i⟩

/-- Out of hardware reset. -/
def Start : Prop :=
  ∃ rxMemory txMemory memory, x = ⟨.reset rxMemory txMemory, { memory := memory }⟩

/-- The address of ring position `k`. -/
def position (k : ℕ) : BitVec 32 :=
  ringAddress x.state.control.rx_ring_base x.state.control.rx_ring_size (BitVec.ofNat 32 k)

/-- The environment: no soft reset, no disable, software releases what was produced, bytes
come while the peripheral is enabled and not in adjacent clocks. -/
structure Runs : Prop where
  no_reset : x.state.resetRequest = false
  no_disable : x.state.control.uart_enable = true → x.state.disableRequest = false
  consumed : x.state.commits 0x07#6 = true →
    x.state.written x.state.control.rx_consumed - x.state.control.rx_consumed ≤
      x.state.rx.rx_produced - x.state.control.rx_consumed
  enabled : i.serial.rx_valid = true → x.state.control.uart_enable = true
  spaced : i.serial.rx_valid = true → x.account.recent = false

/-- **The receive path**: the bytes not dropped, in the order of their arrival, are those
stored at the ring positions from zero on, then a refused one, then those in the FIFO. The
FIFO may still hold the byte it is about to pop. What software has not released stands in
memory, and the write in progress is for none of its addresses. -/
structure Intact : Prop where
  numbered : x.account.arrivals.map (·.number) = List.range x.account.arrivals.length
  ledger : x.account.ledger.Valid
  order : x.account.ledger.kept = x.account.stored ++ x.account.refused ++ x.account.waiting
  fifo : ∃ popped : List Byte, popped.length = x.state.rx.rx_fifo_pop.toNat ∧
    x.state.rx_fifo.Holds (popped ++ x.account.waiting.map (·.data))
  refused : x.account.refused = [] ∨
    x.account.refused.length = 1 ∧ x.state.rx.rx_dma_halted = true
  produced : x.state.rx.rx_produced = BitVec.ofNat 32 x.account.stored.length
  stores : x.account.stores =
    x.account.stored.mapIdx fun k a => Store.ofByte (x.position k) a.data
  consumed : x.state.control.rx_consumed = BitVec.ofNat 32 x.account.consumed
  consumed_le : x.account.consumed ≤ x.account.stored.length
  unread : ∀ k (h : k < x.account.stored.length), x.account.consumed ≤ k →
    x.account.memory (x.position k) = x.account.stored[k].data
  untouched : x.state.rx.rx_write_active = true →
    ∀ k < x.account.stored.length, x.account.consumed ≤ k →
      ¬ (Store.mk x.state.rx.rx_write_address x.state.rx.rx_write_data
        x.state.rx.rx_write_strobe).Touches (x.position k)

/-- The overflow counter counts the bytes dropped. -/
def Counted : Prop :=
  x.state.errors.overflow_error_count = BitVec.ofNat 16 x.account.dropped.length

/-- No byte comes in while the full FIFO is popped. -/
def Uncontested : Prop := x.state.contests i = false

end Session

/-- Runs from hardware reset, the inputs restricted by `P`. -/
def receiving (P : Session → Input → Prop) : Transition Session :=
  .driven Session.Start Session.clock P

end Atoman.UartDma
