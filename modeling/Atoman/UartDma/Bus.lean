import Atoman.UartDma.Steps
import Atoman.Lib.Transition

/-!
# The AXI masters and their slaves

`Bus` is what the slaves have seen: the requests they have accepted and not answered, each
under the number it was begun with. `Handshake` is the law of the handshake in one clock.
A soft reset clears the masters in whatever phase they are. It breaks the law where a request
is in progress (`soft_reset_abandons`); without that, every clock keeps it.
-/

namespace Atoman.UartDma
open Lib

/-- Requests accepted and not answered, oldest first. -/
structure Bus where
  /-- write requests begun -/
  writes : ℕ := 0
  /-- read requests begun -/
  reads : ℕ := 0
  aw : List (ℕ × BitVec 32) := []
  w : List (ℕ × BitVec 32 × BitVec 4) := []
  ar : List (ℕ × BitVec 32) := []

namespace Bus
variable (b : Bus) (s : State) (i : Input)

/-- The handshakes of one clock. -/
def clock : Bus where
  writes := if !s.rx.rx_write_active && (s.rxNext i).rx_write_active then b.writes + 1
    else b.writes
  reads := if !s.tx.tx_read_active && (s.txNext i).tx_read_active then b.reads + 1 else b.reads
  aw := (if s.rx.rx_bready && i.m_axi_bvalid then b.aw.tail else b.aw) ++
    if s.rx.rx_awvalid && i.m_axi_awready then [(b.writes, s.rx.rx_write_address)] else []
  w := (if s.rx.rx_bready && i.m_axi_bvalid then b.w.tail else b.w) ++
    if s.rx.rx_wvalid && i.m_axi_wready then
      [(b.writes, s.rx.rx_write_data, s.rx.rx_write_strobe)] else []
  ar := (if s.tx.tx_rready && i.m_axi_rvalid then b.ar.tail else b.ar) ++
    if s.tx.tx_arvalid && i.m_axi_arready then [(b.reads, s.tx.tx_read_address)] else []

/-- A slave answers only requests it has accepted. -/
def Lawful : Prop :=
  (i.m_axi_bvalid = true → b.aw ≠ [] ∧ b.w ≠ []) ∧ (i.m_axi_rvalid = true → b.ar ≠ [])

instance : Decidable (b.Lawful i) := inferInstanceAs (Decidable (_ ∧ _))

end Bus

/-- The peripheral and what its slaves have seen. -/
structure Watched where
  state : State
  bus : Bus

namespace Watched
variable (x : Watched) (i : Input)

def clock : Watched := ⟨x.state.clock i, x.bus.clock x.state i⟩

/-- Out of hardware reset. -/
def Start : Prop := ∃ rxMemory txMemory, x = ⟨.reset rxMemory txMemory, {}⟩

/-- The law of the handshake, in the clock with input `i`. -/
structure Handshake : Prop where
  awvalid : x.state.rx.rx_awvalid = true → i.m_axi_awready = false →
    (x.clock i).state.rx.rx_awvalid = true ∧
      (x.clock i).state.rx.rx_write_address = x.state.rx.rx_write_address
  wvalid : x.state.rx.rx_wvalid = true → i.m_axi_wready = false →
    (x.clock i).state.rx.rx_wvalid = true ∧
      (x.clock i).state.rx.rx_write_data = x.state.rx.rx_write_data ∧
      (x.clock i).state.rx.rx_write_strobe = x.state.rx.rx_write_strobe
  arvalid : x.state.tx.tx_arvalid = true → i.m_axi_arready = false →
    (x.clock i).state.tx.tx_arvalid = true ∧
      (x.clock i).state.tx.tx_read_address = x.state.tx.tx_read_address
  /-- what is outstanding is the last write begun and the last read begun -/
  one_write : x.bus.aw.length + x.state.rx.rx_awvalid.toNat ≤ 1 ∧
    x.bus.w.length + x.state.rx.rx_wvalid.toNat ≤ 1 ∧
    (∀ p ∈ x.bus.aw, p.1 = x.bus.writes) ∧ ∀ p ∈ x.bus.w, p.1 = x.bus.writes
  one_read : x.bus.ar.length + x.state.tx.tx_arvalid.toNat ≤ 1 ∧
    ∀ p ∈ x.bus.ar, p.1 = x.bus.reads
  /-- a response taken answers the request in progress -/
  response : x.state.rx.rx_bready = true → i.m_axi_bvalid = true →
    x.state.rx.rx_write_active = true ∧
      x.bus.aw = [(x.bus.writes, x.state.rx.rx_write_address)] ∧
      x.bus.w = [(x.bus.writes, x.state.rx.rx_write_data, x.state.rx.rx_write_strobe)]
  beat : x.state.tx.tx_rready = true → i.m_axi_rvalid = true →
    x.state.tx.tx_read_active = true ∧ x.bus.ar = [(x.bus.reads, x.state.tx.tx_read_address)]
  /-- without a response no counter moves and no byte is pushed -/
  write_counters : x.state.control.soft_reset_pulse = false →
    (x.state.rx.rx_bready && i.m_axi_bvalid) = false →
    (x.clock i).state.rx.rx_produced = x.state.rx.rx_produced ∧
      (x.clock i).state.errors.axi_write_error_count = x.state.errors.axi_write_error_count
  read_counters : x.state.control.soft_reset_pulse = false →
    (x.state.tx.tx_rready && i.m_axi_rvalid) = false →
    (x.clock i).state.tx.tx_consumed = x.state.tx.tx_consumed ∧
      (x.clock i).state.tx.tx_fifo_push = false ∧
      (x.clock i).state.errors.axi_read_error_count = x.state.errors.axi_read_error_count

/-- A soft reset finds no request in progress, or its response just being taken. -/
def Quiet : Prop :=
  x.state.control.soft_reset_pulse = true →
    (x.state.rx.rx_write_active = true → x.state.rxResponds i = true) ∧
      (x.state.tx.tx_read_active = true → x.state.txResponds i = true)

instance : Decidable (x.Quiet i) := inferInstanceAs (Decidable (_ → _))

end Watched

/-! ## What the masters and the slaves agree on -/

/-- The phases of a write. -/
structure WriteTracks (r : Rx) (b : Bus) : Prop where
  aw : b.aw = if r.rx_write_active && !r.rx_awvalid then [(b.writes, r.rx_write_address)] else []
  w : b.w = if r.rx_write_active && !r.rx_wvalid then
    [(b.writes, r.rx_write_data, r.rx_write_strobe)] else []
  idle : r.rx_write_active = false →
    r.rx_awvalid = false ∧ r.rx_wvalid = false ∧ r.rx_bready = false
  bready : r.rx_bready = true → r.rx_awvalid = false ∧ r.rx_wvalid = false

/-- The phases of a read. -/
structure ReadTracks (t : Tx) (b : Bus) : Prop where
  ar : b.ar = if t.tx_read_active && !t.tx_arvalid then [(b.reads, t.tx_read_address)] else []
  idle : t.tx_read_active = false → t.tx_arvalid = false ∧ t.tx_rready = false
  rready : t.tx_rready = true → t.tx_arvalid = false

section Steps
variable {s : State} {b : Bus} {i : Input}

theorem WriteTracks.active_of_bready (h : WriteTracks s.rx b) (hb : s.rx.rx_bready = true) :
    s.rx.rx_write_active = true := by
  by_contra ha
  simp [(h.idle (by simpa using ha)).2.2] at hb

/-- A response is taken for the request in progress. -/
theorem WriteTracks.response (h : WriteTracks s.rx b) (hb : s.rx.rx_bready = true) :
    b.aw = [(b.writes, s.rx.rx_write_address)] ∧
      b.w = [(b.writes, s.rx.rx_write_data, s.rx.rx_write_strobe)] := by
  have ha := h.active_of_bready hb
  have hv := h.bready hb
  rw [h.aw, h.w]
  simp [ha, hv]

/-- With no request in progress the bus is free. -/
theorem WriteTracks.free (h : WriteTracks s.rx b) (ha : s.rx.rx_write_active = false) :
    (b.clock s i).aw = [] ∧ (b.clock s i).w = [] := by
  have hi := h.idle ha
  simp [Bus.clock, h.aw, h.w, ha, hi]

/-- A response leaves the bus free. -/
theorem WriteTracks.answered (h : WriteTracks s.rx b) (hn : s.rxResponds i = true) :
    (b.clock s i).aw = [] ∧ (b.clock s i).w = [] := by
  obtain ⟨-, hb, hv⟩ := State.rxResponds_iff.mp hn
  have hr := h.response hb
  simp [Bus.clock, hr, hb, hv, h.bready hb]

/-- A free bus under idle registers. -/
theorem WriteTracks.of_idle {r : Rx} (haw : b.aw = []) (hw : b.w = [])
    (ha : r.rx_write_active = false)
    (hr : r.rx_awvalid = false ∧ r.rx_wvalid = false ∧ r.rx_bready = false) : WriteTracks r b where
  aw := by simp [haw, ha]
  w := by simp [hw, ha]
  idle _ := hr
  bready _ := ⟨hr.1, hr.2.1⟩

theorem WriteTracks.clock (h : WriteTracks s.rx b)
    (hq : s.control.soft_reset_pulse = true → s.rx.rx_write_active = true →
      s.rxResponds i = true) : WriteTracks (s.rxNext i) (b.clock s i) := by
  cases hp : s.control.soft_reset_pulse with
  | true =>
    rw [State.rxNext_reset hp]
    cases ha : s.rx.rx_write_active with
    | false => exact .of_idle (h.free ha).1 (h.free ha).2 rfl ⟨rfl, rfl, rfl⟩
    | true =>
      have hans := h.answered (hq hp ha)
      exact .of_idle hans.1 hans.2 rfl ⟨rfl, rfl, rfl⟩
  | false =>
    cases ha : s.rx.rx_write_active with
    | false =>
      have hi := h.idle ha
      have hfree := h.free (i := i) ha
      cases hr : s.rxReady with
      | false =>
        rw [State.rxNext_idle hp ha hr]
        exact .of_idle hfree.1 hfree.2 ha hi
      | true =>
        cases hf : s.rxRingFull with
        | true =>
          rw [State.rxNext_drain hp (by simp [State.rxDrains, hr, hf])]
          exact .of_idle hfree.1 hfree.2 ha hi
        | false =>
          rw [State.rxNext_issue hp (State.rxIssues_iff.mpr ⟨hr, hf⟩)]
          exact ⟨by simp [hfree.1], by simp [hfree.2], by simp, by simp [hi]⟩
    | true =>
      cases hn : s.rxResponds i with
      | true =>
        have hans := h.answered hn
        obtain ⟨-, hb, -⟩ := State.rxResponds_iff.mp hn
        have hv := h.bready hb
        rw [State.rxNext_respond hp hn]
        exact .of_idle hans.1 hans.2 rfl (by simp [hv])
      | false =>
        have hwrites : (b.clock s i).writes = b.writes := by simp [Bus.clock, ha]
        have hstill : (s.rx.rx_bready && i.m_axi_bvalid) = false := by
          simpa [State.rxResponds, ha] using hn
        have haw := h.aw
        have hw := h.w
        have hb := h.bready
        rw [State.rxNext_wait hp ha hn]
        refine ⟨?_, ?_, fun hidle => by simp [ha] at hidle, fun hready => ?_⟩
        · simp only [hwrites]
          simp only [Bus.clock, hstill, haw, ha]
          cases s.rx.rx_awvalid <;> cases i.m_axi_awready <;> simp
        · simp only [hwrites]
          simp only [Bus.clock, hstill, hw, ha]
          cases s.rx.rx_wvalid <;> cases i.m_axi_wready <;> simp
        · simp only [State.rxAccepted] at hready ⊢
          revert hb hready
          cases s.rx.rx_awvalid <;> cases s.rx.rx_wvalid <;> cases i.m_axi_awready <;>
            cases i.m_axi_wready <;> simp

/-- A beat is taken for the read in progress. -/
theorem ReadTracks.beat (h : ReadTracks s.tx b) (hr : s.tx.tx_rready = true) :
    s.tx.tx_read_active = true ∧ b.ar = [(b.reads, s.tx.tx_read_address)] := by
  have ha : s.tx.tx_read_active = true := by
    by_contra ha
    simp [(h.idle (by simpa using ha)).2] at hr
  have hv := h.rready hr
  rw [h.ar]
  simp [ha, hv]

theorem ReadTracks.free (h : ReadTracks s.tx b) (ha : s.tx.tx_read_active = false) :
    (b.clock s i).ar = [] := by
  have hi := h.idle ha
  simp [Bus.clock, h.ar, ha, hi]

theorem ReadTracks.answered (h : ReadTracks s.tx b) (hn : s.txResponds i = true) :
    (b.clock s i).ar = [] := by
  simp only [State.txResponds, Bool.and_eq_true] at hn
  have hb := (h.beat hn.1.2).2
  simp [Bus.clock, hb, hn, h.rready hn.1.2]

theorem ReadTracks.of_idle {t : Tx} (har : b.ar = []) (ha : t.tx_read_active = false)
    (ht : t.tx_arvalid = false ∧ t.tx_rready = false) : ReadTracks t b where
  ar := by simp [har, ha]
  idle _ := ht
  rready _ := ht.1

theorem ReadTracks.clock (h : ReadTracks s.tx b)
    (hq : s.control.soft_reset_pulse = true → s.tx.tx_read_active = true →
      s.txResponds i = true) : ReadTracks (s.txNext i) (b.clock s i) := by
  cases hp : s.control.soft_reset_pulse with
  | true =>
    rw [State.txNext_reset hp]
    cases ha : s.tx.tx_read_active with
    | false => exact .of_idle (h.free ha) rfl ⟨rfl, rfl⟩
    | true => exact .of_idle (h.answered (hq hp ha)) rfl ⟨rfl, rfl⟩
  | false =>
    cases ha : s.tx.tx_read_active with
    | false =>
      have hi := h.idle ha
      have hfree := h.free (i := i) ha
      cases hr : s.txReady with
      | false =>
        rw [State.txNext_idle hp ha hr]
        exact .of_idle hfree ha hi
      | true =>
        rw [State.txNext_issue hp hr]
        exact ⟨by simp [hfree], by simp, by simp [hi]⟩
    | true =>
      cases hn : s.txResponds i with
      | true =>
        obtain ⟨ha', hr', hv'⟩ := State.txNext_respond hp hn
        simp only [State.txResponds, Bool.and_eq_true] at hn
        have hv := h.rready hn.1.2
        exact .of_idle (h.answered (by simpa [State.txResponds] using hn)) ha'
          ⟨by simp [hv', hv], hr'⟩
      | false =>
        have hreads : (b.clock s i).reads = b.reads := by simp [Bus.clock, ha]
        have hstill : (s.tx.tx_rready && i.m_axi_rvalid) = false := by
          simpa [State.txResponds, ha] using hn
        have har := h.ar
        have hb := h.rready
        rw [State.txNext_wait hp ha hn]
        refine ⟨?_, fun hidle => by simp [ha] at hidle, fun hready => ?_⟩
        · simp only [hreads]
          simp only [Bus.clock, hstill, har, ha]
          cases s.tx.tx_arvalid <;> cases i.m_axi_arready <;> simp
        · simp only at hready ⊢
          revert hb hready
          cases s.tx.tx_arvalid <;> cases i.m_axi_arready <;> simp

end Steps

/-! ## The law, clock by clock -/

/-- Registers and slaves agree. -/
structure Watched.Tracks (x : Watched) : Prop where
  write : WriteTracks x.state.rx x.bus
  read : ReadTracks x.state.tx x.bus

namespace Watched
variable {x : Watched} {i : Input}

theorem Start.tracks (h : x.Start) : x.Tracks := by
  obtain ⟨rxMemory, txMemory, rfl⟩ := h
  exact ⟨.of_idle rfl rfl rfl ⟨rfl, rfl, rfl⟩, .of_idle rfl rfl ⟨rfl, rfl⟩⟩

theorem Tracks.clock (h : x.Tracks) (hq : x.Quiet i) : (x.clock i).Tracks where
  write := h.write.clock fun hp => (hq hp).1
  read := h.read.clock fun hp => (hq hp).2

/-- A request shown and not accepted is a request in progress, and its response is not yet
awaited. -/
theorem Tracks.awvalid_held (h : x.Tracks) (hq : x.Quiet i)
    (hv : x.state.rx.rx_awvalid = true ∨ x.state.rx.rx_wvalid = true) :
    x.state.rxNext i = { x.state.rx with
      rx_fifo_pop := false
      rx_fifo_pop_delay := false
      rx_awvalid := x.state.rx.rx_awvalid && !i.m_axi_awready
      rx_wvalid := x.state.rx.rx_wvalid && !i.m_axi_wready
      rx_bready := x.state.rx.rx_bready || x.state.rxAccepted i } := by
  have ha : x.state.rx.rx_write_active = true := by
    by_contra ha
    simp [h.write.idle (by simpa using ha)] at hv
  have hn : x.state.rxResponds i = false := by
    by_contra hn
    have hb := (State.rxResponds_iff.mp (by simpa using hn)).2.1
    simp [h.write.bready hb] at hv
  have hp : x.state.control.soft_reset_pulse = false := by
    by_contra hp
    simp [(hq (by simpa using hp)).1 ha] at hn
  exact State.rxNext_wait hp ha hn

theorem Tracks.arvalid_held (h : x.Tracks) (hq : x.Quiet i)
    (hv : x.state.tx.tx_arvalid = true) :
    x.state.txNext i = { x.state.tx with
      tx_fifo_push := false
      tx_arvalid := x.state.tx.tx_arvalid && !i.m_axi_arready
      tx_rready := x.state.tx.tx_rready || (x.state.tx.tx_arvalid && i.m_axi_arready) } := by
  have ha : x.state.tx.tx_read_active = true := by
    by_contra ha
    simp [h.read.idle (by simpa using ha)] at hv
  have hn : x.state.txResponds i = false := by
    by_contra hn
    simp only [Bool.not_eq_false, State.txResponds, Bool.and_eq_true] at hn
    simp [h.read.rready hn.1.2] at hv
  have hp : x.state.control.soft_reset_pulse = false := by
    by_contra hp
    simp [(hq (by simpa using hp)).2 ha] at hn
  exact State.txNext_wait hp ha hn

/-- The write counters move with a response only. -/
theorem write_counters (hp : x.state.control.soft_reset_pulse = false)
    (hn : (x.state.rx.rx_bready && i.m_axi_bvalid) = false) :
    (x.clock i).state.rx.rx_produced = x.state.rx.rx_produced ∧
      (x.clock i).state.errors.axi_write_error_count = x.state.errors.axi_write_error_count := by
  have hresp : x.state.rxResponds i = false := by
    simp only [State.rxResponds, Bool.and_assoc, hn, Bool.and_false]
  refine ⟨?_, ?_⟩
  · show (x.state.rxNext i).rx_produced = _
    rw [(State.rxNext_counts hp).1, hresp]
    rfl
  · show (x.state.errorsNext i).axi_write_error_count = _
    simp [State.errorsNext, hp, State.writeFault, hresp]

theorem read_counters (hp : x.state.control.soft_reset_pulse = false)
    (hn : (x.state.tx.tx_rready && i.m_axi_rvalid) = false) :
    (x.clock i).state.tx.tx_consumed = x.state.tx.tx_consumed ∧
      (x.clock i).state.tx.tx_fifo_push = false ∧
      (x.clock i).state.errors.axi_read_error_count = x.state.errors.axi_read_error_count := by
  have hresp : x.state.txResponds i = false := by
    simp only [State.txResponds, Bool.and_assoc, hn, Bool.and_false]
  have hnext : (x.state.txNext i).tx_consumed = x.state.tx.tx_consumed ∧
      (x.state.txNext i).tx_fifo_push = false := by
    cases ha : x.state.tx.tx_read_active with
    | true => rw [State.txNext_wait hp ha hresp]; exact ⟨rfl, rfl⟩
    | false =>
      cases hr : x.state.txReady with
      | false => rw [State.txNext_idle hp ha hr]; exact ⟨rfl, rfl⟩
      | true => rw [State.txNext_issue hp hr]; exact ⟨rfl, rfl⟩
  refine ⟨hnext.1, hnext.2, ?_⟩
  show (x.state.errorsNext i).axi_read_error_count = _
  simp [State.errorsNext, hp, State.readFault, hresp]

/-- **One clock keeps the law** where a soft reset finds no request in progress. -/
theorem Tracks.handshake (h : x.Tracks) (hq : x.Quiet i) : x.Handshake i where
  awvalid hv hn := by
    have hheld := h.awvalid_held hq (.inl hv)
    simp [Watched.clock, State.clock, hheld, hv, hn]
  wvalid hv hn := by
    have hheld := h.awvalid_held hq (.inr hv)
    simp [Watched.clock, State.clock, hheld, hv, hn]
  arvalid hv hn := by
    have hheld := h.arvalid_held hq hv
    simp [Watched.clock, State.clock, hheld, hv, hn]
  one_write := by
    have hidle := h.write.idle
    rw [h.write.aw, h.write.w]
    cases ha : x.state.rx.rx_write_active with
    | false => simp [hidle ha]
    | true => cases x.state.rx.rx_awvalid <;> cases x.state.rx.rx_wvalid <;> simp
  one_read := by
    have hidle := h.read.idle
    rw [h.read.ar]
    cases ha : x.state.tx.tx_read_active with
    | false => simp [hidle ha]
    | true => cases x.state.tx.tx_arvalid <;> simp
  response hb _ := ⟨h.write.active_of_bready hb, h.write.response hb⟩
  beat hr _ := h.read.beat hr
  write_counters := Watched.write_counters
  read_counters := Watched.read_counters

end Watched

/-! ## Runs -/

/-- A register write, address and data together. -/
def registerWrite (address : BitVec 8) (data : BitVec 32) : Input :=
  { s_axi_awaddr := address, s_axi_awvalid := true, s_axi_wdata := data, s_axi_wstrb := 0xF,
    s_axi_wvalid := true, s_axi_bready := true }

/-- A clock in which software only takes its response. -/
def Input.idle : Input := { s_axi_bready := true }

/-- A byte comes in. -/
def Input.byte (b : Byte) : Input :=
  { s_axi_bready := true, serial := { rx_data := b, rx_valid := true } }

/-- Both write channels are accepted. -/
def Input.accept : Input :=
  { s_axi_bready := true, m_axi_awready := true, m_axi_wready := true }

/-- The write is answered OKAY. -/
def Input.okay : Input := { s_axi_bready := true, m_axi_bvalid := true }

/-- Out of reset, with cleared memories. -/
def Watched.fresh : Watched := ⟨.reset (fun _ => 0) fun _ => 0, {}⟩

theorem Watched.fresh_start : Watched.fresh.Start := ⟨_, _, rfl⟩

/-- Runs from hardware reset, the inputs restricted by `P`. -/
def watching (P : Watched → Input → Prop) : Transition Watched :=
  .driven Watched.Start Watched.clock P

/-- **The masters keep the AXI handshake** in every run whose soft resets find no request in
progress. -/
theorem handshake_kept {x : Watched} (h : (watching Watched.Quiet).Reachable x) {i : Input}
    (hq : x.Quiet i) : x.Handshake i :=
  (h.driven_invariant (Q := Watched.Tracks) (fun _ hs => hs.tracks)
    fun _ _ ht hi => ht.clock hi).handshake hq

/-- A byte is stored, and then a soft reset is on its way. -/
def resetBehindWrite : List Input :=
  [registerWrite 0x00 1, .idle, .byte 0x41, .idle, .accept, .okay, .idle, registerWrite 0x00 2,
    .idle]

/-- After the reset the peripheral is enabled again, and the address of the next byte is shown and
not accepted yet. -/
def writeShown : List Input :=
  resetBehindWrite ++ [.idle, registerWrite 0x00 1, .idle, .byte 0x42, .idle]

theorem handshake_kept_shown :
    (resetBehindWrite.foldl Watched.clock .fresh).state.control.soft_reset_pulse = true ∧
    (writeShown.foldl Watched.clock .fresh).bus.writes = 2 ∧
    (writeShown.foldl Watched.clock .fresh).state.rx.rx_awvalid = true ∧
    (writeShown.foldl Watched.clock .fresh).Handshake .idle :=
  ⟨by decide +kernel, by decide +kernel, by decide +kernel, handshake_kept
    (Transition.Admits.reachable (by decide +kernel) (.start Watched.fresh_start))
    (by decide +kernel)⟩

/-! ## A soft reset in the middle of a request -/

/-- Enabled, with the write of a received byte begun and a soft reset on its way. -/
def resetUnderWrite : List Input :=
  [registerWrite 0x00 1, .idle, .byte 0x41, registerWrite 0x00 2]

/-- The same, then the slave accepts the write, and after the reset the peripheral is enabled
again and a second byte is written. -/
def staleResponse : List Input :=
  resetUnderWrite ++ [.accept, .idle, registerWrite 0x00 1, .idle, .byte 0x42, .idle, .accept]

/-- **A soft reset abandons a request**: an address shown is withdrawn before it is accepted,
and the answer to an abandoned write is later taken for the next one. -/
theorem soft_reset_abandons :
    (∃ x, (watching fun x => x.bus.Lawful).Reachable x ∧ x.bus.Lawful .idle ∧
      x.state.rx.rx_awvalid = true ∧ (x.clock .idle).state.rx.rx_awvalid = false) ∧
    ∃ x, (watching fun x => x.bus.Lawful).Reachable x ∧ x.bus.Lawful .okay ∧
      x.state.rx.rx_bready = true ∧ x.bus.writes = 2 ∧ x.bus.aw.map (·.1) = [1, 2] ∧
      (x.clock .okay).state.rx.rx_produced = x.state.rx.rx_produced + 1 := by
  have hrun (is : List Input)
      (h : Transition.Admits Watched.clock (fun x => x.bus.Lawful) .fresh is) :
      (watching fun x => x.bus.Lawful).Reachable (is.foldl Watched.clock .fresh) :=
    Transition.Admits.reachable h (.start Watched.fresh_start)
  refine ⟨⟨_, hrun (resetUnderWrite ++ [Input.idle]) (by decide +kernel), ?_⟩,
    ⟨_, hrun staleResponse (by decide +kernel), ?_⟩⟩
  · decide +kernel
  · decide +kernel

end Atoman.UartDma
