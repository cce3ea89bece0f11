import Atoman.UartDma.Account

/-!
# The receive path loses and miscounts nothing, but for one clock

`Sound` is the invariant of a run: the ring retains what software has not released, a write in
progress is for the head of the FIFO and the next ring position, and an idle channel leaves
room in the FIFO unless a byte has just come in. One clock keeps it. The overflow counter
counts every byte dropped, and besides every byte that comes in while the full FIFO is popped
and that the FIFO takes.
-/

namespace Atoman.UartDma
open Lib

/-! ## Ring positions -/

section Positions
variable {base size : BitVec 32}

theorem ringSize_pow (h : ringSizeValid size = true) :
    (∃ e, size.toNat = 2 ^ e) ∧ size.toNat ≤ 65536 ∧ 0 < size.toNat := by
  simp only [ringSizeValid, Bool.and_eq_true, decide_eq_true_eq, beq_iff_eq] at h
  obtain ⟨⟨hlow, hhigh⟩, hand⟩ := h
  rw [BitVec.le_def] at hlow hhigh
  have hlow' : 256 ≤ size.toNat := by simpa using hlow
  have hhigh' : size.toNat ≤ 65536 := by simpa using hhigh
  refine ⟨?_, hhigh', by omega⟩
  have hsub : (size - 1).toNat = size.toNat - 1 := by
    rw [BitVec.toNat_sub_of_le (by rw [BitVec.le_def]; simp; omega)]
    simp
  have hzero : size.toNat &&& (size.toNat - 1) = 0 := by
    rw [← hsub, ← BitVec.toNat_and, hand]
    rfl
  exact (Nat.and_sub_one_eq_zero_iff_isPowerOfTwo (by omega)).mp hzero

/-- The position of a number is its rest modulo the ring size. -/
theorem ringAddress_eq (h : ringSizeValid size = true) (k : ℕ) :
    ringAddress base size (BitVec.ofNat 32 k) = base + BitVec.ofNat 32 (k % size.toNat) := by
  obtain ⟨⟨e, he⟩, hle, hpos⟩ := ringSize_pow h
  have hsub : (size - 1).toNat = 2 ^ e - 1 := by
    rw [BitVec.toNat_sub_of_le (by rw [BitVec.le_def]; simp; omega), ← he]
    simp
  have hexp : e ≤ 32 := by
    by_contra hgt
    have : 2 ^ 32 < 2 ^ e := Nat.pow_lt_pow_right (by omega) (by omega)
    omega
  have hlt : k % 2 ^ e < 2 ^ 32 := by
    have := Nat.mod_lt k (Nat.two_pow_pos e)
    omega
  rw [ringAddress]
  congr 1
  rw [← BitVec.toNat_inj, BitVec.toNat_and, hsub, BitVec.toNat_ofNat, BitVec.toNat_ofNat, he,
    Nat.and_two_pow_sub_one_eq_mod, Nat.mod_eq_of_lt hlt]
  exact Nat.mod_mod_of_dvd k (Nat.pow_dvd_pow 2 hexp)

/-- Two numbers less than a ring apart have different positions. -/
theorem ringAddress_ne (h : ringSizeValid size = true) {lo j k : ℕ} (hj : lo ≤ j)
    (hj' : j < lo + size.toNat) (hk : lo ≤ k) (hk' : k < lo + size.toNat) (hne : j ≠ k) :
    ringAddress base size (BitVec.ofNat 32 j) ≠ ringAddress base size (BitVec.ofNat 32 k) := by
  obtain ⟨-, hle, hpos⟩ := ringSize_pow h
  rw [ringAddress_eq h, ringAddress_eq h]
  intro heq
  have hmod := congrArg BitVec.toNat ((BitVec.add_right_inj _).mp heq)
  have hjlt := Nat.mod_lt j hpos
  have hklt := Nat.mod_lt k hpos
  have hj32 : j % size.toNat % 2 ^ 32 = j % size.toNat := Nat.mod_eq_of_lt (by omega)
  have hk32 : k % size.toNat % 2 ^ 32 = k % size.toNat := Nat.mod_eq_of_lt (by omega)
  rw [BitVec.toNat_ofNat, BitVec.toNat_ofNat, hj32, hk32] at hmod
  have hsame : (lo + (j - lo)) % size.toNat = (lo + (k - lo)) % size.toNat := by
    rw [Nat.add_sub_cancel' hj, Nat.add_sub_cancel' hk, hmod]
  have := add_mod_inj (by omega) (by omega) hsame
  omega

/-- The bytes of the ring. -/
def ringMemory (base : BitVec 32) (m : BitVec 32 → Byte) : Memory Byte :=
  fun j => m (base + BitVec.ofNat 32 j)

/-- Storing a byte at the next position. -/
theorem retains_store (h : ringSizeValid size = true) {m : BitVec 32 → Byte} {lo : ℕ}
    {bytes : List Byte} (hr : (ringMemory base m).Retains size.toNat lo bytes)
    (hlo : lo ≤ bytes.length) (hroom : bytes.length < lo + size.toNat) (b : Byte) :
    (ringMemory base (Function.update m
      (ringAddress base size (BitVec.ofNat 32 bytes.length)) b)).Retains size.toNat lo
        (bytes ++ [b]) := by
  obtain ⟨-, hle, hpos⟩ := ringSize_pow h
  refine ⟨by simp; omega, fun j hj hjlo => ?_⟩
  rw [List.length_append, List.length_singleton] at hj
  have hcell : ringMemory base (Function.update m
      (ringAddress base size (BitVec.ofNat 32 bytes.length)) b) (j % size.toNat) =
      Function.update m (ringAddress base size (BitVec.ofNat 32 bytes.length)) b
        (ringAddress base size (BitVec.ofNat 32 j)) := by
    rw [ringAddress_eq h j]
    rfl
  rw [hcell]
  rcases Nat.lt_or_ge j bytes.length with hold | hnew
  · rw [Function.update_of_ne (ringAddress_ne h hjlo (by omega) hlo hroom (by omega)),
      List.getElem_append_left hold, ← hr.get j hold hjlo, ringAddress_eq h j]
    rfl
  · obtain rfl : j = bytes.length := by omega
    simp

end Positions

/-! ## The registers during a run -/

section Registers
variable {s : State}

theorem controlNext_ring (he : s.control.uart_enable = true) :
    (s.controlNext.rx_ring_base = s.control.rx_ring_base ∧
      s.controlNext.rx_ring_size = s.control.rx_ring_size) ∧
    s.controlNext.tx_ring_base = s.control.tx_ring_base ∧
      s.controlNext.tx_ring_size = s.control.tx_ring_size := by
  have hwrite := State.registerWrite_ring he
  simp only [State.controlNext]
  split <;> split <;> simp [hwrite]

theorem controlNext_enable (he : s.control.uart_enable = true) (hreset : s.resetRequest = false)
    (hdisable : s.disableRequest = false) : s.controlNext.uart_enable = true := by
  have hwrite (n : Control) (hc : s.liteWriteCommit = true) (hn : n.uart_enable = true) :
      (s.registerWrite n).uart_enable = true := by
    by_cases h0 : s.liteWriteIndex = 0x00#6
    · have hcommit : s.commits 0x00#6 = true := State.commits_iff.mpr ⟨hc, h0⟩
      simp only [State.resetRequest, hcommit, Bool.true_and] at hreset
      simp only [State.disableRequest, hcommit, Bool.true_and] at hdisable
      rw [State.registerWrite_control h0, hreset, hdisable]
      simp [hn]
    · rw [(State.registerWrite_other h0 n).2, hn]
  simp only [State.controlNext]
  split
  · rename_i hc
    split
    · exact hwrite _ hc he
    · exact hwrite _ hc he
  · split
    · exact he
    · exact he

/-- The peripheral is enabled with rings it can run. -/
theorem controlNext_enabled (he : s.control.uart_enable = false)
    (hnext : s.controlNext.uart_enable = true) :
    ringSizeValid s.controlNext.rx_ring_size = true ∧
      ringSizeValid s.controlNext.tx_ring_size = true := by
  have hwrite (n : Control) (hn : n.uart_enable = false)
      (hrx : n.rx_ring_size = s.control.rx_ring_size)
      (htx : n.tx_ring_size = s.control.tx_ring_size)
      (hon : (s.registerWrite n).uart_enable = true) :
      ringSizeValid (s.registerWrite n).rx_ring_size = true ∧
        ringSizeValid (s.registerWrite n).tx_ring_size = true := by
    by_cases h0 : s.liteWriteIndex = 0x00#6
    · rw [State.registerWrite_control h0] at hon ⊢
      split at hon
      case isTrue => simp at hon
      case isFalse hbit =>
        have haccept : s.enableAccepted = true := by
          by_contra hno
          simp [hno, hn] at hon
        simp only [State.enableAccepted, State.ringConfigurationValid, Bool.and_eq_true] at haccept
        rw [if_neg hbit, hrx, htx]
        exact haccept.1.1.1.1.2.1.1
    · rw [(State.registerWrite_other h0 n).2, hn] at hon
      simp at hon
  simp only [State.controlNext] at hnext ⊢
  split at hnext
  · rename_i hc
    rw [if_pos hc]
    split at hnext
    · rename_i hp
      rw [if_pos hp]
      exact hwrite _ he rfl rfl hnext
    · rename_i hp
      rw [if_neg hp]
      exact hwrite _ he rfl rfl hnext
  · split at hnext
    · simp [he] at hnext
    · simp [he] at hnext

theorem controlNext_consumed (hp : s.control.soft_reset_pulse = false) :
    s.controlNext.rx_consumed =
      if s.commits 0x07#6 then s.written s.control.rx_consumed else s.control.rx_consumed := by
  have hwrite := State.registerWrite_consumed (s := s) { s.control with soft_reset_pulse := false }
  by_cases hc : s.liteWriteCommit = true
  · simp [State.controlNext, State.commits, hp, hc, hwrite]
  · simp [State.controlNext, State.commits, hp, hc]

/-- Software releases no more than was produced. -/
theorem released_le {x : Session} {i : Input} (hr : x.Runs i)
    (hp : x.state.control.soft_reset_pulse = false) :
    x.state.released ≤ (x.state.rx.rx_produced - x.state.control.rx_consumed).toNat := by
  rw [State.released, controlNext_consumed hp]
  cases hc : x.state.commits 0x07#6 with
  | true => exact BitVec.le_def.mp (by simpa using hr.consumed hc)
  | false => simp

end Registers

/-! ## The invariant -/

structure Sound (x : Session) : Prop where
  quiet : x.state.control.soft_reset_pulse = false
  writes : WriteTracks x.state.rx x.account.bus
  delay : x.state.rx.rx_fifo_pop_delay = x.state.rx.rx_fifo_pop
  popping : x.state.rx.rx_fifo_pop = true → x.state.rx.rx_write_active = false
  numbered : x.account.arrivals.map (·.number) = List.range x.account.arrivals.length
  ledger : x.account.ledger.Valid
  order : x.account.ledger.kept = x.account.stored ++ x.account.refused ++ x.account.waiting
  fifo : ∃ popped : List Byte, popped.length = x.state.rx.rx_fifo_pop.toNat ∧
    x.state.rx_fifo.Holds (popped ++ x.account.waiting.map (·.data))
  refused : x.account.refused = [] ∨
    x.account.refused.length = 1 ∧ x.state.rx.rx_dma_halted = true
  produced : x.state.rx.rx_produced = BitVec.ofNat 32 x.account.stored.length
  stores : x.account.stores =
    x.account.stored.mapIdx fun k a => Store.ofByte (x.position k) a.data
  consumed : x.state.control.rx_consumed = BitVec.ofNat 32 x.account.consumed
  consumed_le : x.account.consumed ≤ x.account.stored.length
  disabled : x.state.control.uart_enable = false →
    x.state.rx.rx_write_active = false ∧ x.account.stored = [] ∧ x.account.waiting = []
  size : x.state.control.uart_enable = true → ringSizeValid x.state.control.rx_ring_size = true
  ring : x.state.control.uart_enable = true →
    (ringMemory x.state.control.rx_ring_base x.account.memory).Retains
      x.state.control.rx_ring_size.toNat x.account.consumed (x.account.stored.map (·.data))
  active : x.state.rx.rx_write_active = true →
    x.state.control.uart_enable = true ∧ x.state.rx.rx_dma_halted = false ∧
      x.account.stored.length < x.account.consumed + x.state.control.rx_ring_size.toNat ∧
      ∃ a rest, x.account.waiting = a :: rest ∧
        Store.mk x.state.rx.rx_write_address x.state.rx.rx_write_data
          x.state.rx.rx_write_strobe = Store.ofByte (x.position x.account.stored.length) a.data
  idle : x.state.rx.rx_write_active = false → x.state.rx.rx_fifo_pop = false →
    x.state.rx.rx_dma_halted = false → x.account.waiting.length < 16 ∨ x.account.recent = true
  overflow : x.state.errors.overflow_error_count =
    BitVec.ofNat 16 (x.account.dropped.length + x.account.contested)

namespace Sound
variable {x : Session} {i : Input}

theorem start (h : x.Start) : Sound x := by
  obtain ⟨rxMemory, txMemory, memory, rfl⟩ := h
  exact {
    quiet := rfl
    writes := .of_idle rfl rfl rfl ⟨rfl, rfl, rfl⟩
    delay := rfl
    popping := fun _ => rfl
    numbered := rfl
    ledger := Ledger.valid_empty
    order := rfl
    fifo := ⟨[], rfl, SyncFifo.holds_clear (f := ⟨rxMemory, 0, 0, 0⟩)⟩
    refused := .inl rfl
    produced := rfl
    stores := rfl
    consumed := rfl
    consumed_le := Nat.le_refl _
    disabled := fun _ => ⟨rfl, rfl, rfl⟩
    size := fun he => absurd he Bool.false_ne_true
    ring := fun he => absurd he Bool.false_ne_true
    active := fun ha => absurd ha Bool.false_ne_true
    idle := fun _ _ _ => .inl (show 0 < 16 by decide)
    overflow := rfl }

/-! ### Numbers -/

/-- There are at most a ring of unreleased bytes. -/
theorem room (h : Sound x) :
    x.account.stored.length ≤ x.account.consumed + x.state.control.rx_ring_size.toNat := by
  cases he : x.state.control.uart_enable with
  | false => simp [(h.disabled he).2.1]
  | true => simpa using (h.ring he).length_le

theorem size_le (h : Sound x) (he : x.state.control.uart_enable = true) :
    x.state.control.rx_ring_size.toNat ≤ 65536 := (ringSize_pow (h.size he)).2.1

/-- The difference of the counters is the number of unreleased bytes. -/
theorem produced_sub_consumed (h : Sound x) :
    (x.state.rx.rx_produced - x.state.control.rx_consumed).toNat =
      x.account.stored.length - x.account.consumed := by
  have hle := h.consumed_le
  have hroom := h.room
  have hsmall : x.account.stored.length - x.account.consumed < 2 ^ 32 := by
    cases he : x.state.control.uart_enable with
    | false => simp [(h.disabled he).2.1]
    | true =>
      have := h.size_le he
      omega
  rw [h.produced, h.consumed, BitVec.toNat_sub, BitVec.toNat_ofNat, BitVec.toNat_ofNat]
  omega

theorem ringFull_iff (h : Sound x) : x.state.rxRingFull = true ↔
    x.account.consumed + x.state.control.rx_ring_size.toNat ≤ x.account.stored.length := by
  have hle := h.consumed_le
  rw [State.rxRingFull, decide_eq_true_eq, BitVec.le_def, h.produced_sub_consumed]
  omega

/-- The memory holds what is not released. -/
theorem unread (h : Sound x) (k : ℕ) (hk : k < x.account.stored.length)
    (hc : x.account.consumed ≤ k) :
    x.account.memory (x.position k) = x.account.stored[k].data := by
  cases he : x.state.control.uart_enable with
  | false => simp [(h.disabled he).2.1] at hk
  | true =>
    have hget := (h.ring he).get k (by simpa using hk) hc
    rw [List.getElem_map] at hget
    rw [← hget, Session.position, ringAddress_eq (h.size he)]
    rfl

/-- The write in progress is for none of the addresses not released. -/
theorem untouched (h : Sound x) (ha : x.state.rx.rx_write_active = true) (k : ℕ)
    (hk : k < x.account.stored.length) (hc : x.account.consumed ≤ k) :
    ¬ (Store.mk x.state.rx.rx_write_address x.state.rx.rx_write_data
      x.state.rx.rx_write_strobe).Touches (x.position k) := by
  obtain ⟨he, -, hlt, a, rest, -, hstore⟩ := h.active ha
  rw [hstore, Store.touches_ofByte]
  exact ringAddress_ne (h.size he) hc (by omega) (by omega) hlt (by omega)

theorem intact (h : Sound x) : x.Intact where
  numbered := h.numbered
  ledger := h.ledger
  order := h.order
  fifo := h.fifo
  refused := h.refused
  produced := h.produced
  stores := h.stores
  consumed := h.consumed
  consumed_le := h.consumed_le
  unread := h.unread
  untouched := h.untouched

/-! ### The head of the FIFO -/

/-- Without a pop the FIFO holds what waits. -/
theorem holds_waiting (h : Sound x) (hpop : x.state.rx.rx_fifo_pop = false) :
    x.state.rx_fifo.Holds (x.account.waiting.map (·.data)) := by
  obtain ⟨popped, hlen, hholds⟩ := h.fifo
  rw [hpop, Bool.toNat_false, List.length_eq_zero_iff] at hlen
  rwa [hlen, List.nil_append] at hholds

/-- A ready channel finds a byte. -/
theorem head_of_ready (h : Sound x) (hr : x.state.rxReady = true) :
    x.state.rx.rx_fifo_pop = false ∧ ∃ a rest, x.account.waiting = a :: rest := by
  obtain ⟨-, -, -, hdelay, hempty⟩ := State.rxReady_iff.mp hr
  have hpop : x.state.rx.rx_fifo_pop = false := by rw [← h.delay, hdelay]
  refine ⟨hpop, ?_⟩
  cases hw : x.account.waiting with
  | nil =>
    have := (h.holds_waiting hpop).empty_iff.mpr (by simp [hw])
    simp [this] at hempty
  | cons a rest => exact ⟨a, rest, rfl⟩

/-- A byte that gets its fate is the head of what waits, and the channel is not halted. -/
theorem head_of_settles (h : Sound x) (hs : x.state.settles i = true) :
    x.state.rx.rx_fifo_pop = false ∧ x.state.rx.rx_dma_halted = false ∧
      ∃ a rest, x.account.waiting = a :: rest := by
  simp only [State.settles, Bool.or_eq_true] at hs
  rcases hs with hd | hn
  · simp only [State.rxDrains, Bool.and_eq_true] at hd
    obtain ⟨hpop, hhead⟩ := h.head_of_ready hd.1
    exact ⟨hpop, (State.rxReady_iff.mp hd.1).2.1, hhead⟩
  · have ha := (State.rxResponds_iff.mp hn).1
    obtain ⟨-, hhalt, -, a, rest, hw, -⟩ := h.active ha
    refine ⟨?_, hhalt, a, rest, hw⟩
    by_contra hpop
    simp [h.popping (by simpa using hpop)] at ha

/-- The FIFO is popped in the clock after its head got its fate. -/
theorem pop_next (h : Sound x) :
    (x.state.rxNext i).rx_fifo_pop = x.state.settles i ∧
      (x.state.rxNext i).rx_fifo_pop_delay = x.state.settles i ∧
      (x.state.settles i = true → (x.state.rxNext i).rx_write_active = false) := by
  have hp := h.quiet
  cases ha : x.state.rx.rx_write_active with
  | false =>
    have hn : x.state.rxResponds i = false := by simp [State.rxResponds, ha]
    cases hr : x.state.rxReady with
    | false => simp [State.rxNext_idle hp ha hr, State.settles, State.rxDrains, hr, hn]
    | true =>
      cases hf : x.state.rxRingFull with
      | true =>
        have hd : x.state.rxDrains = true := by simp [State.rxDrains, hr, hf]
        simp [State.rxNext_drain hp hd, State.settles, hd, ha]
      | false =>
        have hissue := State.rxNext_issue (i := i) hp (State.rxIssues_iff.mpr ⟨hr, hf⟩)
        simp [hissue, State.settles, State.rxDrains, hf, hn]
  | true =>
    have hd : x.state.rxDrains = false := by
      simp [State.rxDrains, State.rxReady_of_active ha]
    cases hn : x.state.rxResponds i with
    | true => simp [State.rxNext_respond hp hn, State.settles, hn]
    | false => simp [State.rxNext_wait hp ha hn, State.settles, hn, hd]

/-- The FIFO holds the byte about to be popped and what waits. -/
theorem fifo_next (h : Sound x) :
    ∃ popped : List Byte, popped.length = (x.clock i).state.rx.rx_fifo_pop.toNat ∧
      (x.clock i).state.rx_fifo.Holds
        (popped ++ (x.clock i).account.waiting.map (·.data)) := by
  obtain ⟨popped, hlen, hholds⟩ := h.fifo
  have hnext := hholds.clock i.serial.rx_valid i.serial.rx_data x.state.rx.rx_fifo_pop
  have hrest : (if x.state.rx.rx_fifo_pop = true then
      (popped ++ x.account.waiting.map (·.data)).tail
      else popped ++ x.account.waiting.map (·.data)) = x.account.waiting.map (·.data) := by
    cases hpop : x.state.rx.rx_fifo_pop with
    | true =>
      obtain ⟨b, rfl⟩ := List.length_eq_one_iff.mp (by simpa [hpop] using hlen)
      simp
    | false =>
      rw [hpop, Bool.toNat_false, List.length_eq_zero_iff] at hlen
      simp [hlen]
  have hfifo : (x.clock i).state.rx_fifo = x.state.rx_fifo.clock false i.serial.rx_valid
      i.serial.rx_data x.state.rx.rx_fifo_pop := by
    simp only [Session.clock, State.clock, h.quiet]
  have hpop' : (x.clock i).state.rx.rx_fifo_pop = x.state.settles i := h.pop_next.1
  have hmap : (x.clock i).account.waiting.map (·.data) =
      (if x.state.settles i then x.account.waiting.tail else x.account.waiting).map (·.data) ++
        if x.state.rx_fifo.pushAccept i.serial.rx_valid x.state.rx.rx_fifo_pop then
          [i.serial.rx_data] else [] := by
    simp only [Session.clock, Account.clock, State.accepts, List.map_append]
    exact congrArg _ (apply_ite (List.map Arrival.data) _ _ _)
  rw [hrest] at hnext
  rw [hfifo, hpop', hmap]
  cases hs : x.state.settles i with
  | false => exact ⟨[], rfl, hnext⟩
  | true =>
    obtain ⟨-, -, a, rest, hw⟩ := h.head_of_settles hs
    rw [hw] at hnext
    exact ⟨[a.data], rfl, by simpa [hw] using hnext⟩

/-! ### The ledger -/

/-- The byte of this clock has a number of its own. -/
theorem arrival_new (h : Sound x) (b : Byte) :
    Arrival.mk x.account.arrivals.length b ∉ x.account.arrivals := by
  intro hmem
  have := List.mem_map_of_mem (f := (·.number)) hmem
  rw [h.numbered, List.mem_range] at this
  exact Nat.lt_irrefl _ this

/-- What the fate of the head makes of the ledger. -/
theorem settled_ledger (h : Sound x) (i : Input) :
    let head := x.account.waiting.take 1
    let dropped := x.account.dropped ++ if x.state.rxDrains then head else []
    let stored := x.account.stored ++
      if x.state.rxResponds i && i.m_axi_bresp == 0 then head else []
    let refused := x.account.refused ++
      if x.state.rxResponds i && i.m_axi_bresp != 0 then head else []
    let waiting := if x.state.settles i then x.account.waiting.tail else x.account.waiting
    Ledger.Valid ⟨x.account.arrivals, dropped⟩ ∧
      Ledger.kept ⟨x.account.arrivals, dropped⟩ = stored ++ refused ++ waiting := by
  have hvalid : Ledger.Valid ⟨x.account.arrivals, x.account.dropped⟩ := h.ledger
  have horder : Ledger.kept ⟨x.account.arrivals, x.account.dropped⟩ =
    x.account.stored ++ x.account.refused ++ x.account.waiting := h.order
  cases hs : x.state.settles i with
  | false =>
    have hs' := hs
    simp only [State.settles, Bool.or_eq_false_iff] at hs'
    refine ⟨by simpa [hs'] using hvalid, ?_⟩
    simpa [hs'] using horder
  | true =>
    obtain ⟨hpop, hhalt, a, rest, hw⟩ := h.head_of_settles hs
    have hrefused : x.account.refused = [] :=
      h.refused.resolve_right fun hr => by simp [hhalt] at hr
    rw [hw, hrefused, List.append_nil] at horder
    cases hd : x.state.rxDrains with
    | true =>
      have hn : x.state.rxResponds i = false := by
        simp only [State.rxDrains, Bool.and_eq_true] at hd
        simp [State.rxResponds, (State.rxReady_iff.mp hd.1).2.2.1]
      refine ⟨by simpa [hw] using hvalid.drop horder, ?_⟩
      simpa [hw, hn, hrefused] using hvalid.kept_drop horder
    | false =>
      have hn : x.state.rxResponds i = true := by simpa [State.settles, hd] using hs
      refine ⟨by simpa using hvalid, ?_⟩
      by_cases hb : i.m_axi_bresp = 0#2
      · simpa [hw, hn, hb, hrefused] using horder
      · simpa [hw, hn, hb, hrefused] using horder

theorem accepts_valid (hacc : x.state.accepts i = true) : i.serial.rx_valid = true := by
  simp only [State.accepts, SyncFifo.pushAccept, Bool.and_eq_true] at hacc
  exact hacc.1

/-- The ledger and the order of the kept bytes after a clock. -/
theorem ledger_next (h : Sound x) (i : Input) :
    (x.clock i).account.ledger.Valid ∧ (x.clock i).account.ledger.kept =
      (x.clock i).account.stored ++ (x.clock i).account.refused ++
        (x.clock i).account.waiting := by
  obtain ⟨hvalid, hkept⟩ := h.settled_ledger i
  have hnew := h.arrival_new i.serial.rx_data
  simp only [Session.clock, Account.clock, Account.ledger]
  cases hv : i.serial.rx_valid with
  | false =>
    have hacc : x.state.accepts i = false := by
      by_contra hacc
      simp [accepts_valid (by simpa using hacc)] at hv
    refine ⟨by simpa using hvalid, ?_⟩
    simpa [hacc] using hkept
  | true =>
    cases hacc : x.state.accepts i with
    | true =>
      refine ⟨by simpa using hvalid.accept hnew, ?_⟩
      have haccept := hvalid.kept_accept hnew
      rw [hkept] at haccept
      simpa using haccept
    | false =>
      refine ⟨by simpa using hvalid.reject hnew, ?_⟩
      have hreject := hkept
      rw [← Ledger.kept_reject hnew] at hreject
      simpa using hreject

theorem numbered_next (h : Sound x) (i : Input) :
    (x.clock i).account.arrivals.map (·.number) =
      List.range (x.clock i).account.arrivals.length := by
  simp only [Session.clock, Account.clock]
  cases i.serial.rx_valid with
  | false => simpa using h.numbered
  | true => simp [h.numbered, List.range_succ]

/-! ### Counters -/

/-- **Dropped bytes and the overflow counter**: besides the bytes dropped it counts the
contested ones. -/
theorem overflow_next (h : Sound x) (hr : x.Runs i) :
    (x.clock i).state.errors.overflow_error_count = BitVec.ofNat 16
      ((x.clock i).account.dropped.length + (x.clock i).account.contested) := by
  have hp := h.quiet
  have hcount : (x.clock i).state.errors.overflow_error_count =
      if x.state.rxOverflows i || x.state.rxDrains then x.state.errors.overflow_error_count + 1
      else x.state.errors.overflow_error_count := by
    simp [Session.clock, State.clock, State.errorsNext, hp]
  -- a drain and a full FIFO do not fall on the same byte
  have hapart : x.state.rxDrains = true → x.state.rxOverflows i = false := by
    intro hd
    by_contra ho
    simp only [Bool.not_eq_false, State.rxOverflows, Bool.and_eq_true] at ho
    simp only [State.rxDrains, Bool.and_eq_true] at hd
    obtain ⟨-, hhalt, ha, -, -⟩ := State.rxReady_iff.mp hd.1
    obtain ⟨hpop, -⟩ := h.head_of_ready hd.1
    have hfull := (h.holds_waiting hpop).full_iff.mp ho.2
    rw [List.length_map] at hfull
    have hspaced := hr.spaced ho.1
    rcases h.idle ha hpop hhalt with hlt | hrecent
    · omega
    · simp [hspaced] at hrecent
  have hdrop : (if x.state.rxDrains then x.account.waiting.take 1 else []).length =
      x.state.rxDrains.toNat := by
    cases hd : x.state.rxDrains with
    | false => rfl
    | true =>
      obtain ⟨-, -, a, rest, hw⟩ := h.head_of_settles (i := i) (by simp [State.settles, hd])
      simp [hw]
  have hreject : (if (i.serial.rx_valid && !x.state.accepts i) = true then
      [Arrival.mk x.account.arrivals.length i.serial.rx_data] else []).length =
      (i.serial.rx_valid && !x.state.accepts i).toNat := by
    cases i.serial.rx_valid && !x.state.accepts i <;> rfl
  have hfate : (i.serial.rx_valid && !x.state.accepts i).toNat + (x.state.contests i).toNat =
      (x.state.rxOverflows i).toNat := by
    have hempty : x.state.rx_fifo.full = true → x.state.rx_fifo.empty = false := by
      obtain ⟨popped, -, hholds⟩ := h.fifo
      intro hfull
      by_contra hnil
      rw [Bool.not_eq_false, hholds.empty_iff] at hnil
      have := hholds.full_iff.mp hfull
      simp [hnil] at this
    simp only [State.accepts, State.contests, State.rxOverflows, SyncFifo.pushAccept,
      SyncFifo.popAccept]
    cases i.serial.rx_valid <;> cases hfull : x.state.rx_fifo.full <;>
      cases x.state.rx.rx_fifo_pop <;> simp [hempty, hfull]
  have hlen : (x.clock i).account.dropped.length + (x.clock i).account.contested =
      x.account.dropped.length + x.account.contested +
        (x.state.rxOverflows i || x.state.rxDrains).toNat := by
    simp only [Session.clock, Account.clock, List.length_append, hdrop, hreject]
    cases hd : x.state.rxDrains with
    | false => simp only [Bool.or_false, Bool.toNat_false]; omega
    | true =>
      rw [hapart hd] at hfate ⊢
      simp only [Bool.or_true, Bool.toNat_true, Bool.toNat_false] at hfate ⊢
      omega
  rw [hcount, hlen, h.overflow]
  cases x.state.rxOverflows i || x.state.rxDrains with
  | false => simp
  | true => simp [BitVec.ofNat_add]

/-! ### The ring -/

/-- The write answered is the one in progress. -/
theorem answered (h : Sound x) (hn : x.state.rxResponds i = true) :
    ∃ a rest, x.account.waiting = a :: rest ∧ x.account.bus.answered =
      some (Store.ofByte (x.position x.account.stored.length) a.data) := by
  obtain ⟨ha, hb, -⟩ := State.rxResponds_iff.mp hn
  obtain ⟨-, -, -, a, rest, hw, hstore⟩ := h.active ha
  obtain ⟨haw, hwd⟩ := h.writes.response hb
  refine ⟨a, rest, hw, ?_⟩
  rw [Bus.answered, haw, hwd, ← hstore]

theorem refused_next (h : Sound x) (i : Input) : (x.clock i).account.refused = [] ∨
    (x.clock i).account.refused.length = 1 ∧ (x.clock i).state.rx.rx_dma_halted = true := by
  have hhalted : (x.clock i).state.rx.rx_dma_halted = (x.state.rx.rx_dma_halted ||
      (x.state.rxResponds i && i.m_axi_bresp != 0)) := (State.rxNext_counts h.quiet).2
  rw [hhalted]
  simp only [Session.clock, Account.clock]
  cases hbad : x.state.rxResponds i && i.m_axi_bresp != 0 with
  | false => simpa using h.refused
  | true =>
    have hn : x.state.rxResponds i = true := (Bool.and_eq_true_iff.mp hbad).1
    obtain ⟨-, hhalt, a, rest, hw⟩ := h.head_of_settles (i := i) (by simp [State.settles, hn])
    have hrefused : x.account.refused = [] :=
      h.refused.resolve_right fun hr => by simp [hhalt] at hr
    simp [hrefused, hw]

theorem produced_next (h : Sound x) (i : Input) :
    (x.clock i).state.rx.rx_produced = BitVec.ofNat 32 (x.clock i).account.stored.length := by
  have hproduced : (x.clock i).state.rx.rx_produced =
      if x.state.rxResponds i && i.m_axi_bresp == 0 then x.state.rx.rx_produced + 1
      else x.state.rx.rx_produced := (State.rxNext_counts h.quiet).1
  rw [hproduced, h.produced]
  simp only [Session.clock, Account.clock]
  cases hok : x.state.rxResponds i && i.m_axi_bresp == 0 with
  | false => simp
  | true =>
    have hn : x.state.rxResponds i = true := (Bool.and_eq_true_iff.mp hok).1
    obtain ⟨a, rest, hw, -⟩ := h.answered hn
    simp [hw, BitVec.ofNat_add]

theorem consumed_next (h : Sound x) (hr : x.Runs i) :
    (x.clock i).state.control.rx_consumed = BitVec.ofNat 32 (x.clock i).account.consumed ∧
      (x.clock i).account.consumed ≤ x.account.stored.length := by
  have hle := released_le hr h.quiet
  have hc := h.consumed_le
  rw [h.produced_sub_consumed] at hle
  refine ⟨?_, show x.account.consumed + x.state.released ≤ _ by omega⟩
  show x.state.controlNext.rx_consumed = BitVec.ofNat 32 (x.account.consumed + x.state.released)
  rw [BitVec.ofNat_add, ← h.consumed, State.released, BitVec.ofNat_toNat, BitVec.setWidth_eq,
    BitVec.add_comm, BitVec.sub_add_cancel]

/-- The stores and the memory of an enabled clock. -/
theorem ring_next (h : Sound x) (i : Input) (he : x.state.control.uart_enable = true) :
    (x.clock i).account.stores = ((x.clock i).account.stored.mapIdx fun k a =>
        Store.ofByte (x.position k) a.data) ∧
      (ringMemory x.state.control.rx_ring_base (x.clock i).account.memory).Retains
        x.state.control.rx_ring_size.toNat (x.clock i).account.consumed
        ((x.clock i).account.stored.map (·.data)) := by
  have hring := h.ring he
  have hrelease : x.account.consumed ≤ (x.clock i).account.consumed := Nat.le_add_right _ _
  simp only [Session.clock, Account.clock] at hrelease ⊢
  cases hok : x.state.rxResponds i && i.m_axi_bresp == 0 with
  | false => exact ⟨by simpa using h.stores, by simpa using hring.release hrelease⟩
  | true =>
    have hn : x.state.rxResponds i = true := (Bool.and_eq_true_iff.mp hok).1
    obtain ⟨-, -, hlt, -⟩ := h.active (State.rxResponds_iff.mp hn).1
    obtain ⟨a, rest, hw, hans⟩ := h.answered hn
    have hstore := retains_store (h.size he) hring (by simpa using h.consumed_le)
      (by simpa using hlt) a.data
    rw [List.length_map] at hstore
    refine ⟨by simp [hw, hans, h.stores, List.mapIdx_append], ?_⟩
    simpa [hw, hans, Store.ofByte_apply, Session.position] using hstore.release hrelease

/-- The write in progress after a clock. -/
theorem active_next (h : Sound x) (ha : (x.state.rxNext i).rx_write_active = true) :
    x.state.control.uart_enable = true ∧ (x.state.rxNext i).rx_dma_halted = false ∧
      (x.clock i).account.stored = x.account.stored ∧
      x.account.stored.length < x.account.consumed + x.state.control.rx_ring_size.toNat ∧
      ∃ a rest, (x.clock i).account.waiting = a :: rest ∧
        Store.mk (x.state.rxNext i).rx_write_address (x.state.rxNext i).rx_write_data
          (x.state.rxNext i).rx_write_strobe =
            Store.ofByte (x.position x.account.stored.length) a.data := by
  have hp := h.quiet
  have hs : x.state.settles i = false := by
    by_contra hs
    simp [h.pop_next.2.2 (by simpa using hs)] at ha
  have hn : x.state.rxResponds i = false := (Bool.or_eq_false_iff.mp hs).2
  have hd : x.state.rxDrains = false := (Bool.or_eq_false_iff.mp hs).1
  have hstored : (x.clock i).account.stored = x.account.stored := by
    simp [Session.clock, Account.clock, hn]
  have hwaiting (a : Arrival) (rest : List Arrival) (hw : x.account.waiting = a :: rest) :
      ∃ rest', (x.clock i).account.waiting = a :: rest' := by
    simp only [Session.clock, Account.clock, hs, hw]
    exact ⟨_, rfl⟩
  cases hact : x.state.rx.rx_write_active with
  | true =>
    obtain ⟨he, hhalt, hlt, a, rest, hw, hstore⟩ := h.active hact
    obtain ⟨rest', hw'⟩ := hwaiting a rest hw
    rw [State.rxNext_wait hp hact hn]
    exact ⟨he, hhalt, hstored, hlt, a, rest', hw', hstore⟩
  | false =>
    have hready : x.state.rxReady = true := by
      by_contra hr
      rw [State.rxNext_idle hp hact (by simpa using hr)] at ha
      simp [hact] at ha
    have hfull : x.state.rxRingFull = false := by
      simpa [State.rxDrains, hready] using hd
    obtain ⟨he, hhalt, -, -, -⟩ := State.rxReady_iff.mp hready
    obtain ⟨hpop, a, rest, hw⟩ := h.head_of_ready hready
    obtain ⟨rest', hw'⟩ := hwaiting a rest hw
    have hlt : x.account.stored.length <
        x.account.consumed + x.state.control.rx_ring_size.toNat := by
      by_contra hge
      simp [h.ringFull_iff.mpr (by omega)] at hfull
    have hdata : x.state.rx_fifo.popData = a.data := by
      have hholds := h.holds_waiting hpop
      rw [hw] at hholds
      exact hholds.popData
    have haddress : x.state.rxAddress = x.position x.account.stored.length := by
      rw [State.rxAddress, h.produced]
      rfl
    rw [State.rxNext_issue hp (State.rxIssues_iff.mpr ⟨hready, hfull⟩), haddress, hdata]
    exact ⟨he, hhalt, hstored, hlt, a, rest', hw', rfl⟩

/-- An idle channel leaves room in the FIFO. -/
theorem idle_next (h : Sound x) (ha : (x.state.rxNext i).rx_write_active = false)
    (hpop' : (x.state.rxNext i).rx_fifo_pop = false)
    (hhalt' : (x.state.rxNext i).rx_dma_halted = false) :
    (x.clock i).account.waiting.length < 16 ∨ (x.clock i).account.recent = true := by
  have hp := h.quiet
  have hs : x.state.settles i = false := by rw [← h.pop_next.1, hpop']
  have hn : x.state.rxResponds i = false := (Bool.or_eq_false_iff.mp hs).2
  have hact : x.state.rx.rx_write_active = false := by
    by_contra hact
    rw [State.rxNext_wait hp (by simpa using hact) hn] at ha
    exact hact ha
  have hready : x.state.rxReady = false := by
    by_contra hready
    simp only [Bool.not_eq_false] at hready
    have hfull : x.state.rxRingFull = false := by
      simpa [State.settles, State.rxDrains, hready, hn] using hs
    simp [State.rxNext_issue hp (State.rxIssues_iff.mpr ⟨hready, hfull⟩)] at ha
  rw [State.rxNext_idle hp hact hready] at hhalt'
  have hhalt : x.state.rx.rx_dma_halted = false := hhalt'
  cases hv : i.serial.rx_valid with
  | true => exact .inr hv
  | false =>
    have hacc : x.state.accepts i = false := by
      by_contra hacc
      simp [accepts_valid (by simpa using hacc)] at hv
    have hwaiting : (x.clock i).account.waiting = x.account.waiting := by
      simp [Session.clock, Account.clock, hs, hacc]
    left
    rw [hwaiting]
    cases hpop : x.state.rx.rx_fifo_pop with
    | true =>
      -- the popped byte was one of at most 16
      obtain ⟨popped, hlen, hholds⟩ := h.fifo
      have := hholds.length_le
      rw [List.length_append, List.length_map, hlen, hpop] at this
      simp at this
      omega
    | false =>
      cases he : x.state.control.uart_enable with
      | false => simp [(h.disabled he).2.2]
      | true =>
        have hempty : x.state.rx_fifo.empty = true := by
          simpa [State.rxReady, he, hhalt, hact, h.delay, hpop] using hready
        have := (h.holds_waiting hpop).empty_iff.mp hempty
        rw [List.map_eq_nil_iff] at this
        simp [this]

/-- Before the peripheral is enabled nothing has been received. -/
theorem disabled_next (h : Sound x) (hr : x.Runs i) (he : x.state.control.uart_enable = false) :
    (x.state.rxNext i).rx_write_active = false ∧ (x.clock i).account.stored = [] ∧
      (x.clock i).account.waiting = [] ∧ (x.clock i).account.stores = [] := by
  obtain ⟨hact, hstored, hwaiting⟩ := h.disabled he
  have hready : x.state.rxReady = false := by simp [State.rxReady, he]
  have hn : x.state.rxResponds i = false := by simp [State.rxResponds, hact]
  have hacc : x.state.accepts i = false := by
    by_contra hacc
    simp [hr.enabled (accepts_valid (by simpa using hacc))] at he
  have hstores : x.account.stores = [] := by simpa [hstored] using h.stores
  rw [State.rxNext_idle h.quiet hact hready]
  simp [Session.clock, Account.clock, State.settles, State.rxDrains, hact, hready, hn, hacc,
    hstored, hwaiting, hstores]

/-! ### One clock, and a run -/

theorem clock (h : Sound x) (hr : x.Runs i) : Sound (x.clock i) := by
  obtain ⟨hvalid, hkept⟩ := h.ledger_next i
  obtain ⟨hconsumed, hle⟩ := h.consumed_next hr
  have hpop := h.pop_next (i := i)
  have hon : x.state.control.uart_enable = true → x.state.controlNext.uart_enable = true :=
    fun he => controlNext_enable he hr.no_reset (hr.no_disable he)
  have hoff : x.state.controlNext.uart_enable = false → x.state.control.uart_enable = false := by
    intro hnext
    by_contra he
    simp [hon (by simpa using he)] at hnext
  have hposition (he : x.state.control.uart_enable = true) (k : ℕ) :
      (x.clock i).position k = x.position k := by
    obtain ⟨hbase, hsize⟩ := (controlNext_ring he).1
    show ringAddress x.state.controlNext.rx_ring_base x.state.controlNext.rx_ring_size _ = _
    rw [hbase, hsize]
    rfl
  exact {
    quiet := by
      show x.state.controlNext.soft_reset_pulse = false
      rw [State.controlNext_pulse, hr.no_reset]
    writes := h.writes.clock fun hp => by simp [h.quiet] at hp
    delay := hpop.2.1.trans hpop.1.symm
    popping := fun hp => hpop.2.2 (hpop.1.symm.trans hp)
    numbered := h.numbered_next i
    ledger := hvalid
    order := hkept
    fifo := h.fifo_next
    refused := h.refused_next i
    produced := h.produced_next i
    stores := by
      cases he : x.state.control.uart_enable with
      | true =>
        simp only [hposition he]
        exact (h.ring_next i he).1
      | false =>
        obtain ⟨-, hstored, -, hstores⟩ := h.disabled_next hr he
        simp [hstored, hstores]
    consumed := hconsumed
    consumed_le := hle.trans (by simp [Session.clock, Account.clock])
    disabled := fun hnext => by
      obtain ⟨hact, hstored, hwaiting, -⟩ := h.disabled_next hr (hoff hnext)
      exact ⟨hact, hstored, hwaiting⟩
    size := fun hnext => by
      show ringSizeValid x.state.controlNext.rx_ring_size = true
      cases he : x.state.control.uart_enable with
      | true => rw [(controlNext_ring he).1.2]; exact h.size he
      | false => exact (controlNext_enabled he hnext).1
    ring := fun _ => by
      show (ringMemory x.state.controlNext.rx_ring_base _).Retains
        x.state.controlNext.rx_ring_size.toNat _ _
      cases he : x.state.control.uart_enable with
      | true =>
        rw [(controlNext_ring he).1.1, (controlNext_ring he).1.2]
        exact (h.ring_next i he).2
      | false =>
        have hstored := (h.disabled_next hr he).2.1
        have hnone : (x.clock i).account.consumed = 0 := by
          rw [(h.disabled he).2.1] at hle
          exact Nat.le_zero.mp hle
        rw [hstored, hnone]
        exact Memory.retains_nil _ _
    active := fun ha => by
      obtain ⟨he, hhalt, hstored, hlt, a, rest, hw, hstore⟩ := h.active_next ha
      refine ⟨hon he, hhalt, ?_, a, rest, hw, ?_⟩
      · show _ < _ + x.state.controlNext.rx_ring_size.toNat
        rw [hstored, (controlNext_ring he).1.2]
        exact Nat.lt_of_lt_of_le hlt (Nat.add_le_add_right (Nat.le_add_right _ _) _)
      · rw [hstored, hposition he]
        exact hstore
    idle := h.idle_next
    overflow := h.overflow_next hr }

/-- Every state of a run is sound. -/
theorem of_reachable {P : Session → Input → Prop} (hP : ∀ x i, P x i → x.Runs i)
    (h : (receiving P).Reachable x) : Sound x :=
  h.driven_invariant (Q := Sound) (fun _ hs => start hs) fun y j hy hj => hy.clock (hP y j hj)

end Sound

/-- Without contest the counter counts the bytes dropped. -/
theorem contested_zero {x : Session}
    (h : (receiving fun x i => x.Runs i ∧ x.Uncontested i).Reachable x) :
    x.account.contested = 0 := by
  refine h.driven_invariant (Q := fun y => y.account.contested = 0) ?_ ?_
  · rintro _ ⟨_, _, _, rfl⟩
    rfl
  · intro y j hy hj
    have hnone : y.state.contests j = false := hj.2
    simp [Session.clock, Account.clock, hy, hnone]

/-- **The receive path loses and miscounts nothing** in every run in which no byte comes in
while the full FIFO is popped. -/
theorem receive_intact {x : Session}
    (h : (receiving fun x i => x.Runs i ∧ x.Uncontested i).Reachable x) :
    x.Intact ∧ x.Counted := by
  have hs : Sound x := .of_reachable (fun _ _ hj => hj.1) h
  refine ⟨hs.intact, ?_⟩
  rw [Session.Counted, hs.overflow, contested_zero h, Nat.add_zero]

/-- In any run the counter is right exactly if the contested clocks are a multiple of 65536. -/
theorem counted_iff {x : Session} (h : (receiving Session.Runs).Reachable x) :
    x.Counted ↔ x.account.contested % 65536 = 0 := by
  have hs : Sound x := .of_reachable (fun _ _ hj => hj) h
  rw [Session.Counted, hs.overflow, ← BitVec.toNat_inj, BitVec.toNat_ofNat, BitVec.toNat_ofNat]
  omega

/-! ## Runs -/

instance (x : Session) (i : Input) : Decidable (x.Runs i) :=
  decidable_of_iff (_ ∧ _ ∧ _ ∧ _ ∧ _) ⟨fun ⟨a, b, c, d, e⟩ => ⟨a, b, c, d, e⟩,
    fun ⟨a, b, c, d, e⟩ => ⟨a, b, c, d, e⟩⟩

instance (x : Session) (i : Input) : Decidable (x.Uncontested i) :=
  inferInstanceAs (Decidable (_ = _))

def Session.fresh : Session := ⟨.reset (fun _ => 0) fun _ => 0, { memory := fun _ => 0 }⟩

theorem Session.fresh_start : Session.fresh.Start := ⟨_, _, _, rfl⟩

/-- The write of the first byte stalls until the FIFO is full and one more byte is dropped; then
two bytes are stored, and another one comes in. -/
def droppedRun : List Input :=
  [registerWrite 0x00 1, .idle] ++
    (List.range 17).flatMap (fun k => [Input.byte (BitVec.ofNat 8 k), Input.idle]) ++
    [Input.accept, Input.okay, Input.idle, Input.byte 0x41, Input.accept, Input.okay]

theorem receive_intact_dropped :
    (droppedRun.foldl Session.clock .fresh).account.stored = [⟨0, 0⟩, ⟨1, 1⟩] ∧
    (droppedRun.foldl Session.clock .fresh).account.dropped = [⟨16, 16⟩] ∧
    (droppedRun.foldl Session.clock .fresh).account.waiting.length = 15 ∧
    (droppedRun.foldl Session.clock .fresh).Intact ∧
    (droppedRun.foldl Session.clock .fresh).Counted :=
  ⟨by decide +kernel, by decide +kernel, by decide +kernel, receive_intact
    (Transition.Admits.reachable (by decide +kernel) (.start Session.fresh_start))⟩

/-- The write of the first byte stalls until the FIFO is full; the next byte comes in while
the first is popped. -/
def contestedRun : List Input :=
  [registerWrite 0x00 1, .idle] ++
    (List.range 16).flatMap (fun k => [Input.byte (BitVec.ofNat 8 k), Input.idle]) ++
    [Input.accept, Input.okay, Input.byte 0x10]

/-- **The counter counts a byte that is not lost**: of 17 bytes none is dropped, and the
counter reads one. -/
theorem contested_counted :
    ∃ x, (receiving Session.Runs).Reachable x ∧ x.account.arrivals.length = 17 ∧
      x.account.dropped = [] ∧ x.account.stored.length + x.account.waiting.length = 17 ∧
      x.state.errors.overflow_error_count = 1 := by
  have hadmits : Transition.Admits Session.clock Session.Runs .fresh contestedRun := by
    decide +kernel
  refine ⟨_, hadmits.reachable (.start Session.fresh_start), ?_⟩
  decide +kernel

end Atoman.UartDma
