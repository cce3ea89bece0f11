import Atoman.Lib.StreamRing
import Atoman.Lib.Transition

/-!
# The transmit ring of the debug USART

Messages are stored in the ring under the interrupt lock; a DMA channel drains it in contiguous
chunks. The channel is not held up by the lock, so it reads its bytes at any time, also while a
message is stored. BSP_USART_TX_RING_SIZE is 1024.
-/

namespace Atoman.Usart
open Lib

/-- DMA0 channel 3. -/
structure Dma where
  /-- the cell of the next byte -/
  address : ℕ
  /-- the bytes still to transfer -/
  number : ℕ
  /-- DMA_INT_FLAG_FTF -/
  full_transfer : Bool
  /-- how many transfers were started so far -/
  started : ℕ

/-- `s_bsp_usart_tx_*` and the channel. -/
structure Tx where
  ring : Memory UInt8
  head : Fin 1024
  tail : Fin 1024
  inflight : ℕ
  busy : Bool
  drop_count : UInt32
  dma : Dma

namespace Tx

/-- `bsp_usart_tx_ring_free` -/
def ringFree (s : Tx) : ℕ :=
  if s.tail ≤ s.head then 1024 - (s.head - s.tail : ℕ) - 1 else s.tail - s.head - 1

/-- `bsp_usart_tx_ring_used` -/
def ringUsed (s : Tx) : ℕ :=
  if s.tail ≤ s.head then s.head - s.tail else 1024 - s.tail + s.head

/-- `bsp_usart_tx_dma_kick` -/
def dmaKick (s : Tx) : Tx :=
  let count := s.ringUsed
  if s.busy ∨ count = 0 then s
  else
    -- split at the ring wrap
    let part := if 1024 - s.tail > count then count else 1024 - s.tail
    { s with
      dma := { s.dma with address := s.tail, number := part, started := s.dma.started + 1 }
      inflight := part
      busy := true }

/-- One round of the loop in `bsp_usart_dbg_enqueue`. -/
def store (s : Tx) (b : UInt8) : Tx :=
  { s with ring := s.ring.write s.head [b], head := ⟨(s.head + 1) % 1024, by omega⟩ }

/-- `bsp_usart_dbg_tx_irq_handler` -/
def irqHandler (s : Tx) : Tx :=
  if s.dma.full_transfer then
    dmaKick { s with
      dma := { s.dma with full_transfer := false }
      tail := ⟨(s.tail + s.inflight) % 1024, by omega⟩
      busy := false }
  else s

/-- The channel reads one byte; with the last one it raises its flag. -/
def transfer (s : Tx) : Tx :=
  { s with dma := { s.dma with
      address := s.dma.address + 1
      number := s.dma.number - 1
      full_transfer := s.dma.full_transfer || s.dma.number == 1 } }

/-- How many bytes of the chunk in flight were read. -/
def transferred (s : Tx) : ℕ := if s.busy then s.inflight - s.dma.number else 0

/-- The bytes of the ring that the channel has not read, in order. -/
def unsent (s : Tx) : List UInt8 :=
  (List.range (s.ringUsed - s.transferred)).map fun i =>
    s.ring ((s.tail + s.transferred + i) % 1024)

end Tx

/-! ## Sessions -/

/-- The driver, the message that is being stored, and what went in and out. -/
structure Session where
  tx : Tx
  /-- in the lock, what is left of the message -/
  entering : Option (List UInt8)
  /-- the messages that found room -/
  accepted : List (List UInt8)
  /-- the bytes the channel has read -/
  sent : List UInt8

/-- What can happen next. -/
inductive Event
  /-- `bsp_usart_dbg_enqueue` is called, up to its loop -/
  | enqueue (p_data : Option (List UInt8))
  /-- the call goes on: it stores a byte, or starts the channel and returns -/
  | resume
  /-- the interrupt of the channel -/
  | interrupt
  /-- the channel reads a byte -/
  | transfer

namespace Session

/-- The bytes of the current message that are not in the ring yet. -/
def rest (s : Session) : List UInt8 := s.entering.getD []

def enqueue (s : Session) (data : List UInt8) : Session :=
  if data.length = 0 then s
  else if s.tx.ringFree < data.length then
    { s with tx := { s.tx with drop_count := s.tx.drop_count + 1 } }
  else { s with entering := some data, accepted := s.accepted ++ [data] }

def exec (s : Session) : Event → Session
  | .enqueue none => s
  | .enqueue (some data) => s.enqueue data
  | .resume =>
    match s.entering with
    | some (b :: bs) => { s with tx := s.tx.store b, entering := some bs }
    | some [] => { s with tx := s.tx.dmaKick, entering := none }
    | none => s
  | .interrupt => { s with tx := s.tx.irqHandler }
  | .transfer => { s with tx := s.tx.transfer, sent := s.sent ++ [s.tx.ring s.tx.dma.address] }

/-- The lock keeps other calls and the interrupt out; the channel only waits for work. -/
def Allowed (s : Session) : Event → Prop
  | .enqueue _ | .interrupt => s.entering = none
  | .resume => s.entering ≠ none
  | .transfer => 0 < s.tx.dma.number

instance : ∀ s e, Decidable (Allowed s e)
  | s, .enqueue _ => inferInstanceAs (Decidable (s.entering = none))
  | s, .interrupt => inferInstanceAs (Decidable (s.entering = none))
  | s, .resume => inferInstanceAs (Decidable (s.entering ≠ none))
  | s, .transfer => inferInstanceAs (Decidable (0 < s.tx.dma.number))

/-- After reset, whatever the memory holds. -/
structure Start (s : Session) : Prop where
  head : s.tx.head = 0
  tail : s.tx.tail = 0
  busy : s.tx.busy = false
  number : s.tx.dma.number = 0
  full_transfer : s.tx.dma.full_transfer = false
  entering : s.entering = none
  accepted : s.accepted = []
  sent : s.sent = []

/-- Calls, interrupts and the channel in any order. -/
def system : Transition Session := Transition.driven Start exec Allowed

end Session

/-! ## Where the ring stands in the stream -/

/-- `done` bytes of the stream have left the ring, `bytes` were stored, `rest` more will be. -/
structure Tx.Stands (s : Tx) (done : ℕ) (bytes : List UInt8) (rest : ℕ) : Prop where
  tail : s.tail.val = done % 1024
  head : s.head.val = bytes.length % 1024
  done_le : done ≤ bytes.length
  room : bytes.length + rest < done + 1024
  retains : s.ring.Retains 1024 done bytes

/-- A chunk is with the channel, which has handed over `sent`. -/
structure Tx.InFlight (s : Tx) (done : ℕ) (bytes sent : List UInt8) : Prop where
  busy : s.busy = true
  stored : done + s.inflight ≤ bytes.length
  contiguous : done % 1024 + s.inflight ≤ 1024
  number_le : s.dma.number ≤ s.inflight
  address : s.dma.address = done % 1024 + (s.inflight - s.dma.number)
  full_transfer : s.dma.full_transfer = true ↔ s.dma.number = 0
  sent : sent = bytes.take (done + (s.inflight - s.dma.number))

/-- The channel has nothing to do. -/
structure Tx.Idle (s : Tx) (done : ℕ) (bytes sent : List UInt8) : Prop where
  busy : s.busy = false
  number : s.dma.number = 0
  full_transfer : s.dma.full_transfer = false
  sent : sent = bytes.take done

namespace Tx
variable {s : Tx} {done rest : ℕ} {bytes sent : List UInt8}

theorem Stands.ringUsed (h : s.Stands done bytes rest) : s.ringUsed = bytes.length - done := by
  have htail := h.tail
  have hhead := h.head
  have hle := h.done_le
  have hroom := h.room
  have hfin := @Fin.le_def 1024 s.tail s.head
  rw [Tx.ringUsed]
  split <;> omega

theorem Stands.ringFree (h : s.Stands done bytes rest) :
    s.ringFree + (bytes.length - done) = 1024 - 1 := by
  have htail := h.tail
  have hhead := h.head
  have hle := h.done_le
  have hroom := h.room
  have hfin := @Fin.le_def 1024 s.tail s.head
  rw [Tx.ringFree]
  split <;> omega

/-- A byte is stored behind the last. -/
theorem Stands.store (h : s.Stands done bytes (rest + 1)) (b : UInt8) :
    (s.store b).Stands done (bytes ++ [b]) rest := by
  have hroom := h.room
  have hlen : (bytes ++ [b]).length = bytes.length + 1 := by simp
  refine ⟨h.tail, ?_, by have := h.done_le; omega, by omega, ?_⟩
  · show (s.head.val + 1) % 1024 = _
    rw [h.head, hlen]
    omega
  · have hcapacity : bytes.length + [b].length ≤ done + 1024 := by
      rw [List.length_singleton]
      omega
    have happend := h.retains.append (by decide) h.done_le hcapacity
    rw [Memory.wrapWrite_singleton _ (Nat.mod_lt _ (by decide)), ← h.head] at happend
    exact happend

/-- The cell for the next byte is none of those in use. -/
theorem Stands.head_ne (h : s.Stands done bytes (rest + 1)) {i : ℕ} (hi : i < s.ringUsed) :
    (s.tail + i) % 1024 ≠ s.head := by
  have hroom := h.room
  rw [h.ringUsed] at hi
  rw [h.head, h.tail]
  omega

/-- After a kick a chunk is with the channel, or there is nothing to send. -/
theorem Idle.dmaKick (h : s.Idle done bytes sent) (hs : s.Stands done bytes 0) :
    s.dmaKick.InFlight done bytes sent ∨
      s.dmaKick.Idle done bytes sent ∧ bytes.length = done := by
  have hused := hs.ringUsed
  have htail := hs.tail
  rcases Nat.eq_zero_or_pos s.ringUsed with hzero | hpos
  · have hkick : s.dmaKick = s := if_pos (.inr hzero)
    rw [hkick]
    exact .inr ⟨h, by have := hs.done_le; omega⟩
  · have hkick : ¬(s.busy = true ∨ s.ringUsed = 0) := by simp [h.busy]; omega
    left
    rw [Tx.dmaKick, if_neg hkick]
    generalize hpart : (if 1024 - s.tail > s.ringUsed then s.ringUsed
      else 1024 - s.tail.val) = part
    have hle : part ≤ s.ringUsed ∧ part ≤ 1024 - s.tail.val ∧ 0 < part := by
      have := s.tail.isLt
      split at hpart <;> omega
    have htaillt := s.tail.isLt
    refine ⟨rfl, ?_, ?_, Nat.le_refl _, ?_, ?_, ?_⟩
    · show done + part ≤ bytes.length
      omega
    · show done % 1024 + part ≤ 1024
      omega
    · show s.tail.val = done % 1024 + (part - part)
      omega
    · show s.dma.full_transfer = true ↔ part = 0
      rw [h.full_transfer]
      simp
      omega
    · show sent = bytes.take (done + (part - part))
      rw [Nat.sub_self]
      exact h.sent

/-- A kick leaves the ring as it is. -/
theorem Stands.dmaKick (h : s.Stands done bytes rest) : s.dmaKick.Stands done bytes rest := by
  rw [Tx.dmaKick]
  split
  · exact h
  · exact ⟨h.tail, h.head, h.done_le, h.room, h.retains⟩

theorem InFlight.dmaKick (h : s.InFlight done bytes sent) : s.dmaKick = s := if_pos (.inl h.busy)

/-- The interrupt takes the finished chunk off the ring. -/
theorem Stands.finish (h : s.Stands done bytes rest) (hs : s.InFlight done bytes sent)
    (hflag : s.dma.full_transfer = true) :
    let t := { s with
      dma := { s.dma with full_transfer := false }
      tail := ⟨(s.tail + s.inflight) % 1024, by omega⟩
      busy := false }
    t.Stands (done + s.inflight) bytes rest ∧ t.Idle (done + s.inflight) bytes sent := by
  have hstored := hs.stored
  have hnumber := hs.full_transfer.mp hflag
  have hsent := hs.sent
  rw [hnumber, Nat.sub_zero] at hsent
  refine ⟨⟨?_, h.head, hstored, by have := h.room; omega, h.retains.release (by omega)⟩,
    rfl, hnumber, rfl, hsent⟩
  show (s.tail.val + s.inflight) % 1024 = _
  rw [h.tail]
  omega

/-- The channel reads the next byte of the stream. -/
theorem InFlight.transfer (h : s.InFlight done bytes sent) (hs : s.Stands done bytes rest)
    (hpos : 0 < s.dma.number) :
    s.transfer.InFlight done bytes (sent ++ [s.ring s.dma.address]) := by
  have hle := h.number_le
  have hstored := h.stored
  have hwrap := h.contiguous
  refine ⟨h.busy, h.stored, h.contiguous, ?_, ?_, ?_, ?_⟩
  · show s.dma.number - 1 ≤ s.inflight
    omega
  · show s.dma.address + 1 = done % 1024 + (s.inflight - (s.dma.number - 1))
    rw [h.address]
    omega
  · have hflag : s.dma.full_transfer = false := by
      rw [← Bool.not_eq_true, h.full_transfer]
      omega
    simp only [Tx.transfer, hflag, Bool.false_or, beq_iff_eq]
    omega
  · have hcell : s.dma.address = (done + (s.inflight - s.dma.number)) % 1024 := by
      rw [h.address]
      omega
    show _ = bytes.take (done + (s.inflight - (s.dma.number - 1)))
    have hnext : done + (s.inflight - (s.dma.number - 1)) =
        done + (s.inflight - s.dma.number) + 1 := by omega
    rw [hcell, hs.retains.get _ (by omega) (by omega), h.sent, hnext,
      List.take_succ_eq_append_getElem]

/-- Storing a byte does not disturb the channel. -/
theorem InFlight.store (h : s.InFlight done bytes sent) (b : UInt8) :
    (s.store b).InFlight done (bytes ++ [b]) sent := by
  have hstored := h.stored
  refine ⟨h.busy, by simp [Tx.store]; omega, h.contiguous, h.number_le, h.address,
    h.full_transfer, ?_⟩
  show sent = _
  rw [List.take_append_of_le_length (by simp [Tx.store]; omega)]
  exact h.sent

theorem Idle.store (h : s.Idle done bytes sent) (hle : done ≤ bytes.length) (b : UInt8) :
    (s.store b).Idle done (bytes ++ [b]) sent :=
  ⟨h.busy, h.number, h.full_transfer, by rw [List.take_append_of_le_length hle]; exact h.sent⟩

/-- What the channel has read is what it is not to read any more. -/
theorem sent_append_unsent (h : s.Stands done bytes rest)
    (hs : s.InFlight done bytes sent ∨ s.Idle done bytes sent) : sent ++ s.unsent = bytes := by
  have hused := h.ringUsed
  have hle := h.done_le
  have hread : sent = bytes.take (done + s.transferred) ∧ done + s.transferred ≤ bytes.length := by
    rcases hs with hs | hs
    · rw [transferred, if_pos hs.busy]
      exact ⟨hs.sent, by have := hs.stored; omega⟩
    · rw [transferred, if_neg (by simp [hs.busy])]
      exact ⟨hs.sent, hle⟩
  have hunsent : s.unsent = bytes.drop (done + s.transferred) := by
    rw [← h.retains.rest (Nat.le_add_right done _), unsent, hused, Nat.sub_sub]
    refine List.map_congr_left fun i _ => ?_
    rw [h.tail]
    congr 1
    omega
  rw [hread.1, hunsent, List.take_append_drop]

end Tx

/-! ## Every session -/

namespace Session
variable {s : Session} {done : ℕ} {bytes : List UInt8}

/-- `done` bytes have left the ring, `bytes` have entered it. -/
structure Holds (s : Session) (done : ℕ) (bytes : List UInt8) : Prop where
  flatten : bytes ++ s.rest = s.accepted.flatten
  stands : s.tx.Stands done bytes s.rest.length
  channel : s.tx.InFlight done bytes s.sent ∨
    s.tx.Idle done bytes s.sent ∧ (s.entering = none → bytes.length = done)

theorem Start.holds (h : Start s) : s.Holds 0 [] := by
  have hrest : s.rest = [] := by rw [rest, h.entering]; rfl
  refine ⟨by simp [hrest, h.accepted], ⟨?_, ?_, Nat.le_refl _, ?_, Memory.retains_nil _ _⟩,
    .inr ⟨⟨h.busy, h.number, h.full_transfer, h.sent⟩, fun _ => rfl⟩⟩
  · rw [h.tail]; rfl
  · rw [h.head]; rfl
  · simp [hrest]

theorem Holds.enqueue (h : s.Holds done bytes) (hlock : s.entering = none) (data : List UInt8) :
    (s.enqueue data).Holds done bytes := by
  have hrest : s.rest = [] := by rw [rest, hlock]; rfl
  have hstands := h.stands
  have hflatten := h.flatten
  rw [hrest] at hstands hflatten
  unfold Session.enqueue
  split
  · exact h
  split
  · exact ⟨h.flatten, ⟨h.stands.tail, h.stands.head, h.stands.done_le, h.stands.room,
      h.stands.retains⟩, h.channel.imp (fun hs => { hs with }) fun hs => ⟨{ hs.1 with }, hs.2⟩⟩
  · next hroom =>
    have hfree := hstands.ringFree
    have hle := hstands.done_le
    have hchannel := h.channel.imp_right fun hs => (⟨hs.1, nofun⟩ :
      s.tx.Idle done bytes s.sent ∧ (some data = none → bytes.length = done))
    refine ⟨?_, { hstands with room := ?_ }, hchannel⟩
    · rw [List.append_nil] at hflatten
      simp [rest, hflatten]
    · show bytes.length + data.length < done + 1024
      omega

theorem Holds.resume (h : s.Holds done bytes) (hlock : s.entering ≠ none) :
    ∃ bytes', (s.exec .resume).Holds done bytes' := by
  obtain ⟨todo, htodo⟩ := Option.ne_none_iff_exists'.mp hlock
  have hstands := h.stands
  have hflatten := h.flatten
  rw [rest, htodo] at hstands hflatten
  cases todo with
  | nil =>
    refine ⟨bytes, ?_⟩
    simp only [exec, htodo]
    refine ⟨hflatten, hstands.dmaKick, ?_⟩
    rcases h.channel with hs | hs
    · rw [hs.dmaKick]
      exact .inl hs
    · exact (hs.1.dmaKick hstands).imp_right fun hidle => ⟨hidle.1, fun _ => hidle.2⟩
  | cons b bs =>
    refine ⟨bytes ++ [b], ?_⟩
    simp only [exec, htodo]
    refine ⟨?_, hstands.store b, h.channel.imp (fun hs => hs.store b)
      fun hs => ⟨hs.1.store hstands.done_le b, nofun⟩⟩
    rw [← hflatten]
    simp [rest]

theorem Holds.interrupt (h : s.Holds done bytes) (hlock : s.entering = none) :
    ∃ done', (s.exec .interrupt).Holds done' bytes := by
  have hrest : s.rest = [] := by rw [rest, hlock]; rfl
  have hstands := h.stands
  rw [hrest] at hstands
  by_cases hflag : s.tx.dma.full_transfer = true
  · rcases h.channel with hs | hs
    · obtain ⟨hstands', hidle⟩ := hstands.finish hs hflag
      refine ⟨done + s.tx.inflight, ?_⟩
      simp only [exec, Tx.irqHandler, if_pos hflag]
      exact ⟨h.flatten, hrest ▸ hstands'.dmaKick,
        (hidle.dmaKick hstands').imp_right fun hidle => ⟨hidle.1, fun _ => hidle.2⟩⟩
    · exact absurd hflag (by simp [hs.1.full_transfer])
  · refine ⟨done, ?_⟩
    simp only [exec, Tx.irqHandler, if_neg hflag]
    exact h

theorem Holds.transfer (h : s.Holds done bytes) (hpos : 0 < s.tx.dma.number) :
    (s.exec .transfer).Holds done bytes := by
  refine ⟨h.flatten, { h.stands with }, ?_⟩
  rcases h.channel with hs | hs
  · exact .inl (hs.transfer h.stands hpos)
  · have := hs.1.number
    omega

theorem holds_of_reachable (h : system.Reachable s) : ∃ done bytes, s.Holds done bytes := by
  refine Transition.Reachable.driven_invariant
    (Q := fun s : Session => ∃ done bytes, s.Holds done bytes) (fun s hs => ⟨0, [], hs.holds⟩) ?_ h
  rintro s e ⟨done, bytes, hs⟩ he
  cases e with
  | enqueue p_data =>
    cases p_data with
    | none => exact ⟨done, bytes, hs⟩
    | some data => exact ⟨done, bytes, hs.enqueue he data⟩
  | resume => exact ⟨done, hs.resume he⟩
  | interrupt =>
    obtain ⟨done', hs'⟩ := hs.interrupt he
    exact ⟨done', bytes, hs'⟩
  | transfer => exact ⟨done, bytes, hs.transfer he⟩

/-- What can be relied on. -/
structure Sound (s : Session) : Prop where
  /-- the channel has the accepted messages in order, but for what is still in the ring and for
  what the current call has not stored -/
  in_order : s.sent ++ s.tx.unsent ++ s.rest = s.accepted.flatten
  /-- a byte goes to a cell that is not in use -/
  not_overwritten : ∀ b bs, s.entering = some (b :: bs) →
    ∀ i < s.tx.ringUsed, (s.tx.tail + i) % 1024 ≠ s.tx.head
  /-- a transfer is started when no other has bytes left -/
  one_at_a_time : ∀ e, Allowed s e → (s.exec e).tx.dma.started ≠ s.tx.dma.started →
    s.tx.dma.number = 0
  /-- a ring with bytes in it has a transfer under way, or one whose interrupt is due -/
  active : s.entering = none → s.tx.head ≠ s.tx.tail →
    s.tx.busy = true ∧ (0 < s.tx.dma.number ∨ s.tx.dma.full_transfer = true)
  /-- a message is taken as a whole, or it leaves no trace but the count of those dropped -/
  whole : ∀ data ≠ [], s.entering = none →
    let t := s.exec (.enqueue (some data))
    (t.accepted = s.accepted ++ [data] ∧ t.rest = data) ∨
      t = { s with tx := { s.tx with drop_count := s.tx.drop_count + 1 } }

theorem Holds.not_overwritten (h : s.Holds done bytes) {b : UInt8} {bs : List UInt8}
    (hentering : s.entering = some (b :: bs)) {i : ℕ} (hi : i < s.tx.ringUsed) :
    (s.tx.tail + i) % 1024 ≠ s.tx.head := by
  have hstands := h.stands
  rw [rest, hentering] at hstands
  exact hstands.head_ne hi

/-- The channel is started by a kick only. -/
theorem dmaKick_started {t : Tx} (h : t.dmaKick.dma.started ≠ t.dma.started) : t.busy = false := by
  by_contra hbusy
  rw [Bool.not_eq_false] at hbusy
  exact h (by rw [Tx.dmaKick, if_pos (.inl hbusy)])

theorem Holds.one_at_a_time (h : s.Holds done bytes) {e : Event}
    (hstarted : (s.exec e).tx.dma.started ≠ s.tx.dma.started) : s.tx.dma.number = 0 := by
  have hidle (hbusy : s.tx.busy = false) : s.tx.dma.number = 0 := by
    rcases h.channel with hs | hs
    · exact nomatch hs.busy.symm.trans hbusy
    · exact hs.1.number
  cases e with
  | enqueue p_data =>
    cases p_data with
    | none => exact (hstarted rfl).elim
    | some data =>
      refine (hstarted ?_).elim
      simp only [exec, Session.enqueue]
      split <;> first | rfl | split <;> rfl
  | resume =>
    simp only [exec] at hstarted
    split at hstarted
    · exact (hstarted rfl).elim
    · exact hidle (dmaKick_started hstarted)
    · exact (hstarted rfl).elim
  | interrupt =>
    rcases h.channel with hs | hs
    · by_cases hflag : s.tx.dma.full_transfer = true
      · exact hs.full_transfer.mp hflag
      · simp only [exec, Tx.irqHandler, if_neg hflag, ne_eq, not_true_eq_false] at hstarted
    · exact hs.1.number
  | transfer => exact (hstarted rfl).elim

theorem Holds.active (h : s.Holds done bytes) (hlock : s.entering = none)
    (hne : s.tx.head ≠ s.tx.tail) :
    s.tx.busy = true ∧ (0 < s.tx.dma.number ∨ s.tx.dma.full_transfer = true) := by
  rcases h.channel with hs | hs
  · refine ⟨hs.busy, ?_⟩
    rw [hs.full_transfer]
    omega
  · refine (hne (Fin.ext ?_)).elim
    rw [h.stands.head, h.stands.tail, hs.2 hlock]

theorem enqueue_whole {data : List UInt8} (hdata : data ≠ []) :
    let t := s.exec (.enqueue (some data))
    (t.accepted = s.accepted ++ [data] ∧ t.rest = data) ∨
      t = { s with tx := { s.tx with drop_count := s.tx.drop_count + 1 } } := by
  have hlen : data.length ≠ 0 := by rwa [ne_eq, List.length_eq_zero_iff]
  simp only [exec, Session.enqueue, if_neg hlen]
  split
  · exact .inr rfl
  · exact .inl ⟨rfl, rfl⟩

/-- **The channel gets the accepted messages in order, and nothing else.** -/
theorem transmits_in_order (h : system.Reachable s) : Sound s := by
  obtain ⟨done, bytes, hs⟩ := holds_of_reachable h
  have hbytes := Tx.sent_append_unsent hs.stands (hs.channel.imp_right And.left)
  exact ⟨by rw [hbytes, hs.flatten], fun _ _ hentering _ hi => hs.not_overwritten hentering hi,
    fun _ _ hstarted => hs.one_at_a_time hstarted, fun hlock hne => hs.active hlock hne,
    fun _ hdata _ => enqueue_whole hdata⟩

/-- After reset, with a ring of zeros. -/
def boot : Session :=
  ⟨⟨fun _ => 0, 0, 0, 0, false, 0, ⟨0, 0, false, 0⟩⟩, none, [], []⟩

/-- Two bytes are stored and one of them is read before the next message comes; a message that is
too long for the ring comes between. -/
def twoMessages : List Event :=
  [.enqueue (some [1, 2]), .resume, .resume, .resume, .transfer,
    .enqueue (some (List.replicate 1024 0)), .enqueue (some [3]), .resume, .transfer, .resume,
    .interrupt, .transfer, .interrupt]

theorem transmits_twoMessages :
    (twoMessages.foldl exec boot).sent = [1, 2, 3] ∧
    (twoMessages.foldl exec boot).accepted = [[1, 2], [3]] ∧
    (twoMessages.foldl exec boot).tx.drop_count = 1 ∧ Sound (twoMessages.foldl exec boot) :=
  ⟨by decide +kernel, by decide +kernel, by decide +kernel,
    transmits_in_order (Transition.Admits.reachable (by decide +kernel)
      (.start ⟨rfl, rfl, rfl, rfl, rfl, rfl, rfl, rfl⟩))⟩

end Session
end Atoman.Usart
