import Atoman.Lib.StreamRing

/-!
# The FIFO of the UART peripheral

`uart_sync_fifo` holds up to `2 ^ w` elements in a memory with two pointers and a count.
It takes one push and one pop in the same clock, also when it is full. `Holds` says that
the registers hold a queue; `Holds.clock` is what one clock does to it.
-/

namespace Atoman.UartDma
open Lib
variable {w : ℕ} {α : Type*}

/-- The registers, `w` is ADDR_WIDTH. -/
structure SyncFifo (w : ℕ) (α : Type*) where
  memory : Memory α
  write_pointer : BitVec w
  read_pointer : BitVec w
  item_count : BitVec (w + 1)

namespace SyncFifo
variable (f : SyncFifo w α)

def empty : Bool := f.item_count == 0
def full : Bool := f.item_count == BitVec.ofNat (w + 1) (2 ^ w)
def popData : α := f.memory f.read_pointer.toNat
def popAccept (pop : Bool) : Bool := pop && !f.empty
def pushAccept (push pop : Bool) : Bool := push && (!f.full || f.popAccept pop)

/-- Reset and clear leave the memory as it is. -/
def clear : SyncFifo w α := { f with write_pointer := 0, read_pointer := 0, item_count := 0 }

def clock (clear push : Bool) (push_data : α) (pop : Bool) : SyncFifo w α :=
  if clear then f.clear
  else
    { memory := if f.pushAccept push pop then f.memory.write f.write_pointer.toNat [push_data]
        else f.memory
      write_pointer := if f.pushAccept push pop then f.write_pointer + 1 else f.write_pointer
      read_pointer := if f.popAccept pop then f.read_pointer + 1 else f.read_pointer
      item_count := match f.pushAccept push pop, f.popAccept pop with
        | true, false => f.item_count + 1
        | false, true => f.item_count - 1
        | _, _ => f.item_count }

/-- Of the elements pushed since the last clear, the memory keeps those from `lo` on. -/
structure Streams (lo : ℕ) (pushed : List α) : Prop where
  le : lo ≤ pushed.length
  retains : f.memory.Retains (2 ^ w) lo pushed
  write_pointer : f.write_pointer.toNat = pushed.length % 2 ^ w
  read_pointer : f.read_pointer.toNat = lo % 2 ^ w
  item_count : f.item_count.toNat = pushed.length - lo

/-- The registers hold a queue. -/
def Holds (q : List α) : Prop := ∃ lo pushed, f.Streams lo pushed ∧ q = pushed.drop lo

variable {f} {q : List α}

theorem holds_clear : f.clear.Holds [] := by
  refine ⟨0, [], ⟨Nat.le_refl _, Memory.retains_nil _ _, ?_, ?_, ?_⟩, rfl⟩
  all_goals simp [clear]

theorem Holds.item_count (h : f.Holds q) : f.item_count.toNat = q.length := by
  obtain ⟨lo, pushed, hs, rfl⟩ := h
  rw [hs.item_count, List.length_drop]

theorem Holds.length_le (h : f.Holds q) : q.length ≤ 2 ^ w := by
  obtain ⟨lo, pushed, hs, rfl⟩ := h
  have hlen := hs.retains.length_le
  have hpos := Nat.two_pow_pos w
  rw [List.length_drop]
  omega

theorem Holds.empty_iff (h : f.Holds q) : f.empty = true ↔ q = [] := by
  rw [empty, beq_iff_eq, ← BitVec.toNat_inj, h.item_count]
  simp

theorem Holds.full_iff (h : f.Holds q) : f.full = true ↔ q.length = 2 ^ w := by
  have hlt : 2 ^ w < 2 ^ (w + 1) := Nat.pow_lt_pow_right (by omega) (by omega)
  rw [full, beq_iff_eq, ← BitVec.toNat_inj, h.item_count, BitVec.toNat_ofNat, Nat.mod_eq_of_lt hlt]

theorem Holds.popData {x : α} (h : f.Holds (x :: q)) : f.popData = x := by
  obtain ⟨lo, pushed, hs, hq⟩ := h
  have hlt : lo < pushed.length := by
    have := congrArg List.length hq
    simp at this
    omega
  have hget := hs.retains.get lo hlt (Nat.le_refl _)
  rw [List.drop_eq_getElem_cons hlt] at hq
  rw [SyncFifo.popData, hs.read_pointer, hget, (List.cons.inj hq).1]

/-- A full FIFO takes a push with a pop. -/
theorem Holds.pushAccept_iff (h : f.Holds q) (push pop : Bool) :
    f.pushAccept push pop = true ↔ push = true ∧ (q.length < 2 ^ w ∨ (pop = true ∧ q ≠ [])) := by
  have hle := h.length_le
  have hfull := h.full_iff
  have hempty := h.empty_iff
  have hroom : f.full = false ↔ q.length < 2 ^ w := by
    rw [← Bool.not_eq_true, hfull]
    omega
  have hsome : f.empty = false ↔ q ≠ [] := by rw [← Bool.not_eq_true, hempty]
  simp [pushAccept, popAccept, hroom, hsome]

theorem succ_pointer (p : BitVec w) {n : ℕ} (h : p.toNat = n % 2 ^ w) :
    (p + 1).toNat = (n + 1) % 2 ^ w := by
  simp [BitVec.toNat_add, h, Nat.add_mod]

/-- The popped element leaves the stream that is kept. -/
theorem Streams.pop {lo : ℕ} {pushed : List α} (h : f.Streams lo pushed)
    (hlt : lo < pushed.length) :
    SyncFifo.Streams { f with read_pointer := f.read_pointer + 1, item_count := f.item_count - 1 }
      (lo + 1) pushed where
  le := hlt
  retains := h.retains.release (Nat.le_succ lo)
  write_pointer := h.write_pointer
  read_pointer := succ_pointer _ h.read_pointer
  item_count := by
    have hc := h.item_count
    have hlen := h.retains.length_le
    have hpow : 2 ^ (w + 1) = 2 * 2 ^ w := by omega
    have hpos := Nat.two_pow_pos w
    have hone : (1 : BitVec (w + 1)).toNat = 1 := by simp
    rw [BitVec.toNat_sub_of_le (by rw [BitVec.le_def, hone]; omega), hone]
    omega

/-- The pushed element is written behind the stream. -/
theorem Streams.push {lo : ℕ} {pushed : List α} (h : f.Streams lo pushed) (x : α)
    (hroom : pushed.length < lo + 2 ^ w) :
    SyncFifo.Streams
      { f with
        memory := f.memory.write f.write_pointer.toNat [x]
        write_pointer := f.write_pointer + 1
        item_count := f.item_count + 1 } lo (pushed ++ [x]) where
  le := by
    have := h.le
    simp
    omega
  retains := by
    have hpos := Nat.two_pow_pos w
    have hlt : pushed.length % 2 ^ w < 2 ^ w := Nat.mod_lt _ hpos
    have hroom : pushed.length + [x].length ≤ lo + 2 ^ w := by
      simp
      omega
    have happend := h.retains.append hpos h.le hroom
    have hwrap : f.memory.wrapWrite (2 ^ w) (pushed.length % 2 ^ w) [x] =
        f.memory.write f.write_pointer.toNat [x] := by
      rw [Memory.wrapWrite, List.take_of_length_le (by simp; omega),
        List.drop_of_length_le (by simp; omega), Memory.write_nil, h.write_pointer]
    rwa [hwrap] at happend
  write_pointer := by
    rw [List.length_append, List.length_singleton]
    exact succ_pointer _ h.write_pointer
  read_pointer := h.read_pointer
  item_count := by
    have hc := h.item_count
    have hle := h.le
    have hpow : 2 ^ (w + 1) = 2 * 2 ^ w := by omega
    have hone : (1 : BitVec (w + 1)).toNat = 1 := by simp
    rw [BitVec.toNat_add_of_lt (by omega), hone, List.length_append, List.length_singleton]
    omega

/-- **One clock of the FIFO**: the head leaves with a pop, an accepted push comes in behind
the last element. -/
theorem Holds.clock (h : f.Holds q) (push : Bool) (x : α) (pop : Bool) :
    (f.clock false push x pop).Holds
      ((if pop then q.tail else q) ++ if f.pushAccept push pop then [x] else []) := by
  have haccept := h.pushAccept_iff push pop
  have hempty := h.empty_iff
  obtain ⟨lo, pushed, hs, rfl⟩ := h
  have hle := hs.le
  rw [List.length_drop] at haccept
  rcases Nat.eq_or_lt_of_le hle with hall | hlt
  · -- nothing to pop
    have hnil : pushed.drop lo = [] := List.drop_of_length_le hall.ge
    have hpop : f.popAccept pop = false := by simp [popAccept, hempty.mpr hnil]
    have hpos := Nat.two_pow_pos w
    cases hpush : f.pushAccept push pop with
    | false =>
      refine ⟨lo, pushed, ?_, by simp [hnil]⟩
      simpa [SyncFifo.clock, hpop, hpush] using hs
    | true =>
      refine ⟨lo, pushed ++ [x], ?_, ?_⟩
      · simpa [SyncFifo.clock, hpop, hpush] using hs.push x (by omega)
      · rw [List.drop_append_of_le_length hle, hnil]
        simp
  · have hne : pushed.drop lo ≠ [] := by simpa using hlt
    have hpop : f.popAccept pop = pop := by
      have : f.empty = false := by rwa [← Bool.not_eq_true, hempty]
      simp [popAccept, this]
    cases pop with
    | false =>
      cases hpush : f.pushAccept push false with
      | false =>
        refine ⟨lo, pushed, ?_, by simp⟩
        simpa [SyncFifo.clock, hpop, hpush] using hs
      | true =>
        have hroom := (haccept.mp hpush).2
        simp only [Bool.false_eq_true, false_and, or_false] at hroom
        refine ⟨lo, pushed ++ [x], ?_, ?_⟩
        · simpa [SyncFifo.clock, hpop, hpush] using hs.push x (by omega)
        · rw [List.drop_append_of_le_length hle]
          simp
    | true =>
      have hpopped := hs.pop hlt
      cases hpush : f.pushAccept push true with
      | false =>
        refine ⟨lo + 1, pushed, ?_, by simp⟩
        simpa [SyncFifo.clock, hpop, hpush] using hpopped
      | true =>
        have hlen := hs.retains.length_le
        have hboth := hpopped.push x (by omega)
        refine ⟨lo + 1, pushed ++ [x], ?_, ?_⟩
        · simpa [SyncFifo.clock, hpop, hpush, BitVec.sub_add_cancel] using hboth
        · rw [List.drop_append_of_le_length hlt]
          simp

end SyncFifo
end Atoman.UartDma
