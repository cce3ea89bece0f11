import Mathlib.Data.List.Nodup
import Mathlib.Data.List.Range
import Mathlib.Data.Nat.ModEq
import Atoman.Lib.Memory

/-!
# Spans in a ring of words

Spans of various lengths follow each other around a ring of `n` words. One that would
run over the end starts again at word zero, and is charged for the words it skips. The
spans are freed from the oldest on.

As long as the charges add up to no more than `n`, no two spans share a word. The
argument counts the words from the oldest span on: each word of each span is so many
steps behind the head, and no two are the same number of steps.
-/

namespace Atoman.Lib

/-! ## Slots -/

/-- The `count` slots of a ring of `n` from `head` on. -/
def ringSlots (n head count : ℕ) : List ℕ := (List.range count).map fun i => (head + i) % n

section slots
variable {n head count : ℕ}

@[simp] theorem length_ringSlots : (ringSlots n head count).length = count := by simp [ringSlots]

theorem ringSlots_succ (n head count : ℕ) :
    ringSlots n head (count + 1) = head % n :: ringSlots n ((head + 1) % n) count := by
  unfold ringSlots
  rw [List.range_succ_eq_map, List.map_cons, List.map_map]
  refine congrArg (_ :: ·) (List.map_congr_left fun i _ => ?_)
  rw [Function.comp_apply, Nat.mod_add_mod, Nat.succ_eq_add_one, Nat.add_right_comm, Nat.add_assoc]

theorem ringSlots_concat (n head count : ℕ) :
    ringSlots n head (count + 1) = ringSlots n head count ++ [(head + count) % n] := by
  unfold ringSlots
  rw [List.range_succ, List.map_append, List.map_singleton]

theorem lt_of_mem_ringSlots (hn : 0 < n) {r : ℕ} (hr : r ∈ ringSlots n head count) : r < n := by
  obtain ⟨i, -, rfl⟩ := List.mem_map.mp hr
  exact Nat.mod_lt _ hn

/-- Numbers of steps below `n` lead to different places. -/
theorem add_mod_inj {p i j : ℕ} (hi : i < n) (hj : j < n) (h : (p + i) % n = (p + j) % n) :
    i = j := by
  exact Nat.ModEq.eq_of_lt_of_lt (Nat.ModEq.add_left_cancel' p h) hi hj

theorem nodup_ringSlots (hcount : count ≤ n) : (ringSlots n head count).Nodup := by
  refine List.Nodup.map_on ?_ List.nodup_range
  intro i hi j hj h
  rw [List.mem_range] at hi hj
  exact add_mod_inj (by omega) (by omega) h

/-- The slot behind the last one is free. -/
theorem next_notMem_ringSlots (hcount : count < n) :
    (head + count) % n ∉ ringSlots n head count := by
  intro hmem
  obtain ⟨i, hi, h⟩ := List.mem_map.mp hmem
  rw [List.mem_range] at hi
  have := add_mod_inj (Nat.lt_trans hi hcount) hcount h
  omega

end slots

/-! ## Spans -/

/-- A span: its first word, its length, and the length with the words skipped in front. -/
structure Span where
  offset : ℕ
  words : ℕ
  charge : ℕ

/-- The span follows position `p`. -/
structure Span.Follows (s : Span) (n p : ℕ) : Prop where
  pos : 0 < s.words
  range_le : s.offset + s.words ≤ n
  place : s.offset = p ∧ s.charge = s.words ∨ s.offset = 0 ∧ s.charge = n - p + s.words

/-- The spans follow each other from position `p` to position `q`. -/
def Laid (n : ℕ) : ℕ → List Span → ℕ → Prop
  | p, [], q => p = q
  | p, s :: ss, q => s.Follows n p ∧ Laid n ((s.offset + s.words) % n) ss q

/-- The charge of all spans. -/
def totalCharge (ss : List Span) : ℕ := (ss.map Span.charge).sum

/-- Two spans share no word. -/
def Span.Apart (s s' : Span) : Prop :=
  s.offset + s.words ≤ s'.offset ∨ s'.offset + s'.words ≤ s.offset

section spans
variable {n p q : ℕ} {s : Span} {ss : List Span}

@[simp] theorem totalCharge_nil : totalCharge [] = 0 := rfl

@[simp] theorem totalCharge_cons : totalCharge (s :: ss) = s.charge + totalCharge ss := by
  simp [totalCharge]

@[simp] theorem totalCharge_concat : totalCharge (ss ++ [s]) = totalCharge ss + s.charge := by
  simp [totalCharge]

/-- A word of a span is so many steps behind the position it follows. -/
theorem Span.Follows.step (h : s.Follows n p) (hp : p < n) {i : ℕ} (hi : i < s.words) :
    (p + (s.charge - s.words + i)) % n = s.offset + i := by
  have hrange := h.range_le
  rcases h.place with ⟨hoffset, hcharge⟩ | ⟨hoffset, hcharge⟩
  · rw [hcharge, Nat.sub_self, Nat.zero_add, hoffset]
    exact Nat.mod_eq_of_lt (by omega)
  · have hwrap : p + (s.charge - s.words + i) = s.offset + i + n := by omega
    rw [hwrap, Nat.add_mod_right]
    exact Nat.mod_eq_of_lt (by omega)

/-- The position behind a span is its charge ahead. -/
theorem Span.Follows.next (h : s.Follows n p) (hp : p < n) :
    (s.offset + s.words) % n = (p + s.charge) % n := by
  rcases h.place with ⟨hoffset, hcharge⟩ | ⟨hoffset, hcharge⟩
  · rw [hoffset, hcharge]
  · have hwrap : p + s.charge = s.offset + s.words + n := by omega
    rw [hwrap, Nat.add_mod_right]

theorem Laid.concat (h : Laid n p ss q) (hs : s.Follows n q) :
    Laid n p (ss ++ [s]) ((s.offset + s.words) % n) := by
  induction ss generalizing p with
  | nil =>
    obtain rfl : p = q := h
    exact ⟨hs, rfl⟩
  | cons _ _ ih => exact ⟨h.1, ih h.2⟩

/-- **Accounting**: the end is the total charge ahead of the start. -/
theorem Laid.end_eq (h : Laid n p ss q) (hp : p < n) : q = (p + totalCharge ss) % n := by
  induction ss generalizing p with
  | nil =>
    obtain rfl : p = q := h
    exact (Nat.mod_eq_of_lt hp).symm
  | cons s ss ih =>
    obtain ⟨hs, hrest⟩ := h
    rw [ih hrest (Nat.mod_lt _ (by omega)), hs.next hp, Nat.mod_add_mod, totalCharge_cons,
      Nat.add_assoc]

theorem Laid.end_lt (h : Laid n p ss q) (hp : p < n) : q < n := by
  rw [h.end_eq hp]
  exact Nat.mod_lt _ (by omega)

/-- Every word is fewer steps behind the start than the total charge. -/
theorem Laid.step (h : Laid n p ss q) (hp : p < n) (hs : s ∈ ss) {i : ℕ} (hi : i < s.words) :
    ∃ k < totalCharge ss, (p + k) % n = s.offset + i := by
  induction ss generalizing p with
  | nil => exact absurd hs List.not_mem_nil
  | cons t ss ih =>
    obtain ⟨ht, hrest⟩ := h
    rw [totalCharge_cons]
    rcases List.mem_cons.mp hs with rfl | hs
    · refine ⟨s.charge - s.words + i, ?_, ht.step hp hi⟩
      have := ht.pos
      rcases ht.place with ⟨-, hcharge⟩ | ⟨-, hcharge⟩ <;> omega
    · obtain ⟨k, hk, hstep⟩ := ih hrest (Nat.mod_lt _ (by omega)) hs
      refine ⟨t.charge + k, by omega, ?_⟩
      rwa [ht.next hp, Nat.mod_add_mod, Nat.add_assoc] at hstep

/-- Two ranges without a common word are apart. -/
theorem Span.apart_of_disjoint {t : Span} (hs : 0 < s.words) (ht : 0 < t.words)
    (h : ∀ i < s.words, ∀ j < t.words, s.offset + i ≠ t.offset + j) : s.Apart t := by
  by_contra hcross
  unfold Span.Apart at hcross
  rw [not_or, Nat.not_le, Nat.not_le] at hcross
  rcases Nat.le_total s.offset t.offset with hle | hle
  · exact h (t.offset - s.offset) (by omega) 0 ht (by omega)
  · exact h 0 hs (s.offset - t.offset) (by omega) (by omega)

theorem Laid.pos (h : Laid n p ss q) (hs : s ∈ ss) : 0 < s.words ∧ s.offset + s.words ≤ n := by
  induction ss generalizing p with
  | nil => exact absurd hs List.not_mem_nil
  | cons t ss ih =>
    rcases List.mem_cons.mp hs with rfl | hs
    · exact ⟨h.1.pos, h.1.range_le⟩
    · exact ih h.2 hs

/-- **Disjoint**: within a total charge of `n`, no two spans share a word. -/
theorem Laid.pairwise_apart (h : Laid n p ss q) (hp : p < n) (htotal : totalCharge ss ≤ n) :
    ss.Pairwise Span.Apart := by
  induction ss generalizing p with
  | nil => exact List.Pairwise.nil
  | cons s ss ih =>
    obtain ⟨hs, hrest⟩ := h
    rw [totalCharge_cons] at htotal
    have hp' : (s.offset + s.words) % n < n := Nat.mod_lt _ (by omega)
    refine List.pairwise_cons.mpr ⟨fun t ht => ?_, ih hrest hp' (by omega)⟩
    refine Span.apart_of_disjoint hs.pos (hrest.pos ht).1 fun i hi j hj heq => ?_
    -- both words are counted from the same position
    obtain ⟨k, hk, hstep⟩ := hrest.step hp' ht hj
    rw [hs.next hp, Nat.mod_add_mod, Nat.add_assoc, ← heq, ← hs.step hp hi] at hstep
    have hcharge : s.charge - s.words + i < s.charge := by
      rcases hs.place with ⟨-, hcharge⟩ | ⟨-, hcharge⟩ <;> omega
    have := add_mod_inj (by omega) (by omega) hstep
    omega

/-- The total charge is the distance of the two ends, or the whole ring. -/
theorem Laid.total_eq (h : Laid n p ss q) (hp : p < n) (htotal : totalCharge ss < n) :
    totalCharge ss = if p ≤ q then q - p else n - p + q := by
  have hend := h.end_eq hp
  by_cases hwrap : p + totalCharge ss < n
  · rw [Nat.mod_eq_of_lt hwrap] at hend
    rw [if_pos (by omega)]
    omega
  · rw [Nat.mod_eq_sub_mod (by omega), Nat.mod_eq_of_lt (by omega)] at hend
    rw [if_neg (by omega)]
    omega

end spans
end Atoman.Lib

/-!
## A ring of blocks of one size

A queue of blocks kept in a memory of `n` slots, each of the size of a block. A slot is
addressed by its first cell.
-/

namespace Atoman.Lib
namespace Memory
variable {α : Type*} {m : Memory α} {size n head : ℕ} {b : List α} {bs : List (List α)}

/-- The blocks are in the slots from `head` on. -/
structure HoldsBlocks (m : Memory α) (size n head : ℕ) (bs : List (List α)) : Prop where
  head_lt : head < n
  length_le : bs.length ≤ n
  block : ∀ i (h : i < bs.length), m.slice ((head + i) % n * size) size = bs[i]

theorem holdsBlocks_nil (m : Memory α) (size : ℕ) (h : head < n) : m.HoldsBlocks size n head [] :=
  ⟨h, Nat.zero_le n, fun _ hi => absurd hi (Nat.not_lt_zero _)⟩

/-- Different slots share no cell. -/
theorem slots_disjoint {i j : ℕ} (h : i ≠ j) : i * size + size ≤ j * size ∨
    j * size + size ≤ i * size := by
  rcases Nat.lt_or_gt_of_ne h with hij | hij
  · exact Or.inl (by rw [← Nat.succ_mul]; exact Nat.mul_le_mul_right size hij)
  · exact Or.inr (by rw [← Nat.succ_mul]; exact Nat.mul_le_mul_right size hij)

/-- **Enqueue**: a block written to the slot behind the last one. -/
theorem HoldsBlocks.push (h : m.HoldsBlocks size n head bs) (hroom : bs.length < n)
    (hb : b.length = size) :
    (m.write ((head + bs.length) % n * size) b).HoldsBlocks size n head (bs ++ [b]) := by
  refine ⟨h.head_lt, by rw [List.length_append]; exact hroom, fun i hi => ?_⟩
  rw [List.length_append, List.length_singleton] at hi
  rcases Nat.lt_succ_iff_lt_or_eq.mp hi with hold | rfl
  · have hne : (head + i) % n ≠ (head + bs.length) % n := by
      intro heq
      have := add_mod_inj (Nat.lt_trans hold hroom) hroom heq
      omega
    rw [List.getElem_append_left hold, ← h.block i hold]
    refine slice_write_disjoint m b ?_
    rw [hb]
    exact slots_disjoint hne
  · rw [List.getElem_concat_length rfl]
    exact slice_write_of_length hb

/-- **Dequeue**: the oldest block is in the slot at the head. -/
theorem HoldsBlocks.pop (h : m.HoldsBlocks size n head (b :: bs)) :
    m.slice (head * size) size = b ∧ m.HoldsBlocks size n ((head + 1) % n) bs := by
  constructor
  · have hfirst := h.block 0 (Nat.zero_lt_succ _)
    rwa [Nat.add_zero, Nat.mod_eq_of_lt h.head_lt] at hfirst
  · have hpos : 0 < n := Nat.lt_of_le_of_lt (Nat.zero_le head) h.head_lt
    refine ⟨Nat.mod_lt _ hpos, Nat.le_of_succ_le h.length_le, fun i hi => ?_⟩
    have hnext := h.block (i + 1) (Nat.succ_lt_succ hi)
    rw [Nat.mod_add_mod, Nat.add_assoc, Nat.add_comm 1 i]
    exact hnext

/-- The address of the next slot, by the comparison with the end of the ring. -/
theorem next_slot (hsize : 0 < size) {i : ℕ} (hi : i < n) :
    (if i * size + size = n * size then 0 else i * size + size) = (i + 1) % n * size := by
  rw [← Nat.succ_mul]
  split
  · next hend =>
    have heq : i + 1 = n := Nat.eq_of_mul_eq_mul_right hsize hend
    rw [heq, Nat.mod_self, Nat.zero_mul]
  · next hinside =>
    have hne : i + 1 ≠ n := fun heq => hinside (by rw [← heq])
    rw [Nat.mod_eq_of_lt (by omega : i + 1 < n)]

end Memory
end Atoman.Lib
