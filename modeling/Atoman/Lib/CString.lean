import Atoman.Lib.Memory
import Mathlib.Data.List.DropRight
import Mathlib.Data.List.TakeWhile

/-!
# C strings in a memory

A string is the cells in front of the first zero. A scan gets the number of cells that it may
look at; where the terminator is among them, that bound plays no part.
-/

namespace Atoman.Lib.Memory
variable {α : Type*} [Zero α]

/-- The string from cell `off` on is `s`, with its terminator behind it. -/
structure HasString (m : Memory α) (off : ℕ) (s : List α) : Prop where
  slice_eq : m.slice off s.length = s
  terminated : m (off + s.length) = 0
  ne_zero : ∀ x ∈ s, x ≠ 0

section Strings
variable {m : Memory α} {off : ℕ} {s : List α}

/-- A zero cell behind cells that are not ends a string. -/
theorem hasString_of_slice {n : ℕ} {rest : List α} (h : m.slice off n = s ++ 0 :: rest)
    (hne : ∀ x ∈ s, x ≠ 0) : m.HasString off s := by
  have hlen : n = s.length + (rest.length + 1) := by
    have hlength := congrArg List.length h
    simpa using hlength
  rw [hlen, slice_append] at h
  obtain ⟨hfront, hback⟩ := List.append_inj h (length_slice m off s.length)
  refine ⟨hfront, ?_, hne⟩
  have hcell := congrArg List.head? hback
  simpa [slice, List.range_succ_eq_map] using hcell

/-- The part of a string behind its first cells. -/
theorem HasString.drop {t : List α} (h : m.HasString off (s ++ t)) :
    m.HasString (off + s.length) t := by
  have hslice := h.slice_eq
  rw [List.length_append, slice_append] at hslice
  refine ⟨(List.append_inj hslice (length_slice m off s.length)).2, ?_, fun x hx => ?_⟩
  · have hzero := h.terminated
    rwa [List.length_append, ← Nat.add_assoc] at hzero
  · exact h.ne_zero x (List.mem_append_right s hx)

theorem HasString.head {x : α} (h : m.HasString off (x :: s)) : m off = x := by
  have hcell := congrArg List.head? h.slice_eq
  simpa [slice, List.range_succ_eq_map] using hcell

theorem HasString.tail {x : α} (h : m.HasString off (x :: s)) : m.HasString (off + 1) s :=
  h.drop (s := [x])

/-- A zero in place of the last cell shortens the string by it. -/
theorem HasString.write_last {x : α} (h : m.HasString off (s ++ [x])) :
    (m.write (off + s.length) [0]).HasString off s := by
  have hslice := h.slice_eq
  rw [List.length_append, slice_append] at hslice
  have hfront := (List.append_inj hslice (length_slice m off s.length)).1
  refine hasString_of_slice (slice_write_extend [0] hfront) ?_
  exact fun y hy => h.ne_zero y (List.mem_append_left [x] hy)

end Strings

/-- `while (n > 0 && p(s[n - 1])) { s[n - 1] = 0; n--; }` -/
def cutBack (p : α → Bool) (s : ℕ) : ℕ → Memory α → Memory α
  | 0, m => m
  | n + 1, m => if p (m (s + n)) = true then cutBack p s n (m.write (s + n) [0]) else m

/-- What is left is the string without its matching end. -/
theorem HasString.cutBack {p : α → Bool} {m : Memory α} {off : ℕ} {s : List α}
    (h : m.HasString off s) : (cutBack p off s.length m).HasString off (s.rdropWhile p) := by
  induction s using List.reverseRecOn generalizing m with
  | nil => exact h
  | append_singleton s x ih =>
    have hx : m (off + s.length) = x := h.drop.head
    rw [List.length_append, List.length_singleton]
    unfold Memory.cutBack
    rw [hx]
    by_cases hp : p x = true
    · rw [if_pos hp, List.rdropWhile_concat_pos p s x hp]
      exact ih h.write_last
    · rw [if_neg hp, List.rdropWhile_concat_neg p s x hp]
      exact h

section Scans
variable [DecidableEq α]

/-- The string from cell `off` on, as far as `room` cells go. -/
def string (m : Memory α) (off room : ℕ) : List α := (m.slice off room).takeWhile (· ≠ 0)

/-- `while (*s && p(*s)) s++;` -/
def skip (p : α → Bool) (m : Memory α) : ℕ → ℕ → ℕ
  | 0, s => s
  | room + 1, s => if m s ≠ 0 ∧ p (m s) = true then skip p m room (s + 1) else s

variable {p : α → Bool} {m : Memory α} {off : ℕ} {s : List α}

/-- Cells with a zero behind them hold the string up to their first zero. -/
theorem hasString_takeWhile {bs : List α} (h : m.slice off (bs.length + 1) = bs ++ [0]) :
    m.HasString off (bs.takeWhile (· ≠ 0)) := by
  have hne : ∀ x ∈ bs.takeWhile (· ≠ 0), x ≠ 0 := by
    intro x hx
    simpa using List.mem_takeWhile_imp hx
  cases hrest : bs.dropWhile (· ≠ 0) with
  | nil =>
    have hall : bs.takeWhile (· ≠ 0) = bs := by
      rw [← List.append_nil (bs.takeWhile _), ← hrest, List.takeWhile_append_dropWhile]
    rw [hall] at hne ⊢
    exact hasString_of_slice h hne
  | cons x rest =>
    have hx : x = 0 := by
      have hstop := List.head?_dropWhile_not (· ≠ 0) bs
      rw [hrest] at hstop
      simpa using hstop
    rw [hx] at hrest
    have hsplit : bs ++ [0] = bs.takeWhile (· ≠ 0) ++ 0 :: (rest ++ [0]) := by
      rw [← List.cons_append, ← hrest, ← List.append_assoc, List.takeWhile_append_dropWhile]
    exact hasString_of_slice (h.trans hsplit) hne

/-- Within enough room the string is what is read. -/
theorem HasString.string_eq (h : m.HasString off s) {room : ℕ} (hroom : s.length < room) :
    m.string off room = s := by
  obtain ⟨k, rfl⟩ := Nat.exists_eq_add_of_lt hroom
  unfold string
  rw [Nat.add_assoc, slice_append, h.slice_eq]
  rw [List.takeWhile_append_of_pos fun x hx => decide_eq_true (h.ne_zero x hx)]
  simp [slice, List.range_succ_eq_map, h.terminated]

/-- The scan stops at the first cell that does not match. -/
theorem HasString.skip_eq (h : m.HasString off s) {room : ℕ} (hroom : s.length < room) :
    skip p m room off = off + (s.takeWhile p).length := by
  induction room generalizing off s with
  | zero => exact absurd hroom (Nat.not_lt_zero _)
  | succ room ih =>
    unfold skip
    cases s with
    | nil =>
      have hzero : m off = 0 := h.terminated
      rw [if_neg (by simp [hzero])]
      rfl
    | cons x s =>
      have hx := h.ne_zero x List.mem_cons_self
      rw [h.head]
      by_cases hp : p x = true
      · have hnext := ih h.tail (Nat.lt_of_succ_lt_succ hroom)
        rw [if_pos ⟨hx, hp⟩, hnext, List.takeWhile_cons_of_pos hp]
        rw [List.length_cons, Nat.add_right_comm, Nat.add_assoc]
      · rw [if_neg fun hand => hp hand.2, List.takeWhile_cons_of_neg hp]
        rfl

/-- What the scan leaves is the string without the matching front. -/
theorem HasString.skip (h : m.HasString off s) {room : ℕ} (hroom : s.length < room) :
    m.HasString (skip p m room off) (s.dropWhile p) := by
  rw [h.skip_eq hroom]
  refine HasString.drop ?_
  rwa [List.takeWhile_append_dropWhile]

end Scans
end Atoman.Lib.Memory
