import Mathlib.Algebra.Order.Ring.Nat
import Mathlib.Tactic.Ring

/-!
# Searching a circle

A search looks at the places of a circle one after the other, from the one after the last
that it stopped at, and stops at the first that asks. Each stop brings it nearer to a place
that goes on asking.
-/

namespace Atoman.Lib.Rotation
variable {n t m i : ℕ}

/-- The place `i` comes `m` places after `t` on a circle of `n`. -/
structure Ahead (n t m i : ℕ) : Prop where
  pos : 1 ≤ m
  le : m ≤ n
  place : (t + m) % n = i

theorem exists_ahead (t : ℕ) (hi : i < n) : ∃ m, Ahead n t m i := by
  have ht : t % n < n := Nat.mod_lt _ (by omega)
  have hsum : ∀ m, (t + m) % n = (t % n + m) % n := by
    intro m
    rw [Nat.mod_add_mod]
  by_cases h : t % n < i
  · refine ⟨i - t % n, by omega, by omega, ?_⟩
    rw [hsum, show t % n + (i - t % n) = i by omega, Nat.mod_eq_of_lt hi]
  · refine ⟨n + i - t % n, by omega, by omega, ?_⟩
    rw [hsum, show t % n + (n + i - t % n) = i + n by omega, Nat.add_mod_right,
      Nat.mod_eq_of_lt hi]

/-- Only the place itself is a whole turn ahead. -/
theorem Ahead.lt_of_ne (h : Ahead n t m i) (ht : t < n) (hne : t ≠ i) : m < n := by
  refine lt_of_le_of_ne h.le ?_
  rintro rfl
  apply hne
  rw [← h.place, Nat.add_mod_right, Nat.mod_eq_of_lt ht]

/-- Moving on brings what is ahead nearer. -/
theorem Ahead.move {j : ℕ} (h : Ahead n t m i) (hj : j < m) : Ahead n ((t + j) % n) (m - j) i := by
  have hle := h.le
  refine ⟨by omega, by omega, ?_⟩
  rw [Nat.mod_add_mod, show t + j + (m - j) = t + m by omega, h.place]

/-- Look at up to `k` places; the place where the search ends, and whether that one asks. -/
def search (asks : ℕ → Bool) (n : ℕ) : ℕ → ℕ → ℕ × Bool
  | 0, t => (t, false)
  | k + 1, t => if asks ((t + 1) % n) then ((t + 1) % n, true) else search asks n k ((t + 1) % n)

variable {asks : ℕ → Bool}

/-- Where a search stops: the first place that asks. -/
structure Stops (asks : ℕ → Bool) (n t k m : ℕ) : Prop where
  pos : 1 ≤ m
  le : m ≤ k
  stop : asks ((t + m) % n) = true
  first : ∀ j, 1 ≤ j → j < m → asks ((t + j) % n) = false

/-- The places after the next one. -/
theorem next_add (n t j : ℕ) : ((t + 1) % n + j) % n = (t + (j + 1)) % n := by
  rw [Nat.mod_add_mod, show t + 1 + j = t + (j + 1) by ring]

/-- A search stops at the first place that asks, or none of the places does. -/
theorem search_spec (asks : ℕ → Bool) (k t : ℕ) (ht : t < n) :
    (∃ m, Stops asks n t k m ∧ search asks n k t = ((t + m) % n, true)) ∨
      (∀ j, 1 ≤ j → j ≤ k → asks ((t + j) % n) = false) ∧
        search asks n k t = ((t + k) % n, false) := by
  induction k generalizing t with
  | zero =>
    refine .inr ⟨by omega, ?_⟩
    rw [search, Nat.add_zero, Nat.mod_eq_of_lt ht]
  | succ k ih =>
    by_cases hask : asks ((t + 1) % n) = true
    · exact .inl ⟨1, ⟨le_rfl, by omega, hask, by omega⟩, by rw [search, if_pos hask]⟩
    have hnot : asks ((t + 1) % n) = false := by simpa using hask
    have hlt : (t + 1) % n < n := Nat.mod_lt _ (by omega)
    rw [search, if_neg hask]
    rcases ih ((t + 1) % n) hlt with ⟨m, hstop, heq⟩ | ⟨hnone, heq⟩
    · refine .inl ⟨m + 1, ⟨by omega, Nat.succ_le_succ hstop.le, ?_, ?_⟩, ?_⟩
      · rw [← next_add]
        exact hstop.stop
      · intro j hj hlast
        rcases Nat.eq_or_lt_of_le hj with rfl | hj
        · exact hnot
        · obtain ⟨j, rfl⟩ : ∃ i, j = i + 1 := ⟨j - 1, by omega⟩
          rw [← next_add]
          exact hstop.first j (by omega) (by omega)
      · rw [heq, next_add]
    · refine .inr ⟨?_, ?_⟩
      · intro j hj hle
        rcases Nat.eq_or_lt_of_le hj with rfl | hj
        · exact hnot
        · obtain ⟨j, rfl⟩ : ∃ i, j = i + 1 := ⟨j - 1, by omega⟩
          rw [← next_add]
          exact hnone j (by omega) (by omega)
      · rw [heq, next_add]

/-- A place that asks is not passed. -/
theorem Stops.le_ahead {k : ℕ} {d : ℕ} (h : Stops asks n t k m) (hi : Ahead n t d i)
    (hasks : asks i = true) : m ≤ d := by
  by_contra hlt
  have hfalse := h.first d hi.pos (by omega)
  rw [hi.place, hasks] at hfalse
  contradiction

end Atoman.Lib.Rotation
