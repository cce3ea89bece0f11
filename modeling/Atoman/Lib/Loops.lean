import Mathlib.Data.List.Basic

/-!
# Counted loops and arrays changed in place

A loop `for (i = 0; i < n; i++)` is a function of the state before it, with the rule
for its invariant. An array of fixed length is changed one entry at a time; a loop
that changes each entry once changes them all.
-/

namespace Atoman.Lib
universe u

/-! ## Loops -/

section loops
variable {σ : Type u}

/-- `for (i = 0; i < n; i++) s = f(i, s)` -/
def loop : ℕ → (ℕ → σ → σ) → σ → σ
  | 0, _, s => s
  | n + 1, f, s => f n (loop n f s)

@[simp] theorem loop_zero (f : ℕ → σ → σ) (s : σ) : loop 0 f s = s := rfl

@[simp] theorem loop_succ (n : ℕ) (f : ℕ → σ → σ) (s : σ) :
    loop (n + 1) f s = f n (loop n f s) := rfl

/-- The rule for the invariant of a loop. -/
theorem loop_invariant {P : ℕ → σ → Prop} {n : ℕ} {f : ℕ → σ → σ} {s : σ} (hstart : P 0 s)
    (hstep : ∀ i s, i < n → P i s → P (i + 1) (f i s)) : P n (loop n f s) := by
  induction n with
  | zero => exact hstart
  | succ n ih =>
    exact hstep n _ (Nat.lt_succ_self n) (ih fun i s hi => hstep i s (Nat.lt_succ_of_lt hi))

end loops

/-! ## Arrays -/

section arrays
variable {α : Type u} {n : ℕ}

/-- `a[i] = f(a[i])` -/
def modifyAt (a : Vector α n) (i : ℕ) (f : α → α) : Vector α n :=
  if h : i < n then a.set i (f a[i]) else a

section read
variable [Inhabited α]

theorem getElem!_modifyAt (a : Vector α n) (i : ℕ) (f : α → α) (j : ℕ) :
    (modifyAt a i f)[j]! = if i = j ∧ j < n then f a[j]! else a[j]! := by
  unfold modifyAt
  split
  · next hi =>
    by_cases hj : j < n
    · simp only [getElem!_pos, hj, Vector.getElem_set, and_true]
      split
      · next heq => subst heq; rfl
      · rfl
    · simp only [getElem!_neg, hj, not_false_eq_true, and_false, if_false]
  · next hi =>
    rw [if_neg]
    rintro ⟨rfl, hj⟩
    exact hi hj

theorem getElem!_modifyAt_self (a : Vector α n) {i : ℕ} (f : α → α) (hi : i < n) :
    (modifyAt a i f)[i]! = f a[i]! := by
  rw [getElem!_modifyAt, if_pos ⟨rfl, hi⟩]

theorem getElem!_modifyAt_of_ne (a : Vector α n) {i j : ℕ} (f : α → α) (h : i ≠ j) :
    (modifyAt a i f)[j]! = a[j]! := by
  rw [getElem!_modifyAt, if_neg fun hij => h hij.1]

/-- **Each entry once.** A loop that changes the entries from `c` on. -/
theorem getElem!_loop_modifyAt (a : Vector α n) (f : ℕ → α → α) (c k j : ℕ) (hk : c + k ≤ n) :
    (loop k (fun i a => modifyAt a (i + c) (f i)) a)[j]! =
      if c ≤ j ∧ j < c + k then f (j - c) a[j]! else a[j]! := by
  induction k with
  | zero =>
    rw [loop_zero, if_neg]
    omega
  | succ k ih =>
    have ih := ih (by omega)
    rw [loop_succ, getElem!_modifyAt, ih]
    by_cases hj : k + c = j
    · rw [if_pos ⟨hj, by omega⟩, if_neg (by omega), if_pos (by omega), ← hj, Nat.add_sub_cancel]
    · rw [if_neg fun h => hj h.1]
      by_cases hin : c ≤ j ∧ j < c + k
      · rw [if_pos hin, if_pos (by omega)]
      · rw [if_neg hin, if_neg (by omega)]

end read

theorem modifyAt_comm (a : Vector α n) (i j : ℕ) {f g : α → α} (h : ∀ x, f (g x) = g (f x)) :
    modifyAt (modifyAt a i f) j g = modifyAt (modifyAt a j g) i f := by
  ext k hk
  simp only [modifyAt]
  grind

theorem modifyAt_modifyAt_self (a : Vector α n) (i : ℕ) {f : α → α} (h : ∀ x, f (f x) = x) :
    modifyAt (modifyAt a i f) i f = a := by
  ext k hk
  simp only [modifyAt]
  grind

end arrays

end Atoman.Lib
