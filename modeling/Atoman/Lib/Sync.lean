import Atoman.Lib.Transition
import Mathlib.Data.Nat.Basic

/-!
# Calls behind a lock that may fail

A call checks its arguments, and tests and sets the flag; it fails if the flag was set, and
leaves again when its work is done. Any number of calls may be in progress, and their steps may
come in any order. At most one of them is inside, so the data only ever change by whole calls.
-/

namespace Atoman.Lib
universe u v w

/-- The flag, the data, and the calls that have passed the flag; the mark says that the work of
a call is done. -/
structure TryLock (δ : Type u) (κ : Type v) where
  flag : Bool
  data : δ
  inside : List (κ × Bool)

namespace TryLock
variable {δ : Type u} {κ : Type v} {ι : Type w}

/-- A call passes the flag, or fails at it, or at the check of its arguments. -/
def enter (s : TryLock δ κ) : Option κ → TryLock δ κ
  | none => s
  | some c => if s.flag = true then s
      else { s with flag := true, inside := s.inside ++ [(c, false)] }

/-- What a call inside does next. -/
inductive Inside (body : κ → δ → δ) (s : TryLock δ κ) : TryLock δ κ → Prop
  | work {c : κ} {i : ℕ} (h : s.inside[i]? = some (c, false)) :
      Inside body s { s with data := body c s.data, inside := s.inside.set i (c, true) }
  | leave {c : κ} {i : ℕ} (h : s.inside[i]? = some (c, true)) :
      Inside body s { s with flag := false, inside := s.inside.eraseIdx i }

/-- The runs from some data. -/
def runs (init : δ → Prop) (check : ι → Option κ) (body : κ → δ → δ) :
    Transition (TryLock δ κ) where
  init := fun s => init s.data ∧ s.flag = false ∧ s.inside = []
  next := fun s s' => (∃ c, s' = s.enter (check c)) ∨ Inside body s s'

variable {init : δ → Prop} {check : ι → Option κ} {body : κ → δ → δ} {s : TryLock δ κ}

/-- At most one call is inside, and the flag says so. -/
structure Exclusive (s : TryLock δ κ) : Prop where
  length_le : s.inside.length ≤ 1
  flag : s.flag = true ↔ s.inside ≠ []

/-- **Mutual exclusion** -/
theorem exclusive (h : (runs init check body).Reachable s) : s.Exclusive := by
  refine h.invariant (P := Exclusive) (fun s hs => ?_) (fun s t hs ht => ?_)
  · obtain ⟨-, hflag, hinside⟩ := hs
    exact ⟨by rw [hinside]; exact Nat.zero_le 1, by simp [hflag, hinside]⟩
  rcases ht with ⟨c, rfl⟩ | hinside
  · unfold enter
    split
    · exact hs
    split
    · exact hs
    · next hfree =>
      have hnil : s.inside = [] := by
        by_contra hne
        exact hfree (hs.flag.mpr hne)
      exact ⟨by simp [hnil], by simp⟩
  · cases hinside with
    | @work c i h =>
      refine ⟨by simpa using hs.length_le, hs.flag.trans ?_⟩
      rw [← List.length_pos_iff, ← List.length_pos_iff, List.length_set]
    | @leave c i h =>
      obtain ⟨hi, -⟩ := List.getElem?_eq_some_iff.mp h
      have hlength : (s.inside.eraseIdx i).length = 0 := by
        rw [List.length_eraseIdx_of_lt hi]
        have hle := hs.length_le
        omega
      rw [List.length_eq_zero_iff] at hlength
      exact ⟨by simp [hlength], by simp [hlength]⟩

/-- **The data** change by whole calls: what every call keeps holds in every run. -/
theorem invariant {P : δ → Prop} (hinit : ∀ d, init d → P d) (hbody : ∀ c d, P d → P (body c d))
    (h : (runs init check body).Reachable s) : P s.data := by
  refine h.invariant (P := fun s => P s.data) (fun s hs => ?_) (fun s t hs ht => ?_)
  · obtain ⟨hdata, -⟩ := hs
    exact hinit _ hdata
  rcases ht with ⟨c, rfl⟩ | hinside
  · unfold enter
    split
    · exact hs
    split
    · exact hs
    · exact hs
  · cases hinside with
    | work _ => exact hbody _ _ hs
    | leave _ => exact hs

end TryLock
end Atoman.Lib
