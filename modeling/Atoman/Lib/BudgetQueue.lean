import Mathlib.Algebra.BigOperators.Group.List.Basic
import Mathlib.Algebra.Order.BigOperators.Group.List
import Mathlib.Algebra.Order.Ring.Nat
import Mathlib.Data.List.TakeWhile

/-!
# A queue whose runner may come back

Items wait in a queue and are served from its front. The one that was served last is the
runner; it may come back to the front, as long as its budget shrinks by that. What waits in
the meantime moves up by every service but those, so it is served after a number of services
that the budgets in front of it bound.
-/

namespace Atoman.Lib
universe u

/-- Those who wait, the budgets, and the runner. -/
structure BudgetQueue (ι : Type u) where
  waiting : List ι
  budget : ι → ℕ
  runner : Option ι

namespace BudgetQueue
variable {ι : Type u}

/-- What happens to the front of the queue. -/
inductive Event (ι : Type u)
  | wait
  | front (i : ι)
  | serve (i : ι)

/-- The item that an event serves. -/
def Event.served : Event ι → Option ι
  | .serve i => some i
  | _ => none

/-- A move of the queue: items leave it or join its end, the runner comes back to the front
with a smaller budget, or the first item is served. -/
inductive Move (q q' : BudgetQueue ι) : Event ι → Prop
  | wait (keep : ι → Bool) (new : List ι) (waiting : q'.waiting = q.waiting.filter keep ++ new)
      (fresh : ∀ i ∈ new, i ∉ q.waiting)
      (budget : ∀ i ∈ q.waiting, keep i = true → q'.budget i = q.budget i)
      (runner : ∀ i, q'.runner = some i → q.runner = some i ∧ q'.budget i = q.budget i) :
      Move q q' .wait
  | front (i : ι) (runner : q.runner = some i) (absent : i ∉ q.waiting)
      (waiting : q'.waiting = i :: q.waiting)
      (budget : ∀ j ∈ q.waiting, q'.budget j = q.budget j) (less : q'.budget i < q.budget i)
      (idle : q'.runner = none) : Move q q' (.front i)
  | serve (i : ι) (new : List ι) (waiting : q.waiting ++ new = i :: q'.waiting)
      (budget : ∀ j ∈ q.waiting, q'.budget j = q.budget j) (runner : q'.runner = some i) :
      Move q q' (.serve i)

variable [DecidableEq ι] {q q' : BudgetQueue ι} {event : Event ι} {i : ι}

/-- The items in front of an item. -/
def ahead (q : BudgetQueue ι) (i : ι) : List ι := q.waiting.takeWhile (· ≠ i)

/-- The services that the budgets allow before that of an item. -/
def rank (q : BudgetQueue ι) (i : ι) : ℕ :=
  ((q.ahead i).map q.budget).sum + (q.runner.elim 0 fun j => q.budget j - 1)

theorem ahead_eq {before behind : List ι} (h : q.waiting = before ++ i :: behind)
    (hi : i ∉ before) :
    q.ahead i = before := by
  have hall : ∀ j ∈ before, decide (j ≠ i) = true := by
    intro j hj
    exact decide_eq_true fun heq => hi (heq ▸ hj)
  rw [ahead, h, List.takeWhile_append_of_pos hall, List.takeWhile_cons_of_neg (by simp),
    List.append_nil]

/-- An item that waits has those in front of it and those behind. -/
theorem exists_split (h : i ∈ q.waiting) :
    ∃ behind, q.waiting = q.ahead i ++ i :: behind ∧ i ∉ q.ahead i := by
  obtain ⟨before, behind, heq, hi⟩ := List.eq_append_cons_of_mem h
  rw [ahead_eq heq hi]
  exact ⟨behind, heq, hi⟩

theorem mem_of_mem_ahead {j : ι} (h : j ∈ q.ahead i) : j ∈ q.waiting :=
  (List.takeWhile_prefix _).subset h

/-- What a move does to the items in front of one that goes on waiting. -/
inductive Shift (q q' : BudgetQueue ι) (i : ι) : Event ι → Prop
  | drop (keep : ι → Bool) (ahead : q'.ahead i = (q.ahead i).filter keep) : Shift q q' i .wait
  | push (j : ι) (ahead : q'.ahead i = j :: q.ahead i) : Shift q q' i (.front j)
  | pop (j : ι) (ahead : q.ahead i = j :: q'.ahead i) : Shift q q' i (.serve j)

theorem Move.shift (h : Move q q' event) (hi : i ∈ q.waiting) (hi' : i ∈ q'.waiting)
    (hserved : event.served ≠ some i) : Shift q q' i event := by
  obtain ⟨behind, hsplit, hnot⟩ := exists_split hi
  cases h with
  | wait keep new waiting fresh budget runner =>
    have hkeep : keep i = true := by
      rw [waiting] at hi'
      rcases List.mem_append.mp hi' with hin | hin
      · exact (List.mem_filter.mp hin).2
      · exact absurd hi (fresh i hin)
    have heq : q'.waiting = (q.ahead i).filter keep ++ i :: (behind.filter keep ++ new) := by
      rw [waiting, hsplit, List.filter_append, List.filter_cons_of_pos hkeep]
      simp
    exact .drop keep (ahead_eq heq fun hin => hnot (List.mem_filter.mp hin).1)
  | front j runner absent waiting budget less idle =>
    have heq : q'.waiting = (j :: q.ahead i) ++ i :: behind := by
      rw [waiting, List.cons_append, ← hsplit]
    have hij : i ≠ j := fun heq => absent (heq ▸ hi)
    exact .push j (ahead_eq heq (List.not_mem_cons_of_ne_of_not_mem hij hnot))
  | serve j new waiting budget runner =>
    rw [hsplit] at waiting
    cases hahead : q.ahead i with
    | nil =>
      rw [hahead] at waiting
      exact absurd (congrArg some (List.cons.inj waiting).1.symm) hserved
    | cons k rest =>
      rw [hahead] at waiting hnot
      obtain ⟨rfl, htail⟩ := List.cons.inj waiting
      have heq : q'.waiting = rest ++ i :: (behind ++ new) := by
        rw [← htail]
        simp
      refine .pop k ?_
      rw [hahead, ahead_eq heq fun hin => hnot (List.mem_cons_of_mem _ hin)]

/-- **Every service** but that of the item itself uses up the budgets in front of it. -/
theorem Move.rank (h : Move q q' event) (hi : i ∈ q.waiting) (hi' : i ∈ q'.waiting)
    (hserved : event.served ≠ some i) (hpos : ∀ j ∈ q.waiting, 0 < q.budget j) :
    q'.rank i + event.served.toList.length ≤ q.rank i := by
  have hshift := h.shift hi hi' hserved
  have hsum {l : List ι} (hl : ∀ j ∈ l, q'.budget j = q.budget j) :
      (l.map q'.budget).sum = (l.map q.budget).sum := by
    rw [List.map_congr_left hl]
  unfold BudgetQueue.rank
  cases h with
  | wait keep new waiting fresh budget runner =>
    obtain ⟨keep', hahead⟩ : ∃ keep', q'.ahead i = (q.ahead i).filter keep' := by
      cases hshift with
      | drop keep' hahead => exact ⟨keep', hahead⟩
    have hkept : ((q'.ahead i).map q'.budget).sum ≤ ((q.ahead i).map q.budget).sum := by
      rw [hsum fun j hj => ?_, hahead]
      · exact (List.filter_sublist.map _).sum_le_sum fun _ _ => Nat.zero_le _
      · have hin : j ∈ q.waiting := mem_of_mem_ahead (List.mem_filter.mp (hahead ▸ hj)).1
        have hin' : j ∈ q.waiting.filter keep ++ new := waiting ▸ mem_of_mem_ahead hj
        rcases List.mem_append.mp hin' with hin' | hin'
        · exact budget j hin (List.mem_filter.mp hin').2
        · exact absurd hin (fresh j hin')
    cases hrunner : q'.runner with
    | none => exact Nat.le_trans hkept (Nat.le_add_right _ _)
    | some j =>
      obtain ⟨hsame, hbudget⟩ := runner j hrunner
      rw [hsame]
      simp only [Option.elim_some, hbudget]
      exact Nat.add_le_add_right hkept _
  | front j runner absent waiting budget less idle =>
    cases hshift with
    | push _ hahead =>
      rw [hahead, runner, idle, List.map_cons, List.sum_cons,
        hsum fun l hl => budget l (mem_of_mem_ahead hl)]
      simp only [Option.elim_none, Option.elim_some, Event.served, Option.toList_none,
        List.length_nil]
      omega
  | serve j new waiting budget runner =>
    cases hshift with
    | pop _ hahead =>
      have hmem {l : ι} (hl : l ∈ j :: q'.ahead i) : l ∈ q.waiting := mem_of_mem_ahead (hahead ▸ hl)
      have hj := hpos j (hmem List.mem_cons_self)
      rw [hahead, runner, List.map_cons, List.sum_cons,
        hsum fun l hl => budget l (hmem (List.mem_cons_of_mem _ hl))]
      simp only [Option.elim_some, Event.served, Option.toList_some, List.length_singleton,
        budget j (hmem List.mem_cons_self)]
      omega

/-- With budgets up to a bound. -/
theorem rank_lt {bound : ℕ} (hpos : 0 < bound) (hwaiting : ∀ j ∈ q.waiting, q.budget j ≤ bound)
    (hrunner : ∀ j, q.runner = some j → q.budget j ≤ bound) :
    q.rank i < ((q.ahead i).length + 1) * bound := by
  have hsum : ((q.ahead i).map q.budget).sum ≤ (q.ahead i).length * bound := by
    have := List.sum_le_card_nsmul ((q.ahead i).map q.budget) bound (by
      intro n hn
      obtain ⟨j, hj, rfl⟩ := List.mem_map.mp hn
      exact hwaiting j (mem_of_mem_ahead hj))
    simpa using this
  have hlast : (q.runner.elim 0 fun j => q.budget j - 1) < bound := by
    cases hrun : q.runner with
    | none => exact hpos
    | some j =>
      have := hrunner j hrun
      simp only [Option.elim_some]
      omega
  rw [Nat.add_mul, Nat.one_mul]
  unfold rank
  omega

end BudgetQueue
end Atoman.Lib
