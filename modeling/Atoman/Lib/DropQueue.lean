import Mathlib.Data.List.Basic
import Mathlib.Data.List.Nodup
import Mathlib.Data.List.TakeDrop

/-!
# Queues that drop the oldest record

A queue for at most `n` unread records: a record that finds it full takes the place of
the oldest one. The account of such a queue keeps what was written, what was taken
out and how many of the records written are no longer unread; every record is then
taken, dropped or unread, and it is dropped only behind `n` newer ones.
-/

namespace Atoman.Lib
universe u

/-- What a queue has seen. -/
structure DropQueue (α : Type u) where
  /-- all records, in the order they were written -/
  written : List α
  /-- the records taken out, in that order -/
  taken : List α
  /-- how many records are no longer unread -/
  low : ℕ

namespace DropQueue
variable {α : Type u} {n : ℕ} {q : DropQueue α}

/-- The records that wait. -/
def unread (q : DropQueue α) : List α := q.written.drop q.low

/-- Write a record, over the oldest one when `n` wait. -/
def push (n : ℕ) (q : DropQueue α) (x : α) : DropQueue α where
  written := q.written ++ [x]
  taken := q.taken
  low := max q.low (q.written.length + 1 - n)

/-- Take the oldest record. -/
def pop (q : DropQueue α) : DropQueue α where
  written := q.written
  taken := q.taken ++ q.unread.take 1
  low := q.low + (q.unread.take 1).length

/-- Every record is accounted for. -/
structure Valid (n : ℕ) (q : DropQueue α) : Prop where
  low_le : q.low ≤ q.written.length
  bound : q.written.length ≤ q.low + n
  taken : q.taken.Sublist (q.written.take q.low)
  dropped : ∀ i (h : i < q.written.length), i < q.low → q.written[i] ∈ q.taken ∨
    i + n < q.written.length

theorem valid_empty (n : ℕ) : Valid n (⟨[], [], 0⟩ : DropQueue α) where
  low_le := Nat.le_refl 0
  bound := Nat.zero_le _
  taken := List.Sublist.refl _
  dropped := fun _ h => absurd h (Nat.not_lt_zero _)

theorem length_unread (q : DropQueue α) : q.unread.length = q.written.length - q.low :=
  List.length_drop

/-- **Writing** keeps the account. -/
theorem Valid.push (h : q.Valid n) (hn : 0 < n) (x : α) : (q.push n x).Valid n where
  low_le := by
    have hle := h.low_le
    simp only [DropQueue.push, List.length_append, List.length_singleton]
    omega
  bound := by
    simp only [DropQueue.push, List.length_append, List.length_singleton]
    omega
  taken := by
    have hle : (q.push n x).low ≤ q.written.length := by
      have := h.low_le
      simp only [DropQueue.push]
      omega
    have hbelow : (q.push n x).written.take (q.push n x).low =
        q.written.take (q.push n x).low := List.take_append_of_le_length hle
    rw [hbelow]
    exact h.taken.trans (List.take_sublist_take_left (Nat.le_max_left _ _))
  dropped := by
    intro i hi hlow
    simp only [DropQueue.push, List.length_append, List.length_singleton] at hi hlow ⊢
    have hin : i < q.written.length := by
      have := h.low_le
      omega
    rw [List.getElem_append_left hin]
    by_cases hold : i < q.low
    · exact (h.dropped i hin hold).imp_right fun hfar => by omega
    · exact Or.inr (by omega)

/-- **Taking** keeps the account. -/
theorem Valid.pop (h : q.Valid n) : q.pop.Valid n where
  low_le := by
    have := h.low_le
    have := q.length_unread
    simp only [DropQueue.pop, List.length_take]
    omega
  bound := by
    have := h.bound
    simp only [DropQueue.pop]
    omega
  taken := by
    have htake : q.pop.written.take q.pop.low = q.written.take q.low ++ q.unread.take 1 := by
      simp only [DropQueue.pop, unread]
      rw [List.take_add, List.length_take, ← List.take_take, List.take_length]
    rw [htake]
    exact h.taken.append (List.Sublist.refl _)
  dropped := by
    intro i hi hlow
    by_cases hold : i < q.low
    · exact (h.dropped i hi hold).imp_left fun hmem => List.mem_append_left _ hmem
    · have hlen : (q.unread.take 1).length ≤ 1 := List.length_take_le _ _
      have hlow' : i < q.low + (q.unread.take 1).length := hlow
      obtain rfl : i = q.low := by omega
      refine Or.inl (List.mem_append_right _ ?_)
      have hdrop : q.unread = q.written[q.low] :: q.written.drop (q.low + 1) :=
        List.drop_eq_getElem_cons hi
      rw [hdrop]
      exact List.mem_singleton_self _

/-! ## What an account says -/

/-- **In order, and once**: what was taken and what still waits is part of what was
written, in that order. -/
theorem Valid.sublist (h : q.Valid n) : (q.taken ++ q.unread).Sublist q.written := by
  have := h.taken.append (List.Sublist.refl q.unread)
  rwa [unread, List.take_append_drop] at this

theorem Valid.length_unread_le (h : q.Valid n) : q.unread.length ≤ n := by
  have := h.bound
  rw [q.length_unread]
  omega

/-- The records neither taken nor unread. -/
def droppedRecords [DecidableEq α] (q : DropQueue α) : List α :=
  q.written.filter fun x => x ∉ q.taken ∧ x ∉ q.unread

/-- **A record is dropped behind `n` newer ones.** -/
theorem Valid.behind [DecidableEq α] (h : q.Valid n) {i : ℕ} (hi : i < q.written.length)
    (hdropped : q.written[i] ∈ q.droppedRecords) : i + n < q.written.length := by
  obtain ⟨htaken, hunread⟩ := of_decide_eq_true (List.mem_filter.mp hdropped).2
  have hlow : i < q.low := by
    refine Nat.not_le.mp fun hle => hunread ?_
    obtain ⟨k, rfl⟩ := Nat.exists_eq_add_of_le hle
    have hk : k < (q.written.drop q.low).length := by rw [List.length_drop]; omega
    have := List.getElem_mem hk
    rwa [List.getElem_drop] at this
  exact (h.dropped i hi hlow).resolve_left htaken

/-- **Nothing is lost count of**, where the records are pairwise different. -/
theorem Valid.conservation [DecidableEq α] (h : q.Valid n) (hnodup : q.written.Nodup) :
    q.unread.length + q.taken.length + q.droppedRecords.length = q.written.length := by
  have hsub := h.sublist
  have hkept : (q.written.filter fun x => x ∈ q.taken ++ q.unread).Perm (q.taken ++ q.unread) := by
    refine (List.perm_ext_iff_of_nodup (hnodup.filter _) (hsub.nodup hnodup)).mpr fun x => ?_
    rw [List.mem_filter, decide_eq_true_iff]
    exact ⟨fun hx => hx.2, fun hx => ⟨hsub.subset hx, hx⟩⟩
  have hdropped : q.droppedRecords = q.written.filter fun x =>
      !decide (x ∈ q.taken ++ q.unread) := by
    refine List.filter_congr fun x _ => ?_
    simp
  have hsplit := q.written.length_eq_length_filter_add fun x => decide (x ∈ q.taken ++ q.unread)
  rw [hkept.length_eq, List.length_append, ← hdropped] at hsplit
  omega

end DropQueue
end Atoman.Lib
