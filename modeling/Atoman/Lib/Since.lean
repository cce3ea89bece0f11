import Mathlib.Data.List.DropRight
import Mathlib.Data.Nat.Notation

/-!
# What was logged since

A log grows at its end. `since b l` is the part of it after the last `b`. Whether some
entries came in some order with no `b` after the first of them is a question about this
part alone, and one more entry either empties it or makes it longer.
-/

namespace Atoman.Lib
universe u
variable {α : Type u}

/-! ## One more entry -/

/-- Where an entry of a longer log stands. -/
theorem eq_split_of_concat {l before after : List α} {e x : α}
    (h : l ++ [e] = before ++ x :: after) :
    after = [] ∧ e = x ∧ l = before ∨
      ∃ rest, after = rest ++ [e] ∧ l = before ++ x :: rest := by
  rcases List.eq_nil_or_concat' after with rfl | ⟨rest, e', rfl⟩
  · obtain ⟨hl, he⟩ := List.append_inj' h rfl
    exact Or.inl ⟨rfl, (List.cons.inj he).1, hl⟩
  · have h' : l ++ [e] = (before ++ x :: rest) ++ [e'] := by
      rw [h, List.append_assoc, List.cons_append]
    obtain ⟨hl, he⟩ := List.append_inj' h' rfl
    exact Or.inr ⟨rest, by rw [(List.cons.inj he).1], hl⟩

/-- Two entries in a longer log. -/
theorem pair_sublist_concat {l : List α} {x y e : α} :
    [x, y].Sublist (l ++ [e]) ↔ [x, y].Sublist l ∨ x ∈ l ∧ y = e := by
  constructor
  · intro h
    obtain ⟨l₁, l₂, heq, h₁, h₂⟩ := List.sublist_append_iff.mp h
    cases l₁ with
    | nil =>
      rw [List.nil_append] at heq
      rw [← heq] at h₂
      exact absurd h₂.length_le (by simp)
    | cons x' l₁ =>
      rw [List.cons_append, List.cons.injEq] at heq
      obtain ⟨rfl, heq⟩ := heq
      cases l₁ with
      | nil =>
        rw [List.nil_append] at heq
        rw [← heq, List.singleton_sublist, List.mem_singleton] at h₂
        exact Or.inr ⟨List.singleton_sublist.mp h₁, h₂⟩
      | cons y' l₁ =>
        rw [List.cons_append, List.cons.injEq] at heq
        obtain ⟨rfl, heq⟩ := heq
        obtain ⟨rfl, -⟩ := List.append_eq_nil_iff.mp heq.symm
        exact Or.inl h₁
  · rintro (h | ⟨h, rfl⟩)
    · exact h.trans (List.sublist_append_left _ _)
    · exact (List.singleton_sublist.mpr h).append (List.Sublist.refl [y])

variable [DecidableEq α] {b e x y : α} {l m : List α}

/-! ## The part since -/

/-- The entries after the last `b`; all of them, where there is none. -/
def since (b : α) (l : List α) : List α := l.rtakeWhile (· ≠ b)

@[simp] theorem since_nil : since b [] = [] := rfl

@[simp] theorem since_concat_self : since b (l ++ [b]) = [] :=
  List.rtakeWhile_concat_neg _ _ _ (by simp)

theorem since_concat_of_ne (h : e ≠ b) : since b (l ++ [e]) = since b l ++ [e] :=
  List.rtakeWhile_concat_pos _ _ _ (by simpa using h)

theorem not_mem_since : b ∉ since b l := by
  intro h
  simpa using List.mem_rtakeWhile_imp h

theorem since_suffix : since b l <:+ l := List.rtakeWhile_suffix _ _

/-- Entries other than `b` are entries since. -/
theorem since_append (h : b ∉ m) : since b (l ++ m) = since b l ++ m := by
  induction m using List.reverseRecOn with
  | nil => simp
  | append_singleton m e ih =>
    rw [List.mem_append, List.mem_singleton, not_or] at h
    rw [← List.append_assoc, since_concat_of_ne (Ne.symm h.2), ih h.1, List.append_assoc]

/-- What came before a `b` is forgotten. -/
theorem since_append_cons : since b (l ++ b :: m) = since b m := by
  induction m using List.reverseRecOn with
  | nil => exact since_concat_self
  | append_singleton m e ih =>
    rw [← List.cons_append, ← List.append_assoc]
    by_cases he : e = b
    · rw [he, since_concat_self, since_concat_self]
    · rw [since_concat_of_ne he, since_concat_of_ne he, ih]

/-- Two entries since are two with no `b` after the first. -/
theorem pair_sublist_since_iff (hx : x ≠ b) (hy : y ≠ b) :
    [x, y].Sublist (since b l) ↔
      ∃ before mid after, l = before ++ x :: (mid ++ y :: after) ∧ b ∉ mid ++ after := by
  constructor
  · intro h
    obtain ⟨before, hl⟩ := since_suffix (b := b) (l := l)
    obtain ⟨r₁, r₂, hr, hx', hy'⟩ := List.cons_sublist_iff.mp h
    obtain ⟨s₁, s₂, rfl⟩ := List.append_of_mem hx'
    obtain ⟨t₁, t₂, rfl⟩ := List.append_of_mem (List.singleton_sublist.mp hy')
    refine ⟨before ++ s₁, s₂ ++ t₁, t₂, ?_, fun hb => not_mem_since (b := b) (l := l) ?_⟩
    · rw [← hl, hr]
      simp
    · rw [hr]
      simp only [List.mem_append, List.mem_cons] at hb ⊢
      tauto
  · rintro ⟨before, mid, after, rfl, hb⟩
    have hall : b ∉ x :: (mid ++ y :: after) := by
      simp only [List.mem_append, List.mem_cons, not_or] at hb ⊢
      exact ⟨Ne.symm hx, hb.1, Ne.symm hy, hb.2⟩
    rw [since_append hall]
    refine List.Sublist.trans ?_ (List.sublist_append_right _ _)
    refine List.Sublist.cons_cons x ?_
    exact List.singleton_sublist.mpr (by simp)

end Atoman.Lib
