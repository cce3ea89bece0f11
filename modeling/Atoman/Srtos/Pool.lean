import Atoman.Lib.Tiling
import Mathlib.Data.Nat.Basic

/-!
# The context pool

`srtos_m` and `srtos_riscv` keep the stack words of suspended tasks in a ring of words.
A snapshot is one span; one that does not fit behind the tail starts again at word zero,
and the words left over are the gap. Snapshots are released from the head on.

The indices are natural numbers: no sum overflows, since the pool is an array of words
in a 32-bit address space.
-/

namespace Atoman.Srtos
open Lib (Tiles)

/-- `task_context_pool_head` and the four indices behind it. -/
structure Pool where
  head : ℕ
  tail : ℕ
  used : ℕ
  gap_start : ℕ
  gap_words : ℕ
deriving DecidableEq

namespace Pool

/-- `srtos_task_runtime_reset` -/
def empty : Pool := ⟨0, 0, 0, 0, 0⟩

/-- The part of `task_context_alloc` that looks for a place: the pool with the span, and
the first word of the span. -/
def alloc (words : ℕ) (p : Pool) (required_words : ℕ) : Option (Pool × ℕ) :=
  if words ≤ p.used then none
  else if words - p.used < required_words then none
  else if p.head ≤ p.tail then
    if p.tail + required_words ≤ words then
      some ({ p with
        tail := if words ≤ p.tail + required_words then 0 else p.tail + required_words
        used := p.used + required_words }, p.tail)
    else
      let gap_words := words - p.tail
      if p.head < required_words ∨ words < p.used + gap_words + required_words then none
      else some ({ p with
        gap_start := p.tail
        gap_words := gap_words
        used := p.used + gap_words + required_words
        tail := required_words }, 0)
  else if p.head < p.tail + required_words then none
  else some ({ p with
    tail := p.tail + required_words
    used := p.used + required_words }, p.tail)

/-- `task_context_release_gap_if_head` -/
def releaseGapIfHead (p : Pool) : Pool :=
  if p.gap_words ≠ 0 ∧ p.head = p.gap_start then
    { p with head := 0, used := p.used - p.gap_words, gap_start := 0, gap_words := 0 }
  else p

/-- The part of `task_context_release` that moves the head. -/
def advance (words : ℕ) (p : Pool) (capacity_words : ℕ) : Pool :=
  { p with
    head := if words ≤ p.head + capacity_words then 0 else p.head + capacity_words
    used := p.used - capacity_words }

/-- `task_context_pool_invariant_valid` -/
def invariantValid (words : ℕ) (p : Pool) : Bool :=
  !(decide (words ≤ p.head) || decide (words ≤ p.tail) || decide (words < p.used)) &&
  if p.gap_words = 0 then decide (p.gap_start = 0)
  else !(decide (words ≤ p.gap_start) || decide (p.used < p.gap_words) ||
    decide (p.gap_start + p.gap_words ≠ words) || decide (p.head < p.tail) ||
    (decide (p.tail = p.head) && decide (p.used ≠ words)))

/-! ## Layouts -/

/-- Where the live spans are: between head and tail, or from the head up to a turn and
from word zero up to the tail. -/
inductive Layout (words : ℕ) (p : Pool) (live : List (ℕ × ℕ)) : Prop
  | linear (no_gap : p.gap_words = 0 ∧ p.gap_start = 0) (spans : Tiles p.head live p.tail)
      (tail_lt : p.tail < words) (used : p.used + p.head = p.tail)
  | wrapped (hi lo : List (ℕ × ℕ)) (turn : ℕ) (order : live = hi ++ lo)
      (above : Tiles p.head hi turn) (below : Tiles 0 lo p.tail) (tail_le : p.tail ≤ p.head)
      (head_lt : p.head < words) (used : p.used + p.head = words + p.tail)
      (gap : turn = words ∧ p.gap_words = 0 ∧ p.gap_start = 0 ∨
        turn < words ∧ p.gap_start = turn ∧ p.gap_words = words - turn)

/-- A pool with these live spans, the oldest first. -/
structure Valid (words : ℕ) (p : Pool) (live : List (ℕ × ℕ)) : Prop where
  pos : ∀ r ∈ live, 0 < r.2
  layout : Layout words p live

variable {words : ℕ} {p : Pool} {live : List (ℕ × ℕ)}

theorem valid_empty (hwords : 0 < words) : empty.Valid words [] where
  pos := fun _ h => absurd h List.not_mem_nil
  layout := .linear ⟨rfl, rfl⟩ rfl hwords rfl

/-! ## What a layout says -/

/-- Two spans share no word. -/
def Apart (r r' : ℕ × ℕ) : Prop := r.1 + r.2 ≤ r'.1 ∨ r'.1 + r'.2 ≤ r.1

namespace Valid

/-- **In range**. -/
theorem range_le (h : p.Valid words live) : ∀ r ∈ live, r.1 + r.2 ≤ words := by
  intro r hr
  cases h.layout with
  | linear _ spans tail_lt _ =>
    have := (spans.range_le r hr).2
    omega
  | wrapped hi lo turn order above below tail_le head_lt _ gap =>
    rw [order] at hr
    have hturn : turn ≤ words := by omega
    rcases List.mem_append.mp hr with hr | hr
    · exact Nat.le_trans (above.range_le r hr).2 hturn
    · have := (below.range_le r hr).2
      omega

/-- **Disjoint**. -/
theorem pairwise_apart (h : p.Valid words live) : live.Pairwise Apart := by
  cases h.layout with
  | linear _ spans _ _ => exact spans.pairwise.imp Or.inl
  | wrapped hi lo turn order above below tail_le _ _ _ =>
    rw [order, List.pairwise_append]
    refine ⟨above.pairwise.imp Or.inl, below.pairwise.imp Or.inl, ?_⟩
    intro r hr r' hr'
    have hfrom := (above.range_le r hr).1
    have hto := (below.range_le r' hr').2
    exact Or.inr (by omega)

/-- **Accounted for**: the words of the live spans and the gap are the used words. -/
theorem used_eq (h : p.Valid words live) :
    p.used = (live.map Prod.snd).sum + p.gap_words := by
  cases h.layout with
  | linear no_gap spans _ used =>
    have := spans.sum
    omega
  | wrapped hi lo turn order above below _ _ used gap =>
    have hhi := above.sum
    have hlo := below.sum
    rw [order, List.map_append, List.sum_append]
    omega

/-- **One gap** at most, at the end of the pool and apart from the live spans. -/
theorem gap (h : p.Valid words live) : p.gap_words = 0 ∧ p.gap_start = 0 ∨
    p.gap_start + p.gap_words = words ∧ ∀ r ∈ live, Apart r (p.gap_start, p.gap_words) := by
  cases h.layout with
  | linear no_gap _ _ _ => exact Or.inl no_gap
  | wrapped hi lo turn order above below tail_le _ _ gap =>
    obtain ⟨-, hnone⟩ | ⟨hlt, hstart, hwords⟩ := gap
    · exact Or.inl hnone
    · refine Or.inr ⟨by omega, fun r hr => Or.inl ?_⟩
      have hturn := above.le
      rw [hstart]
      rw [order] at hr
      rcases List.mem_append.mp hr with hr | hr
      · exact (above.range_le r hr).2
      · have := (below.range_le r hr).2
        exact Nat.le_trans (by omega) hturn

/-- The check of `srtos_riscv` accepts every layout. -/
theorem invariantValid (h : p.Valid words live) : p.invariantValid words = true := by
  cases h.layout with
  | linear no_gap spans tail_lt used =>
    have := spans.le
    simp only [Pool.invariantValid, if_pos no_gap.1, no_gap.2]
    simp
    omega
  | wrapped hi lo turn order above below tail_le head_lt used gap =>
    have hturn := above.le
    obtain ⟨-, hwords, hstart⟩ | ⟨hlt, hstart, hwords⟩ := gap
    · simp only [Pool.invariantValid, if_pos hwords, hstart]
      simp
      omega
    · have hne : p.gap_words ≠ 0 := by omega
      simp only [Pool.invariantValid, if_neg hne]
      simp
      omega

end Valid

/-! ## Allocation -/

namespace Valid

/-- **Allocation** appends a span. -/
theorem alloc (h : p.Valid words live) {required_words offset : ℕ} {q : Pool}
    (hpos : 0 < required_words) (halloc : p.alloc words required_words = some (q, offset)) :
    q.Valid words (live ++ [(offset, required_words)]) := by
  have hmem : ∀ r ∈ live ++ [(offset, required_words)], 0 < r.2 := by
    intro r hr
    rcases List.mem_append.mp hr with hr | hr
    · exact h.pos r hr
    · rw [List.mem_singleton.mp hr]
      exact hpos
  refine ⟨hmem, ?_⟩
  unfold Pool.alloc at halloc
  by_cases hfull : words ≤ p.used
  · rw [if_pos hfull] at halloc
    exact nomatch halloc
  rw [if_neg hfull] at halloc
  by_cases hfree : words - p.used < required_words
  · rw [if_pos hfree] at halloc
    exact nomatch halloc
  rw [if_neg hfree] at halloc
  cases h.layout with
  | linear no_gap spans tail_lt used =>
    have hle := spans.le
    rw [if_pos hle] at halloc
    by_cases hfits : p.tail + required_words ≤ words
    · rw [if_pos hfits] at halloc
      obtain ⟨rfl, rfl⟩ := Prod.mk.inj (Option.some.inj halloc)
      by_cases hend : words ≤ p.tail + required_words
      · -- the span ends with the pool, so the next one starts at word zero
        have heq : p.tail + required_words = words := by omega
        have hspans := spans.append (n := required_words)
        rw [heq] at hspans
        refine .wrapped _ [] words (List.append_nil _).symm hspans ?_ ?_ ?_ ?_
          (Or.inl ⟨rfl, no_gap⟩)
        all_goals simp only [if_pos hend]
        · rfl
        · exact Nat.zero_le _
        · omega
        · omega
      · refine .linear no_gap ?_ ?_ ?_
        all_goals simp only [if_neg hend]
        · exact spans.append
        · omega
        · omega
    · rw [if_neg hfits] at halloc
      by_cases hno : p.head < required_words ∨ words < p.used + (words - p.tail) + required_words
      · simp only [if_pos hno] at halloc
        exact nomatch halloc
      · simp only [if_neg hno] at halloc
        obtain ⟨rfl, rfl⟩ := Prod.mk.inj (Option.some.inj halloc)
        refine .wrapped live _ p.tail rfl spans ?_ ?_ ?_ ?_ (Or.inr ⟨tail_lt, rfl, rfl⟩)
        · exact ⟨rfl, Nat.zero_add _⟩
        · show required_words ≤ p.head
          omega
        · show p.head < words
          omega
        · show p.used + (words - p.tail) + required_words + p.head = words + required_words
          omega
  | wrapped hi lo turn order above below tail_le head_lt used gap =>
    have hlt : ¬ p.head ≤ p.tail := by omega
    rw [if_neg hlt] at halloc
    by_cases hno : p.head < p.tail + required_words
    · rw [if_pos hno] at halloc
      exact nomatch halloc
    · rw [if_neg hno] at halloc
      obtain ⟨rfl, rfl⟩ := Prod.mk.inj (Option.some.inj halloc)
      refine .wrapped hi (lo ++ [(p.tail, required_words)]) turn ?_ above below.append ?_
        head_lt ?_ gap
      · rw [order, List.append_assoc]
      · show p.tail + required_words ≤ p.head
        omega
      · show p.used + required_words + p.head = words + (p.tail + required_words)
        omega

end Valid

/-! ## Release -/

/-- No gap begins at the head any more. -/
theorem releaseGapIfHead_settled (p : Pool) : p.releaseGapIfHead.gap_words = 0 ∨
    p.releaseGapIfHead.head ≠ p.releaseGapIfHead.gap_start := by
  unfold Pool.releaseGapIfHead
  split
  · exact Or.inl rfl
  · next hnot => exact Classical.not_and_iff_not_or_not.mp hnot |>.imp_left not_not.mp

namespace Valid

/-- The gap is given back when the head has come to it. -/
theorem releaseGapIfHead (h : p.Valid words live) : p.releaseGapIfHead.Valid words live := by
  unfold Pool.releaseGapIfHead
  split
  · next hgap =>
    refine ⟨h.pos, ?_⟩
    cases h.layout with
    | linear no_gap spans tail_lt used => exact absurd no_gap.1 hgap.1
    | wrapped hi lo turn order above below tail_le head_lt used gap =>
      obtain ⟨-, hzero, -⟩ | ⟨hlt, hstart, hwords⟩ := gap
      · exact absurd hzero hgap.1
      · have hturn : p.head = turn := hgap.2.trans hstart
        have hnil : hi = [] := by
          refine Tiles.eq_nil (fun r hr => h.pos r ?_) (hturn ▸ above)
          rw [order]
          exact List.mem_append_left _ hr
        subst hnil
        rw [order, List.nil_append]
        refine .linear ⟨rfl, rfl⟩ below ?_ ?_
        · show p.tail < words
          omega
        · show p.used - p.gap_words + 0 = p.tail
          omega
  · exact h

/-- The gap is among the used words. -/
theorem gap_words_le (h : p.Valid words live) : p.gap_words ≤ p.used := by
  have := h.used_eq
  omega

/-- Behind the gap, the head is the oldest span. -/
theorem head_eq {r : ℕ × ℕ} {rest : List (ℕ × ℕ)} (h : p.Valid words (r :: rest)) :
    p.releaseGapIfHead.head = r.1 := by
  have hgap := h.releaseGapIfHead
  have hsettled := releaseGapIfHead_settled p
  cases hgap.layout with
  | linear no_gap spans tail_lt used => exact spans.1.symm
  | wrapped hi lo turn order above below tail_le head_lt used gap =>
    cases hi with
    | nil =>
      have hturn : p.releaseGapIfHead.head = turn := above
      omega
    | cons r' hi =>
      obtain ⟨rfl, -⟩ := List.cons.inj order
      exact above.1.symm

/-- The oldest span is among the used words. -/
theorem capacity_le {r : ℕ × ℕ} {rest : List (ℕ × ℕ)} (h : p.Valid words (r :: rest)) :
    r.2 ≤ p.used := by
  have := h.used_eq
  rw [List.map_cons, List.sum_cons] at this
  omega

/-- **Release** takes the oldest span. -/
theorem advance {r : ℕ × ℕ} {rest : List (ℕ × ℕ)} (h : p.Valid words (r :: rest))
    (hhead : p.head = r.1) : (p.advance words r.2).Valid words rest := by
  have hpos := h.pos r List.mem_cons_self
  have hle := h.capacity_le
  refine ⟨fun r' hr' => h.pos r' (List.mem_cons_of_mem r hr'), ?_⟩
  unfold Pool.advance
  cases h.layout with
  | linear no_gap spans tail_lt used =>
    obtain ⟨-, hrest⟩ := spans
    have hto := hrest.le
    have hmore : ¬ words ≤ p.head + r.2 := by omega
    rw [if_neg hmore]
    refine .linear no_gap hrest tail_lt ?_
    show p.used - r.2 + (p.head + r.2) = p.tail
    omega
  | wrapped hi lo turn order above below tail_le head_lt used gap =>
    cases hi with
    | nil =>
      -- the oldest span would be at word zero, and the head with it
      rw [List.nil_append] at order
      rw [← order] at below
      obtain ⟨hzero, hrest⟩ := below
      have hto := hrest.le
      omega
    | cons r' hi =>
      obtain ⟨rfl, rfl⟩ := List.cons.inj order
      obtain ⟨-, hrest⟩ := above
      have hto := hrest.le
      by_cases hend : words ≤ p.head + r.2
      · have hturn : p.head + r.2 = turn ∧ turn = words := by omega
        have hnil : hi = [] := by
          refine Tiles.eq_nil (fun r' hr' => h.pos r' ?_) (hturn.1 ▸ hrest)
          exact List.mem_cons_of_mem r (List.mem_append_left _ hr')
        subst hnil
        rw [if_pos hend]
        show Layout words _ lo
        refine .linear ?_ below ?_ ?_
        · show p.gap_words = 0 ∧ p.gap_start = 0
          omega
        · show p.tail < words
          omega
        · show p.used - r.2 + 0 = p.tail
          omega
      · rw [if_neg hend]
        refine .wrapped hi lo turn rfl hrest below ?_ ?_ ?_ gap
        · show p.tail ≤ p.head + r.2
          omega
        · show p.head + r.2 < words
          omega
        · show p.used - r.2 + (p.head + r.2) = words + p.tail
          omega

end Valid

end Pool
end Atoman.Srtos
