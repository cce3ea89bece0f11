import Mathlib.Data.List.TakeDrop
import Mathlib.Data.List.TakeWhile

/-!
# Parsers fed by byte and by block

A byte parser is a step function on states; a block parser runs the same steps
over a block, with two shortcuts. In an idle state it skips to the next marker,
and in a state that awaits a known number of bytes it takes as many of them as the
block holds at once. `Shortcuts` collects what makes the shortcuts harmless;
`runBuffer_agrees` and `feedBlocks_agrees` draw the conclusion for one block and
for a run of blocks.
-/

namespace Atoman.Lib
universe u v w
variable {σ : Type u} {τ : Type v} {α : Type w}

/-- Every symbol of a block through the step function, all at the time of the block. -/
def feed (step : τ → α → σ → σ) (t : τ) (data : List α) (s : σ) : σ :=
  data.foldl (fun s b => step t b s) s

/-- A run of blocks, each at its time. -/
def feedBlocks (block : τ → List α → σ → σ) (blocks : List (τ × List α)) (s : σ) : σ :=
  blocks.foldl (fun s p => block p.1 p.2 s) s

/-- Every block of the run meets the condition in the state it finds. -/
def Throughout (P : τ → List α → σ → Prop) (block : τ → List α → σ → σ) :
    List (τ × List α) → σ → Prop
  | [], _ => True
  | (t, data) :: rest, s => P t data s ∧ Throughout P block rest (block t data s)

instance Throughout.decidable {P : τ → List α → σ → Prop} [∀ t data s, Decidable (P t data s)]
    (block : τ → List α → σ → σ) :
    ∀ blocks s, Decidable (Throughout P block blocks s)
  | [], _ => inferInstanceAs (Decidable True)
  | (t, data) :: rest, s =>
    have := Throughout.decidable (P := P) block rest (block t data s)
    inferInstanceAs (Decidable (P t data s ∧ Throughout P block rest (block t data s)))

section feed
variable (step : τ → α → σ → σ) (t : τ)

@[simp] theorem feed_nil (s : σ) : feed step t [] s = s := rfl

@[simp] theorem feed_cons (b : α) (data : List α) (s : σ) :
    feed step t (b :: data) s = feed step t data (step t b s) := rfl

theorem feed_append (data rest : List α) (s : σ) :
    feed step t (data ++ rest) s = feed step t rest (feed step t data s) := by
  simp [feed]

/-- What every step preserves, a block preserves. -/
theorem feed_invariant {P : σ → Prop} (hstep : ∀ b s, P s → P (step t b s)) (data : List α) {s : σ}
    (h : P s) : P (feed step t data s) := by
  induction data generalizing s with
  | nil => exact h
  | cons b data ih => exact ih (hstep b s h)

/-- A relation that every step preserves, a block preserves. -/
theorem feed_congr {R : σ → σ → Prop} (hstep : ∀ b s s', R s s' → R (step t b s) (step t b s'))
    (data : List α) {s s' : σ} (h : R s s') : R (feed step t data s) (feed step t data s') := by
  induction data generalizing s s' with
  | nil => exact h
  | cons b data ih => exact ih (hstep b s s' h)

end feed

/-- Two ways to take a block that agree wherever `P` holds agree on every run in
which `P` holds throughout. -/
theorem feedBlocks_congr {R : σ → σ → Prop} {P : τ → List α → σ → Prop} {Inv : σ → Prop}
    {f g : τ → List α → σ → σ} (hinv : ∀ t data s, Inv s → P t data s → Inv (f t data s))
    (h : ∀ t data s s', Inv s → P t data s → R s s' → R (f t data s) (g t data s'))
    (blocks : List (τ × List α)) {s s' : σ} (hi : Inv s) (hP : Throughout P f blocks s)
    (hR : R s s') : R (feedBlocks f blocks s) (feedBlocks g blocks s') := by
  induction blocks generalizing s s' with
  | nil => exact hR
  | cons p rest ih =>
    obtain ⟨hp, hrest⟩ := hP
    exact ih (hinv _ _ _ hi hp) hrest (h _ _ _ _ hi hp hR)

/-- A byte parser with the shortcuts of a block parser. -/
structure BlockParser (σ : Type u) (τ : Type v) (α : Type w) where
  step : τ → α → σ → σ
  /-- The state waits for a marker. -/
  idle : σ → Bool
  marker : α → Bool
  /-- Symbols the state takes without looking at them. -/
  awaited : σ → ℕ
  /-- Take some of the awaited symbols at once. -/
  copy : τ → List α → σ → σ

namespace BlockParser
variable (M : BlockParser σ τ α)

/-- What is left of a block once an idle state has skipped to the next marker. -/
def skipIdle (data : List α) (s : σ) : List α :=
  if M.idle s then data.dropWhile (fun b => !M.marker b) else data

theorem length_skipIdle (data : List α) (s : σ) : (M.skipIdle data s).length ≤ data.length := by
  unfold skipIdle
  split
  · exact (List.dropWhile_suffix _).length_le
  · exact Nat.le_refl _

/-- The block loop. -/
def runBuffer (t : τ) (data : List α) (s : σ) : σ :=
  match _ : M.skipIdle data s with
  | [] => s
  | b :: rest =>
    if M.awaited s = 0 then runBuffer t rest (M.step t b s)
    else
      runBuffer t ((b :: rest).drop (M.awaited s)) (M.copy t ((b :: rest).take (M.awaited s)) s)
termination_by data.length
decreasing_by all_goals
  have hle := M.length_skipIdle data s
  rw [‹M.skipIdle data s = _›] at hle
  simp only [List.length_drop, List.length_cons] at hle ⊢; omega

variable {M}

theorem runBuffer_done {t : τ} {data : List α} {s : σ} (h : M.skipIdle data s = []) :
    M.runBuffer t data s = s := by
  rw [runBuffer]; split
  · rfl
  · simp_all

theorem runBuffer_step {t : τ} {data rest : List α} {b : α} {s : σ}
    (h : M.skipIdle data s = b :: rest) (hw : M.awaited s = 0) :
    M.runBuffer t data s = M.runBuffer t rest (M.step t b s) := by
  rw [runBuffer]; split
  · simp_all
  · next heq => obtain ⟨rfl, rfl⟩ := List.cons.inj (heq.symm.trans h); rw [if_pos hw]

theorem runBuffer_copy {t : τ} {data rest : List α} {b : α} {s : σ}
    (h : M.skipIdle data s = b :: rest) (hw : M.awaited s ≠ 0) :
    M.runBuffer t data s =
      M.runBuffer t ((b :: rest).drop (M.awaited s))
        (M.copy t ((b :: rest).take (M.awaited s)) s) := by
  rw [runBuffer]; split
  · simp_all
  · next heq => obtain ⟨rfl, rfl⟩ := List.cons.inj (heq.symm.trans h); rw [if_neg hw]

variable (M)

/-- What makes the shortcuts harmless, up to the observation `R`, from states with
`Inv` that still accept data at the time of the block. -/
structure Shortcuts (R : σ → σ → Prop) (Inv : σ → Prop) (OnTime : τ → σ → Prop) : Prop where
  refl : ∀ s, R s s
  step_congr : ∀ t b s s', R s s' → R (M.step t b s) (M.step t b s')
  step_inv : ∀ t b s, Inv s → Inv (M.step t b s)
  /-- After a step at time `t` more may come at that time. -/
  step_onTime : ∀ t b s, OnTime t (M.step t b s)
  skip : ∀ t b s s', M.idle s → M.marker b = false → R s s' → R s (M.step t b s')
  idle_awaited : ∀ s, M.idle s → M.awaited s = 0
  copy_eq : ∀ t b data s, Inv s → OnTime t s → (b :: data).length ≤ M.awaited s →
    M.copy t (b :: data) s = feed M.step t (b :: data) s

variable {M} {R : σ → σ → Prop} {Inv : σ → Prop} {OnTime : τ → σ → Prop}

/-- Skipped symbols are not observed. -/
theorem Shortcuts.skip_feed (hM : M.Shortcuts R Inv OnTime) (t : τ) {s s' : σ} (hidle : M.idle s)
    (data : List α) (hdata : ∀ b ∈ data, M.marker b = false) (hR : R s s') :
    R s (feed M.step t data s') := by
  induction data generalizing s' with
  | nil => exact hR
  | cons b data ih =>
    exact ih (fun c hc => hdata c (List.mem_cons_of_mem b hc))
      (hM.skip t b s s' hidle (hdata b (List.mem_cons_self ..)) hR)

theorem Shortcuts.feed_inv (hM : M.Shortcuts R Inv OnTime) (t : τ) (data : List α) {s : σ}
    (hi : Inv s) : Inv (feed M.step t data s) :=
  feed_invariant M.step t (fun b s => hM.step_inv t b s) data hi

theorem Shortcuts.feed_onTime (hM : M.Shortcuts R Inv OnTime) (t : τ) (b : α) (data : List α)
    (s : σ) : OnTime t (feed M.step t (b :: data) s) := by
  induction data generalizing b s with
  | nil => exact hM.step_onTime t b s
  | cons c data ih => exact ih c (M.step t b s)

/-- What a block leaves for the step function, and what the skipped part did. -/
theorem Shortcuts.skipIdle_spec (hM : M.Shortcuts R Inv OnTime) (t : τ) (data : List α) {s s' : σ}
    (hR : R s s') : ∃ s'', R s s'' ∧
      feed M.step t data s' = feed M.step t (M.skipIdle data s) s'' := by
  unfold skipIdle
  split
  case isTrue hidle =>
    refine ⟨feed M.step t (data.takeWhile fun b => !M.marker b) s', ?_, ?_⟩
    · refine hM.skip_feed t hidle _ (fun b hb => ?_) hR
      simpa using List.mem_takeWhile_imp hb
    · rw [← feed_append, List.takeWhile_append_dropWhile]
  case isFalse => exact ⟨s', hR, rfl⟩

/-- **A block agrees with its symbols.** The induction is on the length of the
block; after the first step the state is on time for the rest of it. -/
theorem Shortcuts.runBuffer_agrees (hM : M.Shortcuts R Inv OnTime) (t : τ) :
    ∀ (data : List α) {s s' : σ}, Inv s → (data ≠ [] → OnTime t s) → R s s' →
      Inv (M.runBuffer t data s) ∧ R (M.runBuffer t data s) (feed M.step t data s') := by
  intro data
  induction hn : data.length using Nat.strong_induction_on generalizing data with
  | _ n ih =>
    intro s s' hi htime hR
    have hlen := M.length_skipIdle data s
    obtain ⟨s'', hR', hfeed⟩ := hM.skipIdle_spec t data hR
    rw [hfeed]
    cases hskip : M.skipIdle data s with
    | nil => rw [runBuffer_done hskip]; exact ⟨hi, hR'⟩
    | cons b rest =>
      rw [hskip, List.length_cons] at hlen
      have hne : data ≠ [] := by rintro rfl; simp at hlen
      by_cases hw : M.awaited s = 0
      · rw [runBuffer_step hskip hw, feed_cons]
        exact ih _ (by omega) rest rfl (hM.step_inv t b s hi) (fun _ => hM.step_onTime t b s)
          (hM.step_congr t b s s'' hR')
      · -- the copied part equals its steps, and at least one symbol is copied
        obtain ⟨m, hm⟩ := Nat.exists_eq_succ_of_ne_zero hw
        have htake : (b :: rest).take (M.awaited s) = b :: rest.take m := by
          rw [hm, List.take_succ_cons]
        have hcopy : M.copy t ((b :: rest).take (M.awaited s)) s =
            feed M.step t ((b :: rest).take (M.awaited s)) s := by
          rw [htake]
          refine hM.copy_eq t b _ s hi (htime hne) ?_
          rw [← htake]; exact List.length_take_le _ _
        rw [runBuffer_copy hskip hw, hcopy]
        have hsplit : feed M.step t (b :: rest) s'' =
            feed M.step t ((b :: rest).drop (M.awaited s))
              (feed M.step t ((b :: rest).take (M.awaited s)) s'') := by
          rw [← feed_append, List.take_append_drop]
        rw [hsplit]
        refine ih _ ?_ _ rfl (hM.feed_inv t _ hi) (fun _ => ?_)
          (feed_congr M.step t (fun c u u' => hM.step_congr t c u u') _ hR')
        · simp only [List.length_drop, List.length_cons]; omega
        · rw [htake]; exact hM.feed_onTime t b _ s

/-- **A run of blocks agrees with its symbols**, when every block that is not empty
finds a state that still accepts data. -/
theorem Shortcuts.feedBlocks_agrees (hM : M.Shortcuts R Inv OnTime) (blocks : List (τ × List α))
    {s s' : σ} (hi : Inv s)
    (htime : Throughout (fun t data s => data ≠ [] → OnTime t s) M.runBuffer blocks s)
    (hR : R s s') : R (feedBlocks M.runBuffer blocks s) (feedBlocks (feed M.step) blocks s') := by
  refine feedBlocks_congr (P := fun t data s => data ≠ [] → OnTime t s) ?_ ?_
    blocks hi htime hR
  · intro t data u hu ht
    exact (hM.runBuffer_agrees t data hu ht (hM.refl u)).1
  · intro t data u u' hu ht hR
    exact (hM.runBuffer_agrees t data hu ht hR).2

end BlockParser
end Atoman.Lib
