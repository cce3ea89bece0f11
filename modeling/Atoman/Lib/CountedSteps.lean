import Mathlib.Data.Nat.Notation

/-!
# Runs that end with a number of counted steps

Of the steps of a run some are counted, and the others change nothing that matters. When
every counted step leads from one stage to the next and the last one ends the matter, the
number of counted steps says where a run stands, and enough of them end it.
-/

namespace Atoman.Lib
universe u v
variable {σ : Type u} {ε : Type v} {step : σ → ε → σ} {counted : ε → Bool} {Ok : ε → Prop}
  {P : ℕ → σ → Prop} {Over : σ → Prop} {need : ℕ}

/-- **The rule for counted steps.** `P k` holds after `k` of them, and `Over` after the last. -/
theorem countdown (hother : ∀ k s e, P k s → Ok e → counted e = false → P k (step s e))
    (hnext : ∀ k s e, P k s → Ok e → counted e = true → k + 1 < need → P (k + 1) (step s e))
    (hlast : ∀ k s e, P k s → Ok e → counted e = true → k + 1 = need → Over (step s e))
    (es : List ε) (hok : ∀ e ∈ es, Ok e) {k : ℕ} {s : σ} (h : P k s) (hk : k < need) :
    (k + es.countP counted < need → P (k + es.countP counted) (es.foldl step s)) ∧
    (need ≤ k + es.countP counted → ∃ es₁ es₂, es = es₁ ++ es₂ ∧
      k + es₁.countP counted = need ∧ Over (es₁.foldl step s)) := by
  induction es generalizing k s with
  | nil => exact ⟨fun _ => h, fun hle => absurd hle (Nat.not_le.mpr hk)⟩
  | cons e es ih =>
    have he : Ok e := hok e List.mem_cons_self
    have hok' : ∀ e ∈ es, Ok e := fun e' he' => hok e' (List.mem_cons_of_mem e he')
    cases hcounted : counted e with
    | false =>
      obtain ⟨hstage, hover⟩ := ih hok' (hother k s e h he hcounted) hk
      rw [List.countP_cons_of_neg (by simp [hcounted])]
      refine ⟨hstage, fun hle => ?_⟩
      obtain ⟨es₁, es₂, rfl, hcount, hend⟩ := hover hle
      refine ⟨e :: es₁, es₂, rfl, ?_, hend⟩
      rwa [List.countP_cons_of_neg (by simp [hcounted])]
    | true =>
      rw [List.countP_cons_of_pos hcounted]
      by_cases hend : k + 1 = need
      · refine ⟨fun hlt => by omega, fun _ => ⟨[e], es, rfl, ?_, hlast k s e h he hcounted hend⟩⟩
        rw [List.countP_cons_of_pos hcounted]
        exact hend
      · have hk' : k + 1 < need := by omega
        obtain ⟨hstage, hover⟩ := ih hok' (hnext k s e h he hcounted hk') hk'
        refine ⟨fun hlt => ?_, fun hle => ?_⟩
        · rw [Nat.add_comm (es.countP counted), ← Nat.add_assoc]
          exact hstage (by omega)
        · obtain ⟨es₁, es₂, rfl, hcount, hover'⟩ := hover (by omega)
          refine ⟨e :: es₁, es₂, rfl, ?_, hover'⟩
          rw [List.countP_cons_of_pos hcounted]
          omega

end Atoman.Lib
