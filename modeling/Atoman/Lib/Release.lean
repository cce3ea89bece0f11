import Atoman.Lib.ModularTime

/-!
# Releases

Something is released every `period` ticks. A check with a tick that was read some time ago
releases it if the tick is a period behind the reference and the last release is over. The
reference then moves by a period or, two periods behind, to the tick of the check.
-/

namespace Atoman.Lib

/-- A release: the tick of the check, and the reference before and after it. -/
structure Activation where
  tick : ℕ
  before : ℕ
  after : ℕ

/-- The reference, whether a release is not over yet, and all releases. -/
structure Release where
  reference : ℕ
  busy : Bool
  log : List Activation

/-- How far the reference moves. -/
def stride (period elapsed : UInt32) : UInt32 :=
  if elapsed - period < period then period else elapsed

/-- What can be said of a release. -/
structure Activation.Regular (period : UInt32) (a : Activation) : Prop where
  not_ahead : a.after ≤ a.tick
  wrapped : UInt32.ofNat a.tick - UInt32.ofNat a.after < period
  near : a.tick < a.before + 2 ^ 32 → a.tick < a.after + period.toNat

/-- The account of the releases of a reference that is stored with its wrap. -/
structure Release.Kept (start : ℕ) (period : UInt32) (clock : ℕ) (time_last : UInt32)
    (r : Release) : Prop where
  count : r.log.length ≤ (clock - start) / period.toNat
  reference : time_last = UInt32.ofNat r.reference
  not_ahead : start ≤ r.reference ∧ r.reference ≤ clock
  regular : ∀ a ∈ r.log, a.Regular period
  in_phase : (∀ a ∈ r.log, a.tick < a.before + 2 * period.toNat) →
    r.reference ≡ start [MOD period.toNat]

namespace Release
variable {period : UInt32} {start clock : ℕ} {checks : List ℕ} {r : Release} {c : ℕ}

def due (period : UInt32) (c : ℕ) (r : Release) : Bool :=
  !r.busy && period ≤ UInt32.ofNat c - UInt32.ofNat r.reference

/-- A check with the tick `c`. -/
def check (period : UInt32) (c : ℕ) (r : Release) : Release :=
  if r.due period c then
    let next := r.reference + (stride period (UInt32.ofNat c - UInt32.ofNat r.reference)).toNat
    ⟨next, true, r.log ++ [⟨c, r.reference, next⟩]⟩
  else r

/-- `checks` are the ticks of the checks to come that were read already: the reference is not
past them, or the release that moved it is not over. -/
structure Sound (start : ℕ) (period : UInt32) (clock : ℕ) (checks : List ℕ) (r : Release) :
    Prop where
  paced : start + r.log.length * period.toNat ≤ r.reference
  le_clock : r.reference ≤ clock
  pending : ∀ c ∈ checks, c ≤ clock ∧ (r.reference ≤ c ∨ r.busy = true)
  regular : ∀ a ∈ r.log, a.Regular period
  in_phase : (∀ a ∈ r.log, a.tick < a.before + 2 * period.toNat) →
    r.reference ≡ start [MOD period.toNat]

theorem stride_spec {elapsed : UInt32} (hdue : period ≤ elapsed) (hp : 0 < period.toNat) :
    period.toNat ≤ (stride period elapsed).toNat ∧
      (stride period elapsed).toNat ≤ elapsed.toNat ∧
      elapsed.toNat < (stride period elapsed).toNat + period.toNat ∧
      (elapsed.toNat < 2 * period.toNat → stride period elapsed = period) := by
  have hle : period.toNat ≤ elapsed.toNat := UInt32.le_iff_toNat_le.mp hdue
  have hsub : (elapsed - period).toNat = elapsed.toNat - period.toNat :=
    UInt32.toNat_sub_of_le _ _ hdue
  unfold stride
  split_ifs with h
  · have h' : elapsed.toNat - period.toNat < period.toNat := hsub ▸ UInt32.lt_iff_toNat_lt.mp h
    exact ⟨le_rfl, hle, by omega, fun _ => rfl⟩
  · have h' : period.toNat ≤ elapsed.toNat - period.toNat :=
      hsub ▸ Nat.le_of_not_lt fun hlt => h (UInt32.lt_iff_toNat_lt.mpr hlt)
    exact ⟨hle, le_rfl, by omega, fun hlt => by omega⟩

/-- The release of a check whose tick the reference is not past. -/
theorem regular_of_due (hp : 0 < period.toNat) (hle : r.reference ≤ c)
    (hdue : r.due period c = true) {next : ℕ} (hnext : next =
      r.reference + (stride period (UInt32.ofNat c - UInt32.ofNat r.reference)).toNat) :
    r.reference + period.toNat ≤ next ∧ Activation.Regular period ⟨c, r.reference, next⟩ ∧
      (c < r.reference + 2 * period.toNat → next = r.reference + period.toNat) := by
  have helapsed := ModularTime.toNat_sub_mod hle
  simp only [due, Bool.and_eq_true, decide_eq_true_eq] at hdue
  obtain ⟨hmin, hmax, hnear, hphase⟩ := stride_spec hdue.2 hp
  have hperiod := period.toNat_lt
  rw [helapsed] at hmax hnear hphase
  have hahead : next ≤ c := by omega
  refine ⟨by omega, ⟨hahead, ?_, fun hturn => ?_⟩, fun hshort => ?_⟩
  · rw [UInt32.lt_iff_toNat_lt, ModularTime.toNat_sub_mod hahead]
    omega
  · show c < next + period.toNat
    dsimp only at hturn
    omega
  · have hdue' := UInt32.le_iff_toNat_le.mp hdue.2
    rw [helapsed] at hdue'
    -- a whole turn of the counter and a period are more than two periods
    rw [hnext, hphase (by omega)]

namespace Sound

/-- A check whose tick the reference may have passed only while a release is not over. -/
theorem check (h : Sound start period clock checks r) (hp : 0 < period.toNat) (hc : c ≤ clock)
    (hpending : r.reference ≤ c ∨ r.busy = true) :
    Sound start period clock checks (r.check period c) := by
  unfold Release.check
  split_ifs with hdue
  · have hbusy : r.busy = false := by
      simp only [due, Bool.and_eq_true, Bool.not_eq_true'] at hdue
      exact hdue.1
    have hle : r.reference ≤ c := hpending.resolve_right (by simp [hbusy])
    obtain ⟨hmin, hregular, hphase⟩ := regular_of_due hp hle hdue rfl
    refine ⟨?_, hregular.not_ahead.trans hc, fun c' hc' => ⟨(h.pending c' hc').1, Or.inr rfl⟩,
      ?_, fun hshort => ?_⟩
    · have hpaced := h.paced
      dsimp only
      rw [List.length_append, List.length_singleton, Nat.add_mul, Nat.one_mul]
      omega
    · intro a ha
      rcases List.mem_append.mp ha with ha | ha
      · exact h.regular a ha
      · rw [List.mem_singleton.mp ha]
        exact hregular
    · dsimp only
      rw [hphase (hshort _ (List.mem_append_right _ (List.mem_singleton_self _)))]
      have hbefore := h.in_phase fun a ha => hshort a (List.mem_append_left _ ha)
      exact (Nat.add_mod_right _ _).trans hbefore
  · exact h

theorem advance (h : Sound start period clock checks r) {clock' : ℕ} (hle : clock ≤ clock') :
    Sound start period clock' checks r :=
  ⟨h.paced, h.le_clock.trans hle, fun c hc => ⟨(h.pending c hc).1.trans hle, (h.pending c hc).2⟩,
    h.regular, h.in_phase⟩

/-- The tick is read for a check. -/
theorem begin_check (h : Sound start period clock checks r) :
    Sound start period clock (clock :: checks) r := by
  refine ⟨h.paced, h.le_clock, fun c hc => ?_, h.regular, h.in_phase⟩
  rcases List.mem_cons.mp hc with rfl | hc
  · exact ⟨le_rfl, Or.inl h.le_clock⟩
  · exact h.pending c hc

theorem of_subset (h : Sound start period clock checks r) {checks' : List ℕ}
    (hsub : checks' ⊆ checks) : Sound start period clock checks' r :=
  ⟨h.paced, h.le_clock, fun c hc => h.pending c (hsub hc), h.regular, h.in_phase⟩

/-- A release is over, and no check is between its tick and its test. -/
theorem finish (h : Sound start period clock [] r) (busy : Bool) :
    Sound start period clock [] { r with busy := busy } :=
  ⟨h.paced, h.le_clock, by simp, h.regular, h.in_phase⟩

theorem start_at (hle : start ≤ clock) : Sound start period clock [] ⟨start, false, []⟩ :=
  ⟨by simp, hle, by simp, by simp, fun _ => Nat.ModEq.refl _⟩

/-- There are no more releases than periods. -/
theorem kept (h : Sound start period clock checks r) (hp : 0 < period) {time_last : UInt32}
    (hsynced : time_last = UInt32.ofNat r.reference) : r.Kept start period clock time_last := by
  have hpaced := h.paced
  have hclock := h.le_clock
  refine ⟨?_, hsynced, ⟨by omega, hclock⟩, h.regular, h.in_phase⟩
  rw [Nat.le_div_iff_mul_le (UInt32.lt_iff_toNat_lt.mp hp)]
  omega

end Sound
end Release
end Atoman.Lib
