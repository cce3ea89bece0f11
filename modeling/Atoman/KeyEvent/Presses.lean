import Atoman.KeyEvent.Detector
import Mathlib.Data.Nat.Count

/-!
# Events and presses

An event is to rest on a run of pressed samples of its own, long enough, that began when the
wait after the events before it was over; and every such run is to raise one. The detector
does so but for two kinds of samples where events are raised at the release: one that ends no
press, if no minimum is set, and one that ends a press longer than the count can tell, if the
window is open to its largest value.
-/

namespace Atoman.KeyEvent

/-- The detector after the first `k` samples -/
def after (p_event : KeyEvent) (samples : ℕ → UInt8) : ℕ → KeyEvent
  | 0 => p_event
  | k + 1 => (after p_event samples k).update (samples k)

/-- The sample at `k` raises an event. -/
def Raised (p_event : KeyEvent) (samples : ℕ → UInt8) (k : ℕ) : Prop :=
  (after p_event samples k).raises (samples k) = true

instance (p_event : KeyEvent) (samples : ℕ → UInt8) : DecidablePred (Raised p_event samples) :=
  fun _ => inferInstanceAs (Decidable (_ = true))

/-- The released samples from `i` on, before `j` -/
def releases (samples : ℕ → UInt8) (i j : ℕ) : ℕ :=
  Nat.count (fun k => samples k ≠ 1) j - Nat.count (fun k => samples k ≠ 1) i

/-- A run of pressed samples from `a` on, for an event at `k`: all events before it lie before the
run, and so does their cooldown. At a release the run is the whole press. -/
structure Qualifies (cfg : Cfg) (samples : ℕ → UInt8) (event : ℕ → Prop) (a k : ℕ) : Prop where
  pressed : ∀ j, a ≤ j → j < k → samples j = 1
  before : ∀ j < k, event j → j < a ∧ cfg.cooldown_ticks ≤ releases samples (j + 1) a
  press : cfg.release_required ≠ 1 →
    samples k = 1 ∧ max 1 cfg.min_press_ticks ≤ k + 1 - a
  release : cfg.release_required = 1 →
    samples k ≠ 1 ∧ (a = 0 ∨ samples (a - 1) ≠ 1) ∧
      max 1 cfg.min_press_ticks ≤ k - a ∧ k - a ≤ cfg.max_press_ticks

/-- The events among the first `n` samples are those that a run of their own qualifies. -/
structure Corresponds (cfg : Cfg) (samples : ℕ → UInt8) (event : ℕ → Prop) (n : ℕ) : Prop where
  justified : ∀ k < n, event k → ∃ a, Qualifies cfg samples event a k
  complete : ∀ a k, k < n → Qualifies cfg samples event a k → event k
  between : ∀ j k, j < k → k < n → event j → event k →
    cfg.cooldown_ticks ≤ releases samples (j + 1) k

/-! ## Counting released samples -/

section Releases
variable {samples : ℕ → UInt8} {i j : ℕ}

@[simp] theorem releases_self : releases samples i i = 0 := Nat.sub_self _

theorem releases_succ_of_pressed (h : samples j = 1) :
    releases samples i (j + 1) = releases samples i j := by
  simp [releases, Nat.count_succ, h]

theorem releases_succ_of_released (hij : i ≤ j) (h : samples j ≠ 1) :
    releases samples i (j + 1) = releases samples i j + 1 := by
  have hmono := Nat.count_monotone (fun k => samples k ≠ 1) hij
  simp only [releases, Nat.count_succ, if_pos h]
  omega

theorem releases_mono {k : ℕ} (h : j ≤ k) : releases samples i j ≤ releases samples i k :=
  Nat.sub_le_sub_right (Nat.count_monotone _ h) _

end Releases

/-! ## What holds before each sample -/

/-- The run that the count of a detector stands for. -/
structure Counts (cfg : Cfg) (samples : ℕ → UInt8) (event : ℕ → Prop) (s : KeyEvent) (k a : ℕ) :
    Prop where
  le : a ≤ k
  ticks : s.press_ticks = min UINT32_MAX (k - a)
  pressed : ∀ j, a ≤ j → j < k → samples j = 1
  before : ∀ j < k, event j → j < a
  elapsed : a < k → ∀ j < a, event j → cfg.cooldown_ticks ≤ releases samples (j + 1) a
  whole : s.cooldown_remaining_ticks = 0 → a = 0 ∨ samples (a - 1) ≠ 1 ∨ event (a - 1)

/-- The state before the sample at `k`. -/
structure Inv (cfg : Cfg) (samples : ℕ → UInt8) (event : ℕ → Prop) (s : KeyEvent) (k : ℕ) :
    Prop where
  config : s.cfg = { cfg with release_required := if cfg.release_required = 1 then 1 else 0 }
  cooled : ∀ j < k, event j →
    cfg.cooldown_ticks ≤ releases samples (j + 1) k + s.cooldown_remaining_ticks
  cooling : 0 < s.cooldown_remaining_ticks →
    ∃ j < k, event j ∧ releases samples (j + 1) k + s.cooldown_remaining_ticks ≤ cfg.cooldown_ticks
  still : 0 < s.cooldown_remaining_ticks → s.press_ticks = 0
  counts : ∃ a, Counts cfg samples event s k a

section Step
variable {cfg : Cfg} {samples : ℕ → UInt8} {event : ℕ → Prop} {s s' : KeyEvent} {k : ℕ}

theorem Inv.ticks_le (h : Inv cfg samples event s k) : s.press_ticks ≤ UINT32_MAX := by
  obtain ⟨a, ha⟩ := h.counts
  rw [ha.ticks]
  exact min_le_left _ _

/-- Nothing is counted, so the run is empty. -/
theorem Counts.start {s : KeyEvent} (hticks : s.press_ticks = 0)
    (hwhole : s.cooldown_remaining_ticks = 0 → k = 0 ∨ samples (k - 1) ≠ 1 ∨ event (k - 1)) :
    Counts cfg samples event s k k where
  le := le_rfl
  ticks := by rw [hticks, Nat.sub_self, Nat.min_zero]
  pressed := by omega
  before := fun _ hj _ => hj
  elapsed := fun hlt => absurd hlt (lt_irrefl _)
  whole := hwhole

theorem Inv.cooldown_eq (h : Inv cfg samples event s k) :
    s.cfg.cooldown_ticks = cfg.cooldown_ticks := by
  rw [h.config]

/-- A sample that raises an event starts the cooldown. -/
theorem Inv.raise (h : Inv cfg samples event s k) (hevent : event k) (hcfg : s'.cfg = s.cfg)
    (hcooldown : s'.cooldown_remaining_ticks = s.cfg.cooldown_ticks) (hticks : s'.press_ticks = 0) :
    Inv cfg samples event s' (k + 1) where
  config := hcfg.trans h.config
  cooled := by
    intro j _ _
    rw [hcooldown, h.cooldown_eq]
    exact Nat.le_add_left _ _
  cooling := by
    intro _
    refine ⟨k, Nat.lt_succ_self k, hevent, ?_⟩
    rw [hcooldown, h.cooldown_eq, releases_self, Nat.zero_add]
  still := fun _ => hticks
  counts := ⟨k + 1, .start hticks fun _ => .inr (.inr hevent)⟩

/-- One more sample. -/
theorem Inv.step {raised : Bool} (h : Inv cfg samples event s k)
    (hmoves : Moves s (samples k) s' raised) (hevent : event k ↔ raised = true) :
    Inv cfg samples event s' (k + 1) := by
  obtain ⟨a, ha⟩ := h.counts
  have hold : ∀ {P : ℕ → Prop}, (∀ j < k, event j → P j) → raised = false →
      ∀ j < k + 1, event j → P j := by
    intro P hP hraised j hj hj'
    rcases Nat.lt_succ_iff_lt_or_eq.mp hj with hlt | rfl
    · exact hP j hlt hj'
    · rw [hevent, hraised] at hj'
      contradiction
  cases hmoves with
  | hold cooling pressed =>
    refine ⟨h.config, hold ?_ rfl, ?_, h.still, ?_⟩
    · intro j hj hj'
      rw [releases_succ_of_pressed pressed]
      exact h.cooled j hj hj'
    · intro _
      obtain ⟨j, hj, hj', hle⟩ := h.cooling cooling
      rw [← releases_succ_of_pressed pressed] at hle
      exact ⟨j, by omega, hj', hle⟩
    · exact ⟨k + 1, .start (h.still cooling) fun hover => absurd hover (by omega)⟩
  | cool cooling released =>
    refine ⟨h.config, hold ?_ rfl, ?_, fun _ => rfl, ?_⟩
    · intro j hj hj'
      have hle := h.cooled j hj hj'
      rw [releases_succ_of_released (by omega) released]
      simp only
      omega
    · intro hpos
      simp only at hpos ⊢
      obtain ⟨j, hj, hj', hle⟩ := h.cooling cooling
      refine ⟨j, by omega, hj', ?_⟩
      rw [releases_succ_of_released (by omega) released]
      omega
    · exact ⟨k + 1, .start rfl fun _ => .inr (.inl released)⟩
  | count elapsed pressed more =>
    refine ⟨h.config, hold ?_ rfl, ?_, ?_, a, ?_⟩
    · intro j hj hj'
      rw [releases_succ_of_pressed pressed]
      exact h.cooled j hj hj'
    · intro hpos
      simp only [elapsed] at hpos
      omega
    · intro hpos
      simp only [elapsed] at hpos
      omega
    · have hle := ha.le
      refine ⟨by omega, ?_, ?_, hold ha.before rfl, ?_, ha.whole⟩
      · simp only [ha.ticks]
        omega
      · intro j hj hlt
        rcases Nat.lt_succ_iff_lt_or_eq.mp hlt with hlt | rfl
        · exact ha.pressed j hj hlt
        · exact pressed
      · intro _ j hj hj'
        rcases Nat.eq_or_lt_of_le hle with rfl | hlt
        · have hcooled := h.cooled j hj hj'
          rwa [elapsed] at hcooled
        · exact ha.elapsed hlt j hj hj'
  | press elapsed pressed mode enough => exact h.raise (hevent.mpr rfl) rfl rfl rfl
  | drop elapsed released outside =>
    refine ⟨h.config, hold ?_ rfl, ?_, ?_, ?_⟩
    · intro j hj hj'
      exact (h.cooled j hj hj').trans
        (Nat.add_le_add_right (releases_mono (Nat.le_succ k)) _)
    · intro hpos
      simp only [elapsed] at hpos
      omega
    · intro hpos
      simp only [elapsed] at hpos
      omega
    · exact ⟨k + 1, .start rfl fun _ => .inr (.inl released)⟩
  | release elapsed released mode enough short => exact h.raise (hevent.mpr rfl) rfl rfl rfl

/-- A run that qualifies is the one that the detector counts, or the end of it. -/
theorem Counts.le_start {a b : ℕ} (ha : Counts cfg samples event s k a)
    (hover : s.cooldown_remaining_ticks = 0) (hpressed : ∀ j, b ≤ j → j < k → samples j = 1)
    (hbefore : ∀ j < k, event j → j < b) : a ≤ b := by
  by_contra hlt
  have hle := ha.le
  rcases ha.whole hover with rfl | hreleased | hevent
  · omega
  · exact hreleased (hpressed (a - 1) (by omega) (by omega))
  · have hless := hbefore (a - 1) (by omega) hevent
    omega

/-- The detector does not wait when a run that qualifies ends. -/
theorem Inv.elapsed (h : Inv cfg samples event s k) {b : ℕ} (hb : b ≤ k)
    (hbefore : ∀ j < k, event j → j < b ∧ cfg.cooldown_ticks ≤ releases samples (j + 1) b) :
    s.cooldown_remaining_ticks = 0 := by
  by_contra hne
  obtain ⟨j, hj, hevent, hle⟩ := h.cooling (by omega)
  have hcooled := (hbefore j hj hevent).2
  have hmono : releases samples (j + 1) b ≤ releases samples (j + 1) k := releases_mono hb
  omega

/-- What the detector counts lies behind the events and their cooldown. -/
theorem Inv.before (h : Inv cfg samples event s k) {a : ℕ} (ha : Counts cfg samples event s k a)
    (hover : s.cooldown_remaining_ticks = 0) :
    ∀ j < k, event j → j < a ∧ cfg.cooldown_ticks ≤ releases samples (j + 1) a := by
  intro j hj hevent
  refine ⟨ha.before j hj hevent, ?_⟩
  rcases Nat.eq_or_lt_of_le ha.le with rfl | hlt
  · have hcooled := h.cooled j hj hevent
    rwa [hover] at hcooled
  · exact ha.elapsed hlt j (ha.before j hj hevent) hevent

end Step

/-! ## The events of a run -/

/-- A released sample that raises an event though no run of its own qualifies it. -/
structure Misfires (cfg : Cfg) (s : KeyEvent) (samples : ℕ → UInt8) (k : ℕ) : Prop where
  mode : cfg.release_required = 1
  released : samples k ≠ 1
  elapsed : (after s samples k).cooldown_remaining_ticks = 0
  /-- no press, and none is asked for; or a press longer than the count can tell -/
  run : cfg.min_press_ticks = 0 ∧ (after s samples k).press_ticks = 0 ∨
    cfg.max_press_ticks = UINT32_MAX ∧ UINT32_MAX < k ∧
      ∀ j < k, k ≤ j + (UINT32_MAX + 1) → samples j = 1

section Run
variable {cfg : Cfg} {samples : ℕ → UInt8} {s : KeyEvent} {k : ℕ}

/-- A detector that was just initialised. -/
theorem inv_init {event : ℕ → Prop} (s : KeyEvent) (h : (init s (some cfg)).2 = true) :
    Inv cfg samples event (init s (some cfg)).1 0 := by
  simp only [init] at h ⊢
  by_cases hwindow : (if cfg.release_required = 1 then (1 : UInt8) else 0) = 1 ∧
      cfg.max_press_ticks < cfg.min_press_ticks
  · simp only [if_pos hwindow] at h
    contradiction
  · simp only [if_neg hwindow]
    exact ⟨rfl, by simp, by simp [reset], by simp [reset], 0, .start rfl fun _ => .inl rfl⟩

theorem inv_after (h : Inv cfg samples (Raised s samples) s 0) (k : ℕ) :
    Inv cfg samples (Raised s samples) (after s samples k) k := by
  induction k with
  | zero => exact h
  | succ k ih => exact ih.step (update_moves ih.ticks_le (samples k)) Iff.rfl

/-- What the sample at `k` does, by the configuration that the detector was given. -/
theorem moves_after (h : Inv cfg samples (Raised s samples) s 0) (k : ℕ) :
    Moves (after s samples k) (samples k) (after s samples (k + 1))
      ((after s samples k).raises (samples k)) :=
  update_moves (inv_after h k).ticks_le (samples k)

theorem mode_eq (h : Inv cfg samples (Raised s samples) s 0) (k : ℕ) :
    ((after s samples k).cfg.release_required = 1 ↔ cfg.release_required = 1) ∧
      ((after s samples k).cfg.release_required = 0 ↔ cfg.release_required ≠ 1) := by
  rw [(inv_after h k).config]
  by_cases hmode : cfg.release_required = 1 <;> simp [hmode]

/-- Where presses raise events: the pressed samples that complete the count. -/
theorem raised_of_press (h : Inv cfg samples (Raised s samples) s 0)
    (hmode : cfg.release_required ≠ 1) :
    Raised s samples k ↔ samples k = 1 ∧ (after s samples k).cooldown_remaining_ticks = 0 ∧
      cfg.min_press_ticks ≤ min UINT32_MAX ((after s samples k).press_ticks + 1) := by
  have hmoves := moves_after h k
  have hzero := (mode_eq h k).2.mpr hmode
  have hmin : (after s samples k).cfg.min_press_ticks = cfg.min_press_ticks := by
    rw [(inv_after h k).config]
  rw [Raised]
  generalize (after s samples k).raises (samples k) = raised at hmoves ⊢
  generalize after s samples (k + 1) = s' at hmoves
  rw [← hmin]
  cases hmoves with
  | hold cooling => exact iff_of_false Bool.false_ne_true fun hx => by omega
  | cool cooling released => exact iff_of_false Bool.false_ne_true fun hx => released hx.1
  | count elapsed pressed more =>
    exact iff_of_false Bool.false_ne_true fun hx => absurd (more hzero) (Nat.not_lt.mpr hx.2.2)
  | press elapsed pressed mode enough => exact iff_of_true rfl ⟨pressed, elapsed, enough⟩
  | drop elapsed released => exact iff_of_false Bool.false_ne_true fun hx => released hx.1
  | release elapsed released mode => exact absurd ((mode_eq h k).1.mp mode) hmode

/-- Where releases raise events: those that end a count in the window. -/
theorem raised_of_release (h : Inv cfg samples (Raised s samples) s 0)
    (hmode : cfg.release_required = 1) :
    Raised s samples k ↔ samples k ≠ 1 ∧ (after s samples k).cooldown_remaining_ticks = 0 ∧
      cfg.min_press_ticks ≤ (after s samples k).press_ticks ∧
        (after s samples k).press_ticks ≤ cfg.max_press_ticks := by
  have hmoves := moves_after h k
  have hone := (mode_eq h k).1.mpr hmode
  have hmin : (after s samples k).cfg.min_press_ticks = cfg.min_press_ticks := by
    rw [(inv_after h k).config]
  have hmax : (after s samples k).cfg.max_press_ticks = cfg.max_press_ticks := by
    rw [(inv_after h k).config]
  rw [Raised]
  generalize (after s samples k).raises (samples k) = raised at hmoves ⊢
  generalize after s samples (k + 1) = s' at hmoves
  rw [← hmin, ← hmax]
  cases hmoves with
  | hold cooling pressed => exact iff_of_false Bool.false_ne_true fun hx => hx.1 pressed
  | cool cooling => exact iff_of_false Bool.false_ne_true fun hx => by omega
  | count elapsed pressed => exact iff_of_false Bool.false_ne_true fun hx => hx.1 pressed
  | press elapsed pressed mode => exact absurd hmode ((mode_eq h k).2.mp mode)
  | drop elapsed released outside =>
    exact iff_of_false Bool.false_ne_true fun hx =>
      absurd (outside hone hx.2.2.1) (Nat.not_lt.mpr hx.2.2.2)
  | release elapsed released mode enough short =>
    exact iff_of_true rfl ⟨released, elapsed, enough, short⟩

/-- At a release that is not waited for, the count is that of the whole press. -/
theorem whole_press (h : Inv cfg samples (Raised s samples) s 0)
    (hmode : cfg.release_required = 1) {a : ℕ}
    (ha : Counts cfg samples (Raised s samples) (after s samples k) k a)
    (hover : (after s samples k).cooldown_remaining_ticks = 0) :
    a = 0 ∨ samples (a - 1) ≠ 1 := by
  rcases ha.whole hover with rfl | hreleased | hevent
  · exact .inl rfl
  · exact .inr hreleased
  · exact .inr ((raised_of_release h hmode).mp hevent).1

/-- Where presses raise events, the events are those that runs qualify. -/
theorem raised_iff_of_press (h : Inv cfg samples (Raised s samples) s 0)
    (hmode : cfg.release_required ≠ 1) :
    Raised s samples k ↔ ∃ a, Qualifies cfg samples (Raised s samples) a k := by
  have hinv := inv_after h k
  obtain ⟨a, ha⟩ := hinv.counts
  have hle := ha.le
  rw [raised_of_press h hmode, ha.ticks]
  constructor
  · rintro ⟨hpressed, hover, hmin⟩
    refine ⟨a, ha.pressed, hinv.before ha hover, fun _ => ⟨hpressed, ?_⟩,
      fun hrel => absurd hrel hmode⟩
    omega
  · rintro ⟨b, hb⟩
    obtain ⟨hpressed, hlong⟩ := hb.press hmode
    have hover := hinv.elapsed (by omega) hb.before
    have hstart := ha.le_start hover hb.pressed fun j hj hj' => (hb.before j hj hj').1
    have hcfg := cfg.min_le
    refine ⟨hpressed, hover, ?_⟩
    omega

/-- Where releases raise events, a run that qualifies raises one. -/
theorem raised_of_qualifies (h : Inv cfg samples (Raised s samples) s 0)
    (hmode : cfg.release_required = 1) {b : ℕ} (hb : Qualifies cfg samples (Raised s samples) b k) :
    Raised s samples k := by
  have hinv := inv_after h k
  obtain ⟨a, ha⟩ := hinv.counts
  obtain ⟨hreleased, hwhole, hlong, hshort⟩ := hb.release hmode
  have hover := hinv.elapsed (by omega) hb.before
  have hstart := ha.le_start hover hb.pressed fun j hj hj' => (hb.before j hj hj').1
  have heq : a = b := by
    refine le_antisymm hstart ?_
    by_contra hlt
    rcases hwhole with rfl | hwhole
    · omega
    · exact hwhole (ha.pressed (b - 1) (by omega) (by omega))
  subst heq
  have hcfg := cfg.max_le
  rw [raised_of_release h hmode, ha.ticks]
  exact ⟨hreleased, hover, by omega, by omega⟩

/-- Where releases raise events, each rests on a run that qualifies, unless its sample misfires. -/
theorem qualifies_of_raised (h : Inv cfg samples (Raised s samples) s 0)
    (hmode : cfg.release_required = 1) (hnot : ¬ Misfires cfg s samples k)
    (hraised : Raised s samples k) : ∃ a, Qualifies cfg samples (Raised s samples) a k := by
  have hinv := inv_after h k
  obtain ⟨a, ha⟩ := hinv.counts
  obtain ⟨hreleased, hover, hmin, hmax⟩ := (raised_of_release h hmode).mp hraised
  have hle := ha.le
  have hcfg := cfg.max_le
  rw [ha.ticks] at hmin hmax
  have hpress : 1 ≤ k - a := by
    by_contra hzero
    exact hnot ⟨hmode, hreleased, hover, .inl ⟨by omega, by rw [ha.ticks]; omega⟩⟩
  have hshort : k - a ≤ cfg.max_press_ticks := by
    by_contra hlong
    exact hnot ⟨hmode, hreleased, hover, .inr ⟨by omega, by omega, fun j hj hj' =>
      ha.pressed j (by omega) hj⟩⟩
  exact ⟨a, ha.pressed, hinv.before ha hover, fun hrel => absurd hmode hrel,
    fun _ => ⟨hreleased, whole_press h hmode ha hover, by omega, hshort⟩⟩

/-- A sample that misfires raises an event, and no run qualifies it. -/
theorem Misfires.unjustified (h : Inv cfg samples (Raised s samples) s 0)
    (hmis : Misfires cfg s samples k) :
    Raised s samples k ∧ ¬ ∃ a, Qualifies cfg samples (Raised s samples) a k := by
  have hinv := inv_after h k
  obtain ⟨a, ha⟩ := hinv.counts
  have hwhole := whole_press h hmis.mode ha hmis.elapsed
  have hle := ha.le
  have hcfg := cfg.min_le
  rw [raised_of_release h hmis.mode]
  rcases hmis.run with ⟨hmin, hticks⟩ | ⟨hmax, hk, hlong⟩
  · refine ⟨⟨hmis.released, hmis.elapsed, by omega, by omega⟩, ?_⟩
    rintro ⟨b, hb⟩
    obtain ⟨-, -, hpress, -⟩ := hb.release hmis.mode
    rw [ha.ticks] at hticks
    have hend : a = k := by
      have hpos : 0 < UINT32_MAX := by decide
      omega
    subst hend
    rcases hwhole with rfl | hwhole
    · omega
    · exact hwhole (hb.pressed (a - 1) (by omega) (by omega))
  · have hstart : a + UINT32_MAX < k := by
      rcases hwhole with rfl | hwhole
      · omega
      · by_contra hlt
        rcases Nat.eq_zero_or_pos a with rfl | hpos
        · omega
        · exact hwhole (hlong (a - 1) (by omega) (by omega))
    refine ⟨⟨hmis.released, hmis.elapsed, ?_, ?_⟩, ?_⟩
    · rw [ha.ticks]
      omega
    · rw [ha.ticks]
      omega
    · rintro ⟨b, hb⟩
      obtain ⟨-, hwhole', hpress, hshort⟩ := hb.release hmis.mode
      rcases hwhole' with rfl | hwhole'
      · omega
      · exact hwhole' (hlong (b - 1) (by omega) (by omega))

end Run

/-- A configuration that is accepted where releases raise events has a window. -/
theorem window_of_accepted {cfg : Cfg} {s : KeyEvent} (h : (init s (some cfg)).2 = true)
    (hmode : cfg.release_required = 1) : cfg.min_press_ticks ≤ cfg.max_press_ticks := by
  by_contra hlt
  have hinverted : (if cfg.release_required = 1 then (1 : UInt8) else 0) = 1 ∧
      cfg.max_press_ticks < cfg.min_press_ticks := ⟨if_pos hmode, by omega⟩
  simp only [init, if_pos hinverted] at h
  contradiction

/-- The events of a detector correspond to the runs that qualify, exactly if no sample misfires. -/
theorem corresponds_iff (p_event : KeyEvent) (cfg : Cfg) (samples : ℕ → UInt8) (n : ℕ)
    (haccepted : (init p_event (some cfg)).2 = true) :
    Corresponds cfg samples (Raised (init p_event (some cfg)).1 samples) n ↔
      ∀ k < n, ¬ Misfires cfg (init p_event (some cfg)).1 samples k := by
  have hinv : Inv cfg samples (Raised (init p_event (some cfg)).1 samples)
      (init p_event (some cfg)).1 0 := inv_init p_event haccepted
  have hwindow := window_of_accepted haccepted
  generalize (init p_event (some cfg)).1 = s at hinv ⊢
  constructor
  · intro h k hk hmis
    obtain ⟨hraised, hnone⟩ := hmis.unjustified hinv
    exact hnone (h.justified k hk hraised)
  · intro hnot
    have hjustified : ∀ k < n, Raised s samples k →
        ∃ a, Qualifies cfg samples (Raised s samples) a k := by
      intro k hk hraised
      by_cases hmode : cfg.release_required = 1
      · exact qualifies_of_raised hinv hmode (hnot k hk) hraised
      · exact (raised_iff_of_press hinv hmode).mp hraised
    refine ⟨hjustified, ?_, ?_⟩
    · intro a k _ ha
      by_cases hmode : cfg.release_required = 1
      · exact raised_of_qualifies hinv hmode ha
      · exact (raised_iff_of_press hinv hmode).mpr ⟨a, ha⟩
    · intro j k hjk hk hj hraised
      obtain ⟨a, ha⟩ := hjustified k hk hraised
      have hle : a ≤ k := by
        by_cases hmode : cfg.release_required = 1
        · have hpress := (ha.release hmode).2.2.1
          omega
        · have hpress := (ha.press hmode).2
          omega
      exact (ha.before j hjk hj).2.trans (releases_mono hle)

/-- A short press, with a cooldown -/
theorem corresponds_shortPress :
    (init ⟨⟨0, 0, 0, 0, by decide, by decide, by decide⟩, 0, 0, false⟩
      (some ⟨2, 4, 2, 1, by decide, by decide, by decide⟩)).2 = true ∧
    (Corresponds ⟨2, 4, 2, 1, by decide, by decide, by decide⟩ (fun k => if k < 2 then 1 else 0)
      (Raised (init ⟨⟨0, 0, 0, 0, by decide, by decide, by decide⟩, 0, 0, false⟩
        (some ⟨2, 4, 2, 1, by decide, by decide, by decide⟩)).1 fun k => if k < 2 then 1 else 0) 3 ↔
      ∀ k < 3, ¬ Misfires ⟨2, 4, 2, 1, by decide, by decide, by decide⟩
        (init ⟨⟨0, 0, 0, 0, by decide, by decide, by decide⟩, 0, 0, false⟩
          (some ⟨2, 4, 2, 1, by decide, by decide, by decide⟩)).1
        (fun k => if k < 2 then 1 else 0) k) :=
  ⟨by decide, corresponds_iff _ _ _ 3 (by decide)⟩

/-- Without a minimum, a key that was never pressed raises an event. -/
theorem not_corresponds_of_no_minimum :
    ¬ ∀ (p_event : KeyEvent) (cfg : Cfg) (samples : ℕ → UInt8) (n : ℕ),
      (init p_event (some cfg)).2 = true →
        Corresponds cfg samples (Raised (init p_event (some cfg)).1 samples) n := by
  intro h
  have hall := h ⟨⟨0, 0, 0, 0, by decide, by decide, by decide⟩, 0, 0, false⟩
    ⟨0, 4, 2, 1, by decide, by decide, by decide⟩ (fun _ => 0) 1 (by decide)
  obtain ⟨a, ha⟩ := hall.justified 0 (by decide) (by decide)
  have hpress := (ha.release rfl).2.2.1
  omega

end KeyEvent
end Atoman
