import Mathlib.Algebra.Group.Nat.Defs

/-!
# The key-event detector

A detector counts the samples for which a key is pressed, and raises an event either when that
count reaches a minimum or at the release, if the count lies in a window. After an event it
waits for a number of released samples. The count stops at its largest value.
-/

namespace Atoman.KeyEvent

def UINT32_MAX : ℕ := 2 ^ 32 - 1

/-- `key_event_cfg_t` -/
structure Cfg where
  min_press_ticks : ℕ
  max_press_ticks : ℕ
  cooldown_ticks : ℕ
  release_required : UInt8
  min_le : min_press_ticks ≤ UINT32_MAX
  max_le : max_press_ticks ≤ UINT32_MAX
  cooldown_le : cooldown_ticks ≤ UINT32_MAX
deriving DecidableEq

end KeyEvent

/-- `key_event_t` -/
structure KeyEvent where
  cfg : KeyEvent.Cfg
  press_ticks : ℕ
  cooldown_remaining_ticks : ℕ
  event_pending : Bool
deriving DecidableEq

namespace KeyEvent

/-- `key_event_reset` -/
def reset (p_event : KeyEvent) : KeyEvent :=
  { p_event with press_ticks := 0, cooldown_remaining_ticks := 0, event_pending := false }

/-- `key_event_init`: the detector, and whether the configuration was accepted -/
def init (p_event : KeyEvent) (p_cfg : Option Cfg) : KeyEvent × Bool :=
  match p_cfg with
  | none => (p_event, false)
  | some cfg =>
    let cfg := { cfg with release_required := if cfg.release_required = 1 then 1 else 0 }
    let p_event := reset { p_event with cfg := cfg }
    if cfg.release_required = 1 ∧ cfg.max_press_ticks < cfg.min_press_ticks then
      ({ p_event with cfg := ⟨0, 0, 0, 0, Nat.zero_le _, Nat.zero_le _, Nat.zero_le _⟩ }, false)
    else (p_event, true)

/-- `key_event_update` -/
def update (p_event : KeyEvent) (is_pressed : UInt8) : KeyEvent :=
  if p_event.cooldown_remaining_ticks > 0 then
    if is_pressed = 1 then p_event
    else
      { p_event with
        cooldown_remaining_ticks := p_event.cooldown_remaining_ticks - 1, press_ticks := 0 }
  else if is_pressed = 1 then
    let p_event :=
      if p_event.press_ticks < UINT32_MAX then
        { p_event with press_ticks := p_event.press_ticks + 1 }
      else p_event
    if p_event.cfg.release_required = 0 ∧ p_event.press_ticks ≥ p_event.cfg.min_press_ticks then
      { p_event with
        event_pending := true
        cooldown_remaining_ticks := p_event.cfg.cooldown_ticks, press_ticks := 0 }
    else p_event
  else
    let p_event :=
      if p_event.cfg.release_required = 1 ∧ p_event.press_ticks ≥ p_event.cfg.min_press_ticks ∧
          p_event.press_ticks ≤ p_event.cfg.max_press_ticks then
        { p_event with
          event_pending := true, cooldown_remaining_ticks := p_event.cfg.cooldown_ticks }
      else p_event
    { p_event with press_ticks := 0 }

/-- `key_event_take` -/
def take (p_event : KeyEvent) : KeyEvent × Bool :=
  ({ p_event with event_pending := false }, p_event.event_pending)

/-- A sample raises an event: the flag is set by it, also where no event was pending. -/
def raises (p_event : KeyEvent) (is_pressed : UInt8) : Bool :=
  (update { p_event with event_pending := false } is_pressed).event_pending

/-! ## One sample -/

/-- What a sample does. -/
inductive Moves (s : KeyEvent) (x : UInt8) : KeyEvent → Bool → Prop
  | hold (cooling : 0 < s.cooldown_remaining_ticks) (pressed : x = 1) : Moves s x s false
  | cool (cooling : 0 < s.cooldown_remaining_ticks) (released : x ≠ 1) :
    Moves s x
      { s with
        cooldown_remaining_ticks := s.cooldown_remaining_ticks - 1, press_ticks := 0 } false
  | count (elapsed : s.cooldown_remaining_ticks = 0) (pressed : x = 1)
    (more : s.cfg.release_required = 0 →
      min UINT32_MAX (s.press_ticks + 1) < s.cfg.min_press_ticks) :
    Moves s x { s with press_ticks := min UINT32_MAX (s.press_ticks + 1) } false
  | press (elapsed : s.cooldown_remaining_ticks = 0) (pressed : x = 1)
    (mode : s.cfg.release_required = 0)
    (enough : s.cfg.min_press_ticks ≤ min UINT32_MAX (s.press_ticks + 1)) :
    Moves s x
      { s with
        event_pending := true
        cooldown_remaining_ticks := s.cfg.cooldown_ticks, press_ticks := 0 } true
  | drop (elapsed : s.cooldown_remaining_ticks = 0) (released : x ≠ 1)
    (outside : s.cfg.release_required = 1 → s.cfg.min_press_ticks ≤ s.press_ticks →
      s.cfg.max_press_ticks < s.press_ticks) :
    Moves s x { s with press_ticks := 0 } false
  | release (elapsed : s.cooldown_remaining_ticks = 0) (released : x ≠ 1)
    (mode : s.cfg.release_required = 1) (enough : s.cfg.min_press_ticks ≤ s.press_ticks)
    (short : s.press_ticks ≤ s.cfg.max_press_ticks) :
    Moves s x
      { s with
        event_pending := true
        cooldown_remaining_ticks := s.cfg.cooldown_ticks, press_ticks := 0 } true

/-- The count after a pressed sample, if it has not passed its largest value. -/
theorem saturate {n : ℕ} (h : n ≤ UINT32_MAX) :
    (if n < UINT32_MAX then n + 1 else n) = min UINT32_MAX (n + 1) := by
  split <;> omega

theorem update_moves {s : KeyEvent} (hticks : s.press_ticks ≤ UINT32_MAX) (x : UInt8) :
    Moves s x (s.update x) (s.raises x) := by
  obtain ⟨cfg, press_ticks, cooldown, pending⟩ := s
  simp only at hticks
  by_cases hcool : cooldown > 0
  · by_cases hx : x = 1
    · simp only [update, raises, if_pos hcool, if_pos hx]
      exact .hold hcool hx
    · simp only [update, raises, if_pos hcool, if_neg hx]
      exact .cool hcool hx
  · have hover : cooldown = 0 := by omega
    by_cases hx : x = 1
    · have hcount : ∀ pending, (if press_ticks < UINT32_MAX then
          (⟨cfg, press_ticks + 1, cooldown, pending⟩ : KeyEvent)
          else ⟨cfg, press_ticks, cooldown, pending⟩) =
          ⟨cfg, min UINT32_MAX (press_ticks + 1), cooldown, pending⟩ := by
        intro pending
        rw [← saturate hticks]
        split <;> rfl
      simp only [update, raises, if_neg hcool, if_pos hx, hcount]
      by_cases hpress : cfg.release_required = 0 ∧
          min UINT32_MAX (press_ticks + 1) ≥ cfg.min_press_ticks
      · simp only [if_pos hpress]
        exact .press hover hx hpress.1 hpress.2
      · simp only [if_neg hpress]
        exact .count hover hx fun hmode => Nat.lt_of_not_le fun hle => hpress ⟨hmode, hle⟩
    · simp only [update, raises, if_neg hcool, if_neg hx]
      by_cases hrelease : cfg.release_required = 1 ∧ press_ticks ≥ cfg.min_press_ticks ∧
          press_ticks ≤ cfg.max_press_ticks
      · simp only [if_pos hrelease]
        exact .release hover hx hrelease.1 hrelease.2.1 hrelease.2.2
      · simp only [if_neg hrelease]
        exact .drop hover hx fun hmode hmin =>
          Nat.lt_of_not_le fun hle => hrelease ⟨hmode, hmin, hle⟩

end KeyEvent
end Atoman
