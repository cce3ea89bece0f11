import Atoman.Lib.ModularTime
import Atoman.SectionStl.Timing

/-!
# The phase of a periodic task

The core sees ticks modulo `2 ^ 32`; here they are counted without bound. The reference of a
task in an enabled group is then the last whole period since the enable that a release check
has seen, as long as the next check comes before the counter has turned around.
-/

namespace Atoman.SectionStl
open Lib (Transition recurrence)
open Lib.ModularTime

/-- The core, with the real tick that `tick_now` stands for, and those at which the group of
each task was enabled and its release was checked last. -/
structure Timed where
  core : State
  time : ℕ
  enabledAt : ℕ → ℕ
  checkedAt : ℕ → ℕ

/-- The action checks whether the task, which sleeps, is due. -/
def State.Checks (cfg : Config) (s : State) (action : Action) (t : ℕ) : Prop :=
  match s.scanned cfg action with
  | none => False
  | some u => u.Visits t ∧ (u.tasks t).state = .sleeping

instance (cfg : Config) (s : State) (action : Action) (t : ℕ) :
    Decidable (s.Checks cfg action t) := by
  unfold State.Checks
  split <;> infer_instance

namespace Timed
variable {cfg : Config} {c : Timed} {u : State} {action : Action} {time t : ℕ}

/-- An action at a real tick. -/
def exec (cfg : Config) (c : Timed) (action : Action) (time : ℕ) : Timed where
  core := c.core.exec cfg action
  time := time
  enabledAt := fun t => if t ∈ c.core.enabling action then time else c.enabledAt t
  checkedAt := fun t =>
    if t ∈ c.core.enabling action ∨ c.core.Checks cfg action t then time else c.checkedAt t

/-- The real tick goes on when a tick is published, and stands still otherwise. -/
def At (cfg : Config) (c : Timed) (action : Action) (time : ℕ) : Prop :=
  (action.publishes = true →
    c.time ≤ time ∧ (c.core.exec cfg action).tick_now = UInt32.ofNat time) ∧
    (action.publishes = false → time = c.time)

instance (cfg : Config) (c : Timed) (action : Action) (time : ℕ) :
    Decidable (c.At cfg action time) :=
  inferInstanceAs (Decidable (_ ∧ _))

/-- A release check of the task comes at most so many ticks behind the one before. -/
def Timely (cfg : Config) (limit : UInt32 → ℕ) (t : ℕ) (c : Timed) (action : Action) (time : ℕ) :
    Prop :=
  c.core.Checks cfg action t → time ≤ c.checkedAt t + limit (c.core.tasks t).period

instance (cfg : Config) (limit : UInt32 → ℕ) (t : ℕ) (c : Timed) (action : Action) (time : ℕ) :
    Decidable (c.Timely cfg limit t action time) :=
  inferInstanceAs (Decidable (_ → _))

/-- The runs in which the release checks of a task come in time. -/
def runs (cfg : Config) (limit : UInt32 → ℕ) (t : ℕ) : Transition Timed where
  init := fun c => (SectionStl.runs cfg).init c.core ∧ c.time = 0
  next := fun c c' => ∃ action time, c.At cfg action time ∧ c.Timely cfg limit t action time ∧
    c' = c.exec cfg action time

/-- What relates the reference of a task to real ticks. -/
structure Phased (cfg : Config) (c : Timed) (t : ℕ) : Prop where
  joint : ∃ xs, c.core.Joint cfg xs none
  now : c.core.tick_now = UInt32.ofNat c.time
  period : ∀ g, c.core.Owns g t → (c.core.tasks t).period ≠ 0
  ordered : ∀ g, c.core.Owns g t → (c.core.groups g).state = .enabled →
    c.enabledAt t ≤ c.checkedAt t ∧ c.checkedAt t ≤ c.time
  last : ∀ g, c.core.Owns g t → (c.core.groups g).state = .enabled → (c.core.tasks t).last =
    UInt32.ofNat (recurrence (c.enabledAt t) (c.core.tasks t).period.toNat (c.checkedAt t))

/-- The ticks that a gap between two checks may have. -/
def turn (period : UInt32) : ℕ := 2 ^ 32 - period.toNat

/-- The real tick behind an action. -/
theorem At.now (hat : c.At cfg action time) (hnow : c.core.tick_now = UInt32.ofNat c.time)
    (hsame : action.publishes = false → (c.core.exec cfg action).tick_now = c.core.tick_now) :
    c.time ≤ time ∧ (c.core.exec cfg action).tick_now = UInt32.ofNat time := by
  cases hpublishes : action.publishes with
  | true => exact hat.1 hpublishes
  | false =>
    rw [hsame hpublishes, hnow, hat.2 hpublishes]
    exact ⟨Nat.le_refl _, rfl⟩

/-- Only the enable of a group, which publishes no tick, sets references. -/
theorem At.eq_of_enabling (hat : c.At cfg action time) (ht : t ∈ c.core.enabling action) :
    time = c.time := by
  cases action with
  | enable port handle => exact hat.2 rfl
  | _ => exact absurd ht List.not_mem_nil

/-! ## One check -/

/-- A task that sleeps in an enabled group. -/
structure Checked (cfg : Config) (c : Timed) (u : State) (action : Action) (time t : ℕ) : Prop where
  now : u.tick_now = UInt32.ofNat time
  period : (u.tasks t).period = (c.core.tasks t).period
  last : (u.tasks t).last =
    UInt32.ofNat (recurrence (c.enabledAt t) (c.core.tasks t).period.toNat (c.checkedAt t))
  positive : 0 < (c.core.tasks t).period.toNat
  enabled : c.enabledAt t ≤ c.checkedAt t
  checked : c.checkedAt t ≤ time

namespace Phased

/-- What an enabled task has when a scan visits it. -/
theorem visit (h : Phased cfg c t) (hat : c.At cfg action time)
    (hscan : c.core.scanned cfg action = some u) (hvisits : u.Visits t) :
    Checked cfg c u action time t := by
  obtain ⟨xs, hjoint⟩ := h.joint
  obtain ⟨hscanning, -⟩ := hjoint.scanning action hscan
  obtain ⟨g, hg, hstate, ht⟩ := hvisits
  have howns : c.core.Owns g t := hscanning.before.owns g t ⟨hg, ht⟩
  have henabled := hscanning.before.enabled g hstate
  obtain ⟨hle, hnow⟩ := hat.now h.now hscanning.tick_now
  obtain ⟨hec, hct⟩ := h.ordered g howns henabled
  refine ⟨hscanning.now.trans hnow, hscanning.before.period g t ⟨hg, ht⟩,
    (hscanning.before.last g t ⟨hg, ht⟩).trans (h.last g howns henabled), ?_, hec, hct.trans hle⟩
  exact Nat.pos_of_ne_zero fun hzero => h.period g howns (UInt32.toNat_inj.mp hzero)

end Phased

namespace Checked
variable (h : Checked cfg c u action time t) (hsleep : (u.tasks t).state = .sleeping)
  (htimely : time ≤ c.checkedAt t + turn (c.core.tasks t).period)
include h htimely

/-- The counter has not turned around since the reference. -/
theorem within : recurrence (c.enabledAt t) (c.core.tasks t).period.toNat (c.checkedAt t) ≤ time ∧
    time < recurrence (c.enabledAt t) (c.core.tasks t).period.toNat (c.checkedAt t) + 2 ^ 32 := by
  have hle := recurrence_le (p := (c.core.tasks t).period.toNat) h.enabled
  have hlt := lt_recurrence h.positive h.enabled
  have hchecked := h.checked
  have hperiod := (c.core.tasks t).period.toNat_lt
  unfold turn at htimely
  omega

include hsleep

/-- **A release check** releases the task when a whole period has ended since the last one,
and leaves the reference at the last whole period. -/
theorem released : ((u.released t).state = .new ↔
      recurrence (c.enabledAt t) (c.core.tasks t).period.toNat (c.checkedAt t) +
        (c.core.tasks t).period.toNat ≤ time) ∧
    (u.released t).last =
      UInt32.ofNat (recurrence (c.enabledAt t) (c.core.tasks t).period.toNat time) ∧
    ((u.released t).state ≠ .new → u.released t = u.tasks t) := by
  obtain ⟨hle, hlt⟩ := h.within htimely
  set reference := recurrence (c.enabledAt t) (c.core.tasks t).period.toNat (c.checkedAt t)
  have helapsed : (u.tick_now - (u.tasks t).last).toNat = time - reference := by
    rw [h.now, h.last]
    exact toNat_sub hle hlt
  have hdue : (u.tasks t).period ≤ u.tick_now - (u.tasks t).last ↔
      reference + (c.core.tasks t).period.toNat ≤ time := by
    rw [UInt32.le_iff_toNat_le, helapsed, h.period]
    omega
  have hadvance : recurrence reference (c.core.tasks t).period.toNat time =
      recurrence (c.enabledAt t) (c.core.tasks t).period.toNat time :=
    recurrence_recurrence h.checked
  unfold State.released
  dsimp only
  by_cases hpassed : reference + (c.core.tasks t).period.toNat ≤ time
  · rw [if_pos ⟨hsleep, hdue.mpr hpassed⟩]
    refine ⟨iff_of_true rfl hpassed, ?_, fun hne => absurd rfl hne⟩
    show (u.tasks t).last + _ = _
    rw [h.now, h.last, h.period, ← hadvance]
    exact advance hle hlt
  · rw [if_neg fun hboth => hpassed (hdue.mp hboth.2)]
    refine ⟨iff_of_false (by rw [hsleep]; exact nofun) hpassed, ?_, fun _ => rfl⟩
    have hzero : (time - reference) / (c.core.tasks t).period.toNat = 0 :=
      Nat.div_eq_of_lt (by omega)
    have hstays : recurrence reference (c.core.tasks t).period.toNat time = reference := by
      rw [recurrence, hzero, Nat.zero_mul, Nat.add_zero]
    rw [h.last, ← hadvance, hstays]

end Checked

/-! ## Runs -/

/-- The task, after a scan that visits it. -/
theorem Phased.release (h : Phased cfg c t) (hat : c.At cfg action time)
    (htimely : c.Timely cfg turn t action time) (hscan : c.core.scanned cfg action = some u)
    (hvisits : u.Visits t) (hsleep : (u.tasks t).state = .sleeping) :
    ((u.activateDue.tasks t).state = .new ↔
      recurrence (c.enabledAt t) (c.core.tasks t).period.toNat (c.checkedAt t) +
        (c.core.tasks t).period.toNat ≤ time) ∧
    (u.activateDue.tasks t).last =
      UInt32.ofNat (recurrence (c.enabledAt t) (c.core.tasks t).period.toNat time) ∧
    ((u.activateDue.tasks t).state ≠ .new → u.activateDue.tasks t = u.tasks t) := by
  obtain ⟨xs, hjoint⟩ := h.joint
  obtain ⟨ys, hjoint'⟩ := (hjoint.scanning action hscan).1.joint
  have hchecks : c.core.Checks cfg action t := by
    unfold State.Checks
    rw [hscan]
    exact ⟨hvisits, hsleep⟩
  rw [hjoint'.activateDue_tasks t, if_pos hvisits]
  exact (h.visit hat hscan hvisits).released hsleep (htimely hchecks)

/-- **A step** keeps the reference in phase. -/
theorem Phased.exec (h : Phased cfg c t) (hat : c.At cfg action time)
    (htimely : c.Timely cfg turn t action time) : Phased cfg (c.exec cfg action time) t := by
  obtain ⟨xs, hjoint⟩ := h.joint
  have hexec := (hjoint.exec action).joint
  cases hscan : c.core.scanned cfg action with
  | none =>
    have htiming := hjoint.timing action hscan
    obtain ⟨hle, hnow⟩ := hat.now h.now htiming.tick_now
    have hchecks : ¬ c.core.Checks cfg action t := by
      unfold State.Checks
      rw [hscan]
      exact id
    refine ⟨hexec, hnow, fun g howns => ?_, fun g howns hstate => ?_, fun g howns hstate => ?_⟩
    · cases htiming.tasks g t howns with
      | same hbefore _ _ hperiod _ =>
        rw [show ((c.exec cfg action time).core.tasks t).period = _ from hperiod]
        exact h.period g hbefore
      | renewed hbefore _ hperiod _ =>
        rw [show ((c.exec cfg action time).core.tasks t).period = _ from hperiod]
        exact h.period g hbefore
      | registered _ hperiod => exact hperiod
    · cases htiming.tasks g t howns with
      | same hbefore henabled hkept _ _ =>
        obtain ⟨hec, hct⟩ := h.ordered g hbefore (henabled hstate)
        simp only [Timed.exec, if_neg hkept, if_neg (not_or.mpr ⟨hkept, hchecks⟩)]
        exact ⟨hec, hct.trans hle⟩
      | renewed _ hin _ _ =>
        simp only [Timed.exec, if_pos hin, if_pos (Or.inl hin : _ ∨ c.core.Checks cfg action t)]
        exact ⟨Nat.le_refl _, Nat.le_refl _⟩
      | registered hdisabled _ => exact absurd hstate hdisabled
    · cases htiming.tasks g t howns with
      | same hbefore henabled hkept hperiod hlast =>
        simp only [Timed.exec, if_neg hkept, if_neg (not_or.mpr ⟨hkept, hchecks⟩)]
        rw [hlast, hperiod]
        exact h.last g hbefore (henabled hstate)
      | renewed _ hin hperiod hlast =>
        simp only [Timed.exec, if_pos hin, if_pos (Or.inl hin : _ ∨ c.core.Checks cfg action t)]
        rw [hlast, recurrence_self, h.now, hat.eq_of_enabling hin]
      | registered hdisabled _ => exact absurd hstate hdisabled
  | some u =>
    obtain ⟨hscanning, henabling⟩ := hjoint.scanning action hscan
    obtain ⟨ys, hjoint'⟩ := hscanning.joint
    obtain ⟨hle, hnow⟩ := hat.now h.now hscanning.tick_now
    have hact := State.activated_due u
    have hkept : t ∉ c.core.enabling action := by
      rw [henabling]
      exact List.not_mem_nil
    have hvisit {g : ℕ} (howns : (c.core.exec cfg action).Owns g t)
        (hstate : ((c.core.exec cfg action).groups g).state = .enabled) : u.Visits t := by
      obtain ⟨hg, ht⟩ := (hact.groups.owns g t).mp (hscanning.behind.owns g t howns)
      exact ⟨g, hg, hact.groups.groups ▸ hscanning.behind.enabled g hstate, ht⟩
    have hperiod {g : ℕ} (howns : (c.core.exec cfg action).Owns g t) :
        ((c.core.exec cfg action).tasks t).period = (c.core.tasks t).period ∧ c.core.Owns g t := by
      have hdue := hscanning.behind.owns g t howns
      have hbefore := (hact.groups.owns g t).mp hdue
      refine ⟨(hscanning.behind.period g t howns).trans
        (Eq.trans ?_ (hscanning.before.period g t hbefore)), hscanning.before.owns g t hbefore⟩
      rw [hjoint'.activateDue_tasks t]
      split
      · exact State.released_period u t
      · rfl
    refine ⟨hexec, hnow, fun g howns => ?_, fun g howns hstate => ?_, fun g howns hstate => ?_⟩
    · rw [show ((c.exec cfg action time).core.tasks t).period = _ from (hperiod howns).1]
      exact h.period g (hperiod howns).2
    · have hchecked := h.visit hat hscan (hvisit howns hstate)
      simp only [Timed.exec, if_neg hkept]
      split
      · exact ⟨hchecked.enabled.trans hchecked.checked, Nat.le_refl _⟩
      · exact ⟨hchecked.enabled, hchecked.checked⟩
    · have hvisits := hvisit howns hstate
      have hchecked := h.visit hat hscan hvisits
      simp only [Timed.exec, if_neg hkept]
      rw [hscanning.last t, (hperiod howns).1]
      by_cases hsleep : (u.tasks t).state = .sleeping
      · have hchecks : c.core.Checks cfg action t := by
          unfold State.Checks
          rw [hscan]
          exact ⟨hvisits, hsleep⟩
        rw [if_pos (Or.inr hchecks)]
        exact (h.release hat htimely hscan hvisits hsleep).2.1
      · have hchecks : ¬ c.core.Checks cfg action t := by
          unfold State.Checks
          rw [hscan]
          exact fun hboth => hsleep hboth.2
        rw [if_neg (not_or.mpr ⟨hkept, hchecks⟩), hact.kept t hsleep]
        exact hchecked.last

/-- The reference is in phase in every reachable state. -/
theorem phased_of_reachable (h : (runs cfg turn t).Reachable c) : Phased cfg c t := by
  refine h.invariant (P := fun c => Phased cfg c t) (fun c hinit => ?_) fun c c' hc hnext => ?_
  · obtain ⟨⟨pool, stack, hreset⟩, htime⟩ := hinit
    refine ⟨⟨[], hreset ▸ State.joint_reset pool stack⟩, ?_, ?_, ?_, ?_⟩
    · rw [hreset, htime]
      rfl
    all_goals
      rw [hreset]
      exact fun g howns => absurd howns.1 List.not_mem_nil
  · obtain ⟨action, time, hat, htimely, rfl⟩ := hnext
    exact hc.exec hat htimely

/-- The whole periods of a task from its enable to a tick. -/
def periods (c : Timed) (t time : ℕ) : ℕ := (time - c.enabledAt t) / (c.core.tasks t).period.toNat

/-- A release check at a real tick: the task is released when the number of whole periods has
grown since the last check, once for all of them, and its reference is then the end of the
last one. -/
structure InPhase (cfg : Config) (c : Timed) (action : Action) (time t : ℕ) (u : State) : Prop where
  due : (u.activateDue.tasks t).state = .new ↔ c.periods t (c.checkedAt t) < c.periods t time
  reference : (u.activateDue.tasks t).state = .new → (u.activateDue.tasks t).last =
    UInt32.ofNat (c.enabledAt t + c.periods t time * (c.core.tasks t).period.toNat)
  stays : ((c.exec cfg action time).core.tasks t).last = (u.activateDue.tasks t).last
  past : c.enabledAt t + c.periods t time * (c.core.tasks t).period.toNat ≤ time
  recent : time < c.enabledAt t + c.periods t time * (c.core.tasks t).period.toNat +
    (c.core.tasks t).period.toNat
  once : (u.activateDue.tasks t).state = .new → ∃ xs ys, u.ready.Holds xs ∧
    u.activateDue.ready.Holds ys ∧ t ∉ xs ∧ ys.count t = 1
  idle : (u.activateDue.tasks t).state ≠ .new → u.activateDue.tasks t = u.tasks t

/-- **The phase of a periodic task.** As long as at most `2 ^ 32 - period` real ticks pass
between two checks of a sleeping task, every check releases it exactly when it is due, and
leaves its reference at the enable tick and whole periods, the last that has ended. -/
theorem periodic_phase_kept (h : (runs cfg turn t).Reachable c) (hat : c.At cfg action time)
    (htimely : c.Timely cfg turn t action time) (hscan : c.core.scanned cfg action = some u)
    (hvisits : u.Visits t) (hsleep : (u.tasks t).state = .sleeping) :
    c.InPhase cfg action time t u := by
  have hphased := phased_of_reachable h
  obtain ⟨xs, hjoint⟩ := hphased.joint
  obtain ⟨hscanning, -⟩ := hjoint.scanning action hscan
  obtain ⟨ys, hjoint'⟩ := hscanning.joint
  have hchecked := hphased.visit hat hscan hvisits
  obtain ⟨hdue, hlast, hidle⟩ := hphased.release hat htimely hscan hvisits hsleep
  have henabled : c.enabledAt t ≤ time := hchecked.enabled.trans hchecked.checked
  refine ⟨hdue.trans ?_, fun _ => hlast, hscanning.last t, recurrence_le henabled,
    lt_recurrence hchecked.positive henabled, fun hnew => ?_, hidle⟩
  · exact (div_lt_div_iff hchecked.positive hchecked.enabled hchecked.checked).symm
  · -- the task waits behind those that waited before, and only once
    obtain ⟨zs, hreleased, hact⟩ := hjoint'.activateDue
    refine ⟨ys, ys ++ zs, hjoint'.queued.holds, hreleased.queued.holds, fun hin => ?_, ?_⟩
    · have hstate := (hjoint'.queued.waits t hin).state
      rw [hsleep] at hstate
      rcases hstate with hstate | hstate <;> exact nomatch hstate
    · have hok : u.activateDue.fault = .ok := by
        rw [hact.eq]
        exact hscanning.fault
      have hin := (hreleased.placed.settled hok t nofun).1 (Or.inl hnew)
      exact List.count_eq_one_of_mem hreleased.queued.holds.nodup hin

/-! ## Two tasks

A task of period 10 sleeps while a task of period 5 runs for almost a whole turn of the
counter.
-/

/-- Every action comes at its tick, and the checks of the task come in time. -/
def AllTimely (cfg : Config) (limit : UInt32 → ℕ) (t : ℕ) : Timed → List (Action × ℕ) → Prop
  | _, [] => True
  | c, (action, time) :: rest => (c.At cfg action time ∧ c.Timely cfg limit t action time) ∧
    AllTimely cfg limit t (c.exec cfg action time) rest

instance (cfg : Config) (limit : UInt32 → ℕ) (t : ℕ) (c : Timed) (actions : List (Action × ℕ)) :
    Decidable (AllTimely cfg limit t c actions) := by
  induction actions generalizing c with
  | nil => exact isTrue trivial
  | cons action actions ih => exact inferInstanceAs (Decidable ((_ ∧ _) ∧ _))

theorem runs_foldl {limit : UInt32 → ℕ} {actions : List (Action × ℕ)}
    (h : (runs cfg limit t).Reachable c) (hall : AllTimely cfg limit t c actions) :
    (runs cfg limit t).Reachable (actions.foldl (fun c step => c.exec cfg step.1 step.2) c) := by
  induction actions generalizing c with
  | nil => exact h
  | cons step actions ih => exact ih (.step h ⟨step.1, step.2, hall.1.1, hall.1.2, rfl⟩) hall.2

/-- The core before the first call. -/
def reset : Timed := ⟨.reset (fun _ => 0) (fun _ => 0), 0, fun _ => 0, fun _ => 0⟩

theorem reset_reachable (limit : UInt32 → ℕ) : (runs cfg limit t).Reachable reset :=
  .start ⟨⟨_, _, rfl⟩, rfl⟩

end Timed

def phaseImage : Image :=
  ⟨fun p => some ⟨if p = 0x20000000 then 5 else 10, some 0x08000201, none, 0⟩, fun _ => none⟩

def phaseTable : ℕ → RegSection := fun i => ⟨1, some (0x20000000 + UInt32.ofNat (4 * i))⟩

/-- The group is enabled at tick 0, and both tasks are checked at tick 5. -/
def phaseActions : List (Action × ℕ) :=
  [(.init .native 0, 0), (.register .native phaseImage 7 (some phaseTable) 2 true, 0),
    (.initializeBegin .native phaseImage demoHandle none 0, 0), (.initializeNext, 0),
    (.enable .native demoHandle, 0), (.tick .native 5, 5)]

/-- The task of period 5 runs; the next checks are those when it completes, a turn less one
tick later, and at the switch that follows. -/
def lateActions : List (Action × ℕ) :=
  phaseActions ++ ([(.switch .native none, 5), (.tick .native 0x80000004, 2 ^ 31 + 4),
    (.tick .native 3, 2 ^ 32 + 3), (.tick .native 4, 2 ^ 32 + 4),
    (.complete .resident false, 2 ^ 32 + 4), (.tick .native 10, 2 ^ 32 + 10)] :
    List (Action × ℕ))

def phaseState : Timed :=
  phaseActions.foldl (fun c step => c.exec demoConfig step.1 step.2) .reset

def lateState : Timed :=
  lateActions.foldl (fun c step => c.exec demoConfig step.1 step.2) .reset

/-- At tick 25 the task of period 10 has been due twice and is released once. -/
theorem phaseState_inPhase : ∃ u, phaseState.core.scanned demoConfig (.tick .native 25) = some u ∧
    phaseState.InPhase demoConfig (.tick .native 25) 25 1 u ∧
    (u.activateDue.tasks 1).state = .new ∧ (u.activateDue.tasks 1).last = 20 := by
  have hreach : (Timed.runs demoConfig Timed.turn 1).Reachable phaseState :=
    Timed.runs_foldl (Timed.reset_reachable _) (by decide +kernel)
  refine ⟨_, rfl, Timed.periodic_phase_kept hreach ?_ ?_ rfl ?_ ?_, ?_, ?_⟩
  all_goals decide +kernel

/-- **A turn is too much.** With the checks only fewer than `2 ^ 32` ticks apart, the task of
period 10 misses its release, and the reference leaves its phase. -/
theorem phase_lost_late : ¬ ∀ (cfg : Config) (c : Timed) (action : Action) (time t : ℕ) (u : State),
    (Timed.runs cfg (fun _ => 2 ^ 32 - 1) t).Reachable c → c.At cfg action time →
    c.Timely cfg (fun _ => 2 ^ 32 - 1) t action time → c.core.scanned cfg action = some u →
    u.Visits t → (u.tasks t).state = .sleeping → (u.activateDue.tasks t).state = .new →
    (u.activateDue.tasks t).last =
      UInt32.ofNat (c.enabledAt t + c.periods t time * (c.core.tasks t).period.toNat) := by
  intro hall
  have hreach : (Timed.runs demoConfig (fun _ => 2 ^ 32 - 1) 1).Reachable lateState :=
    Timed.runs_foldl (Timed.reset_reachable _) (by decide +kernel)
  have hlast := hall demoConfig lateState (.switch .native (some 15)) (2 ^ 32 + 10) 1 _ hreach
    (by decide +kernel) (by decide +kernel) rfl (by decide +kernel) (by decide +kernel)
    (by decide +kernel)
  exact absurd hlast (by decide +kernel)

end Atoman.SectionStl
