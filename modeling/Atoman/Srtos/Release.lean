import Atoman.Baremetal.Tasks
import Atoman.Srtos.Scheduler

/-!
# Releases of one task

`srtos_m` releases a task as the bare-metal scheduler does, and runs it from then on until its
callback is done. One task is followed here: the checks that have read a tick, and the states
between a release and its end. A callback ends with the interrupts disabled, when no check is
between its tick and its critical region.
-/

namespace Atoman.Srtos
open Lib
universe u

/-- `srtos_task_activate_if_due`, without the account of deferred checks -/
def Task.activateIfDue (t_period elapsed : UInt32) (task : Task) : Task :=
  if elapsed < t_period then task
  else if task.state ≠ .sleeping then task
  else { Sched.scheduleNext t_period elapsed task with state := .readyNew }

/-- It is what the scheduler does to the task. -/
theorem Sched.tasks_taskActivateIfDue {ι : Type u} [DecidableEq ι] (cfg : Config ι) (s : Sched ι)
    (t : ι) (now : UInt32) : (s.taskActivateIfDue cfg t now).tasks t =
      if cfg.callable t = false ∨ cfg.t_period t = 0 then s.tasks t
      else (s.tasks t).activateIfDue (cfg.t_period t) (now - (s.tasks t).time_last) := by
  unfold Sched.taskActivateIfDue Task.activateIfDue
  dsimp only
  split_ifs
  · rfl
  · rfl
  · rfl
  · exact Function.update_self ..

/-- A check: the tick it has read, and whether it goes on to its critical region. -/
structure Check where
  now : ℕ
  entered : Bool

/-- One task, the checks with the innermost first, and what the code does not keep. -/
structure Solo where
  t_period : UInt32
  callable : Bool
  task : Task
  checks : List Check
  clock : ℕ
  /-- the tick at the initialisation of the task -/
  start : ℕ
  /-- `time_last` without its wrap -/
  reference : ℕ
  activations : List Activation
  completions : ℕ

inductive Solo.Event
  | wait (ticks : ℕ)
  /-- `section_task_tick` is called and comes to the task -/
  | read
  /-- the innermost check goes on -/
  | check
  | dispatch
  | preempt
  /-- the callback returns `SECTION_TASK_RUNNING` -/
  | again
  /-- the callback returns `SECTION_TASK_DONE` -/
  | complete

namespace Solo
variable (s : Solo)

/-- The critical region of `task_activate_if_due`. -/
def activate (now : ℕ) : Solo :=
  let task' := s.task.activateIfDue s.t_period (UInt32.ofNat now - s.task.time_last)
  if s.task.state = .sleeping ∧ task'.state ≠ .sleeping then
    let next := s.reference + (task'.time_last - s.task.time_last).toNat
    { s with
      task := task'
      reference := next
      activations := s.activations ++ [⟨now, s.reference, next⟩] }
  else { s with task := task' }

def stepCheck : Solo :=
  match s.checks with
  | [] => s
  | k :: checks =>
    if k.entered then { s.activate k.now with checks := checks }
    else if s.callable = false ∨ s.t_period = 0 ∨
        UInt32.ofNat k.now - s.task.time_last < s.t_period then { s with checks := checks }
    else { s with checks := { k with entered := true } :: checks }

def setState (state : TaskState) : Solo := { s with task := { s.task with state := state } }

def exec : Event → Solo
  | .wait ticks => { s with clock := s.clock + ticks }
  | .read => { s with checks := ⟨s.clock, false⟩ :: s.checks }
  | .check => s.stepCheck
  | .dispatch => s.setState .running
  | .preempt => s.setState .readyOld
  | .again => s.setState .readyNew
  | .complete => { s.setState .sleeping with completions := s.completions + 1 }

/-- When an event can come. -/
def Permitted : Event → Prop
  | .dispatch => s.task.state = .readyNew ∨ s.task.state = .readyOld
  | .preempt | .again => s.task.state = .running
  | .complete => s.task.state = .running ∧ s.checks = []
  | _ => True

/-- After `srtos_task_insert_init`. -/
structure Starts : Prop where
  state : s.task.state = .sleeping
  time_last : s.task.time_last = UInt32.ofNat s.start
  checks : s.checks = []
  start : s.start ≤ s.clock
  reference : s.reference = s.start
  activations : s.activations = []
  completions : s.completions = 0

def solos : Transition Solo := Transition.driven Starts exec Permitted

/-! ## What holds between the events -/

def busy : Bool := s.task.state ≠ .sleeping

def release : Release := ⟨s.reference, s.busy, s.activations⟩

structure Holds : Prop where
  synced : s.task.time_last = UInt32.ofNat s.reference
  sound : s.release.Sound s.start s.t_period s.clock (s.checks.map Check.now)
  entered : ∀ k ∈ s.checks, k.entered = true → s.t_period ≠ 0
  counted : s.activations.length = s.completions + if s.busy then 1 else 0

variable {s} {now : ℕ}

theorem due_iff (hsynced : s.task.time_last = UInt32.ofNat s.reference) :
    s.release.due s.t_period now = true ↔
      s.task.state = .sleeping ∧ ¬ UInt32.ofNat now - s.task.time_last < s.t_period := by
  simp [Release.due, release, busy, hsynced]

theorem activate_of_not (hsynced : s.task.time_last = UInt32.ofNat s.reference)
    (h : s.release.due s.t_period now ≠ true) : s.activate now = s := by
  rw [Ne, due_iff hsynced, not_and_or, not_not] at h
  have htask : s.task.activateIfDue s.t_period (UInt32.ofNat now - s.task.time_last) = s.task := by
    unfold Task.activateIfDue
    rcases h with h | h
    · rw [if_pos h, ite_self]
    · rw [if_pos h]
  simp only [activate, htask]
  rw [if_neg fun hstate => hstate.2 hstate.1]

/-- An activation, with the reference as it moves. -/
theorem activate_of (hsynced : s.task.time_last = UInt32.ofNat s.reference)
    (h : s.release.due s.t_period now = true) {elapsed : UInt32}
    (helapsed : elapsed = UInt32.ofNat now - UInt32.ofNat s.reference) {next : ℕ}
    (hnext : next = s.reference + (stride s.t_period elapsed).toNat) :
    s.activate now = { s with
      task := { s.task with time_last := UInt32.ofNat next, state := .readyNew }
      reference := next
      activations := s.activations ++ [⟨now, s.reference, next⟩] } := by
  obtain ⟨hstate, hlate⟩ := (due_iff hsynced).mp h
  have htime : s.task.time_last + stride s.t_period elapsed = UInt32.ofNat next := by
    rw [hnext, hsynced, UInt32.ofNat_add, UInt32.ofNat_toNat]
  have hmoved : s.reference + (UInt32.ofNat next - s.task.time_last).toNat = next := by
    rw [← htime, UInt32.add_comm, UInt32.add_sub_cancel, ← hnext]
  have htask : s.task.activateIfDue s.t_period (UInt32.ofNat now - s.task.time_last) =
      { s.task with time_last := UInt32.ofNat next, state := .readyNew } := by
    rw [Task.activateIfDue, if_neg hlate, if_neg (not_not.mpr hstate), ← htime, helapsed, ← hsynced]
    rfl
  simp only [activate, htask, hmoved]
  rw [if_pos ⟨hstate, by simp⟩]

/-- The critical region leaves the checks and the period. -/
theorem activate_fixed (s : Solo) (now : ℕ) :
    (s.activate now).checks = s.checks ∧ (s.activate now).t_period = s.t_period := by
  unfold activate
  dsimp only
  split_ifs <;> exact ⟨rfl, rfl⟩

namespace Holds

/-- A critical region, with a tick that was read before. -/
theorem activate (h : Holds s) (hp : s.t_period ≠ 0) (hmem : now ∈ s.checks.map Check.now) :
    Holds (s.activate now) := by
  by_cases hdue : s.release.due s.t_period now = true
  · have hpos : 0 < s.t_period.toNat := by
      rw [Nat.pos_iff_ne_zero, Ne, ← UInt32.toNat_zero, UInt32.toNat_inj]
      exact hp
    obtain ⟨hclock, hbehind⟩ := h.sound.pending now hmem
    have hsound := h.sound.check hpos hclock hbehind
    have hcount := h.counted
    obtain ⟨hstate, -⟩ := (due_iff h.synced).mp hdue
    rw [Release.check, if_pos hdue] at hsound
    rw [activate_of h.synced hdue rfl rfl]
    refine ⟨rfl, hsound, h.entered, ?_⟩
    simpa [busy, hstate] using hcount
  · rwa [activate_of_not h.synced hdue]

theorem of_checks (h : Holds s) {checks : List Check}
    (hsub : checks.map Check.now ⊆ s.checks.map Check.now)
    (hentered : ∀ k ∈ checks, k.entered = true → s.t_period ≠ 0) :
    Holds { s with checks := checks } :=
  ⟨h.synced, h.sound.of_subset hsub, hentered, h.counted⟩

theorem stepCheck (h : Holds s) : Holds s.stepCheck := by
  unfold Solo.stepCheck
  split
  · exact h
  · rename_i k checks hchecks
    have hrest : ∀ x ∈ checks, x.entered = true → s.t_period ≠ 0 := fun x hx =>
      h.entered x (by rw [hchecks]; exact List.mem_cons_of_mem k hx)
    have hsub : checks.map Check.now ⊆ s.checks.map Check.now := by
      rw [hchecks]
      exact List.subset_cons_self _ _
    split_ifs with hentered hlate
    · have hp := h.entered k (by simp [hchecks]) hentered
      have ht := h.activate hp (List.mem_map_of_mem (show k ∈ s.checks by simp [hchecks]))
      have hfixed := activate_fixed s k.now
      refine ht.of_checks (by rwa [hfixed.1]) fun x hx hent => ?_
      rw [hfixed.2]
      exact hrest x hx hent
    · exact h.of_checks hsub hrest
    · push Not at hlate
      exact h.of_checks (by simp [hchecks]) fun _ _ _ => hlate.2.1

/-- A state between a release and its end follows another. -/
theorem setState (h : Holds s) {state : TaskState} (hbusy : s.task.state ≠ .sleeping)
    (hstate : state ≠ .sleeping) : Holds (s.setState state) := by
  have hkeep : (s.setState state).busy = s.busy := by simp [busy, Solo.setState, hbusy, hstate]
  refine ⟨h.synced, ?_, h.entered, ?_⟩
  · have hrelease : (s.setState state).release = s.release := by
      rw [release, hkeep]
      rfl
    rw [hrelease]
    exact h.sound
  · rw [hkeep]
    exact h.counted

/-- The task goes to sleep, and no check has read its tick. -/
theorem complete (h : Holds s) (hbusy : s.task.state = .running) (hchecks : s.checks = []) :
    Holds { s.setState .sleeping with completions := s.completions + 1 } := by
  have hsound := h.sound
  have hcount := h.counted
  rw [hchecks] at hsound
  refine ⟨h.synced, ?_, h.entered, ?_⟩
  · show Release.Sound s.start s.t_period s.clock (s.checks.map Check.now) _
    rw [hchecks]
    exact hsound.finish false
  · simpa [busy, hbusy, Solo.setState] using hcount

theorem exec (h : Holds s) {e : Event} (hp : s.Permitted e) : Holds (s.exec e) := by
  cases e with
  | wait ticks => exact ⟨h.synced, h.sound.advance (Nat.le_add_right _ _), h.entered, h.counted⟩
  | read =>
    refine ⟨h.synced, h.sound.begin_check, fun k hk hent => ?_, h.counted⟩
    rcases List.mem_cons.mp hk with rfl | hk
    · exact absurd hent (by simp)
    · exact h.entered k hk hent
  | check => exact h.stepCheck
  | dispatch => exact h.setState (by rcases hp with hp | hp <;> simp [hp]) (by simp)
  | preempt => exact h.setState (by simp [show s.task.state = .running from hp]) (by simp)
  | again => exact h.setState (by simp [show s.task.state = .running from hp]) (by simp)
  | complete => exact h.complete hp.1 hp.2

theorem of_starts (h : s.Starts) : Holds s where
  synced := by rw [h.time_last, h.reference]
  sound := by
    have hrelease : s.release = ⟨s.start, false, []⟩ := by
      simp [release, busy, h.reference, h.state, h.activations]
    rw [hrelease, h.checks]
    exact .start_at h.start
  entered := by simp [h.checks]
  counted := by simp [h.activations, h.completions, busy, h.state]

theorem of_reachable (h : solos.Reachable s) : Holds s :=
  h.driven_invariant (fun _ => of_starts) fun _ _ hs hp => hs.exec hp

end Holds
end Solo

/-- The account of the releases, in the bare-metal scheduler for every task and its calls, and in
`srtos_m` for one task and the ends of its callback. -/
theorem releases_kept :
    (∀ s : Baremetal.Session, Baremetal.Session.sessions.Reachable s →
      ∀ j, 0 < (s.tasks j).t_period →
        (s.release j).Kept (s.start j) (s.tasks j).t_period s.clock (s.tasks j).time_last ∧
        (s.activations j).length = s.calls j + (if s.loop = .call j then 1 else 0) +
          (if (s.tasks j).is_ready then 1 else 0) ∧
        (s.loop = .call j → (s.tasks j).p_func = true) ∧
        (s.loop = .idle → j < s.size → s.owed j ≤ s.calls j)) ∧
    ∀ s : Solo, Solo.solos.Reachable s → 0 < s.t_period →
      s.release.Kept s.start s.t_period s.clock s.task.time_last ∧
      s.activations.length = s.completions + if s.busy then 1 else 0 := by
  refine ⟨fun s h j hp => ?_, fun s h hp => ?_⟩
  · have hs := Baremetal.Session.Holds.of_reachable h
    have hpaid := hs.paid
    refine ⟨(hs.sound j).kept hp (hs.synced j), hs.counted j,
      fun hcall => hs.callable j (Or.inr hcall), fun hidle => ?_⟩
    rw [Baremetal.Session.Paid, hidle] at hpaid
    exact hpaid j
  · have hs := Solo.Holds.of_reachable h
    exact ⟨hs.sound.kept hp hs.synced, hs.counted⟩

/-- A task with a period of 2: `run_task` reads tick 2, an interrupt activates the task at tick 3
before it goes on, and the task is claimed and called. -/
def calledOnce : Baremetal.Session :=
  let task : Baremetal.RegTask := ⟨2, 0, true, false⟩
  let s : Baremetal.Session := ⟨1, fun _ => task, [], .idle, 0, fun _ => 0, fun _ => 0, fun _ => [],
    fun _ => 0, fun _ => 0⟩
  [.wait 2, .loop, .tick, .wait 1, .interrupt, .tick, .tick, .tick, .tick, .tick, .loop, .loop,
    .loop].foldl Baremetal.Session.exec s

theorem releases_kept_calledOnce :
    ((calledOnce.release 0).Kept 0 2 3 2 ∧ (calledOnce.activations 0).length = 1) ∧
      calledOnce.calls 0 = 1 := by
  have hreachable : Baremetal.Session.sessions.Reachable calledOnce :=
    Transition.Admits.reachable
      (⟨trivial, rfl, trivial, trivial, trivial, trivial, trivial, trivial, trivial, trivial, rfl,
        rfl, rfl, trivial⟩)
      (.start ⟨rfl, rfl, fun _ => le_rfl, fun _ => rfl, fun _ => rfl, rfl, rfl, rfl, rfl⟩)
  obtain ⟨hkept, -⟩ := releases_kept.1 calledOnce hreachable 0 (by decide)
  exact ⟨⟨hkept, rfl⟩, rfl⟩

end Atoman.Srtos
