import Atoman.Lib.Release
import Atoman.Lib.Transition

/-!
# Periodic tasks of the bare-metal scheduler

`run_task` checks which tasks are due and then calls those that are ready. An interrupt may run
`section_task_tick` at any point of it, interrupts may interrupt each other, and time goes on at
any point. What a critical region does is one step.
-/

namespace Atoman.Baremetal
open Lib

/-- The fields of `reg_task_t` that the scheduler reads. -/
structure RegTask where
  t_period : UInt32
  time_last : UInt32
  /-- not null -/
  p_func : Bool
  is_ready : Bool

namespace RegTask
variable (task : RegTask)

/-- `task_schedule_next` -/
def scheduleNext (elapsed : UInt32) : RegTask :=
  { task with time_last := task.time_last +
      if elapsed - task.t_period < task.t_period then task.t_period else elapsed }

/-- `task_activate_if_due` goes on to its critical region. -/
def enters (now : UInt32) : Bool :=
  !(!task.p_func || task.t_period == 0 || now - task.time_last < task.t_period)

/-- The condition in the critical region. -/
def activates (now : UInt32) : Bool :=
  task.t_period ≤ now - task.time_last && !task.is_ready

/-- The critical region of `task_activate_if_due`. -/
def activate (now : UInt32) : RegTask :=
  if task.activates now then
    { task.scheduleNext (now - task.time_last) with is_ready := true }
  else task

/-- `task_claim` -/
def claim : RegTask × Bool :=
  if task.is_ready then ({ task with is_ready := false }, true) else (task, false)

end RegTask

/-- A `section_task_tick` that is going on. -/
structure Tick where
  /-- the tick it has read -/
  now : ℕ
  /-- the item it has come to -/
  index : ℕ
  /-- before the critical region of this item -/
  entered : Bool

/-- Where the main loop is. -/
inductive Loop
  /-- outside `run_task` -/
  | idle
  /-- in `section_task_tick` -/
  | ticking
  | visit (index : ℕ)
  /-- the task is claimed and not called yet -/
  | call (index : ℕ)
  | running (index : ℕ)
deriving DecidableEq

/-- The tasks in the order of their list, the calls of `section_task_tick` with the innermost
first, and what the code does not keep: the ticks without their wrap, what was activated, what was
called. -/
structure Session where
  size : ℕ
  tasks : ℕ → RegTask
  ticks : List Tick
  loop : Loop
  clock : ℕ
  /-- the tick at the initialisation of the task -/
  start : ℕ → ℕ
  /-- `time_last` without its wrap -/
  reference : ℕ → ℕ
  activations : ℕ → List Activation
  calls : ℕ → ℕ
  /-- the activations before the loop of `run_task` -/
  owed : ℕ → ℕ

namespace Session
variable (s : Session)

/-! ## Steps -/

/-- The critical region of `task_activate_if_due`, for the task at `j`. -/
def activate (j now : ℕ) : Session :=
  let task := s.tasks j
  let task' := task.activate (UInt32.ofNat now)
  if task.activates (UInt32.ofNat now) then
    let next := s.reference j + (task'.time_last - task.time_last).toNat
    { s with
      tasks := Function.update s.tasks j task'
      reference := Function.update s.reference j next
      activations := Function.update s.activations j
        (s.activations j ++ [⟨now, s.reference j, next⟩]) }
  else { s with tasks := Function.update s.tasks j task' }

/-- The innermost `section_task_tick` goes on. -/
def stepTick : Session :=
  match s.ticks with
  | [] => s
  | k :: ticks =>
    if s.size ≤ k.index then { s with ticks := ticks }
    else if k.entered then
      { s.activate k.index k.now with
        ticks := { k with index := k.index + 1, entered := false } :: ticks }
    else if (s.tasks k.index).enters (UInt32.ofNat k.now) then
      { s with ticks := { k with entered := true } :: ticks }
    else { s with ticks := { k with index := k.index + 1 } :: ticks }

/-- The main loop goes on, outside `section_task_tick`. -/
def stepLoop : Session :=
  match s.loop with
  | .idle => { s with ticks := [⟨s.clock, 0, false⟩], loop := .ticking }
  | .ticking => { s with owed := fun j => (s.activations j).length, loop := .visit 0 }
  | .visit i =>
    if s.size ≤ i then { s with loop := .idle }
    else
      let (task, claimed) := (s.tasks i).claim
      { s with
        tasks := Function.update s.tasks i task
        loop := if claimed then .call i else .visit (i + 1) }
  | .call i => { s with calls := Function.update s.calls i (s.calls i + 1), loop := .running i }
  | .running i => { s with loop := .visit (i + 1) }

inductive Event
  | wait (ticks : ℕ)
  /-- an interrupt calls `section_task_tick` -/
  | interrupt
  /-- the innermost `section_task_tick` goes on -/
  | tick
  /-- the main loop goes on -/
  | loop

def exec : Event → Session
  | .wait ticks => { s with clock := s.clock + ticks }
  | .interrupt => { s with ticks := ⟨s.clock, 0, false⟩ :: s.ticks }
  | .tick => s.stepTick
  | .loop => s.stepLoop

/-- The main loop goes on when no `section_task_tick` is going on. -/
def Permitted : Event → Prop
  | .loop => s.ticks = []
  | _ => True

/-- After `section_init`. -/
structure Starts : Prop where
  ticks : s.ticks = []
  loop : s.loop = .idle
  start : ∀ j, s.start j ≤ s.clock
  time_last : ∀ j, (s.tasks j).time_last = UInt32.ofNat (s.start j)
  is_ready : ∀ j, (s.tasks j).is_ready = false
  reference : s.reference = s.start
  activations : s.activations = fun _ => []
  calls : s.calls = fun _ => 0
  owed : s.owed = fun _ => 0

def sessions : Transition Session := Transition.driven Starts exec Permitted

/-! ## What holds between the steps -/

/-- The releases of the task at `j`. -/
def release (j : ℕ) : Release := ⟨s.reference j, (s.tasks j).is_ready, s.activations j⟩

/-- The ticks read for checks that have not passed the task at `j`. -/
def pending (j : ℕ) : List ℕ := (s.ticks.filter (·.index ≤ j)).map Tick.now

/-- How far the calls owed are made. -/
def Paid (s : Session) : Prop :=
  match s.loop with
  | .idle | .ticking => ∀ j < s.size, s.owed j ≤ s.calls j
  | .visit i => ∀ j < i, s.owed j ≤ s.calls j
  | .call i => (∀ j < i, s.owed j ≤ s.calls j) ∧ s.owed i ≤ s.calls i + 1
  | .running i => ∀ j ≤ i, s.owed j ≤ s.calls j

structure Holds : Prop where
  synced : ∀ j, (s.tasks j).time_last = UInt32.ofNat (s.reference j)
  sound : ∀ j, (s.release j).Sound (s.start j) (s.tasks j).t_period s.clock (s.pending j)
  entered : ∀ k ∈ s.ticks, k.entered = true →
    (s.tasks k.index).p_func = true ∧ (s.tasks k.index).t_period ≠ 0
  callable : ∀ j, (s.tasks j).is_ready = true ∨ s.loop = .call j → (s.tasks j).p_func = true
  counted : ∀ j, (s.activations j).length = s.calls j + (if s.loop = .call j then 1 else 0) +
    if (s.tasks j).is_ready then 1 else 0
  owed : ∀ j, s.owed j ≤ (s.activations j).length
  paid : s.Paid

variable {s} {j now : ℕ}

theorem activates_eq (hsynced : (s.tasks j).time_last = UInt32.ofNat (s.reference j)) :
    (s.tasks j).activates (UInt32.ofNat now) = (s.release j).due (s.tasks j).t_period now := by
  rw [RegTask.activates, Release.due, hsynced, Bool.and_comm]
  rfl

theorem activate_of_not (h : (s.tasks j).activates (UInt32.ofNat now) ≠ true) :
    s.activate j now = s := by
  simp only [activate, RegTask.activate, if_neg h, Function.update_eq_self]

/-- An activation, with the reference as it moves. -/
theorem activate_of (hsynced : (s.tasks j).time_last = UInt32.ofNat (s.reference j))
    (h : (s.tasks j).activates (UInt32.ofNat now) = true) {elapsed : UInt32}
    (helapsed : elapsed = UInt32.ofNat now - UInt32.ofNat (s.reference j)) {next : ℕ}
    (hnext : next = s.reference j + (stride (s.tasks j).t_period elapsed).toNat) :
    s.activate j now = { s with
      tasks := Function.update s.tasks j
        { s.tasks j with time_last := UInt32.ofNat next, is_ready := true }
      reference := Function.update s.reference j next
      activations := Function.update s.activations j
        (s.activations j ++ [⟨now, s.reference j, next⟩]) } := by
  have htime : (s.tasks j).time_last + stride (s.tasks j).t_period elapsed = UInt32.ofNat next := by
    rw [hnext, hsynced, UInt32.ofNat_add, UInt32.ofNat_toNat]
  have hmoved : s.reference j + (UInt32.ofNat next - (s.tasks j).time_last).toNat = next := by
    rw [← htime, UInt32.add_comm, UInt32.add_sub_cancel, ← hnext]
  have htask : (s.tasks j).activate (UInt32.ofNat now) =
      { s.tasks j with
        time_last := (s.tasks j).time_last + stride (s.tasks j).t_period elapsed
        is_ready := true } := by
    rw [RegTask.activate, if_pos h, helapsed, ← hsynced]
    rfl
  simp only [activate, if_pos h, htask, htime, hmoved]

/-- The critical region is a check. -/
theorem release_activate (hsynced : (s.tasks j).time_last = UInt32.ofNat (s.reference j)) :
    (s.activate j now).release j = (s.release j).check (s.tasks j).t_period now := by
  by_cases h : (s.tasks j).activates (UInt32.ofNat now) = true
  · rw [activate_of hsynced h rfl rfl, Release.check, if_pos ((activates_eq hsynced).symm.trans h)]
    simp [release]
  · have hdue : ¬ (s.release j).due (s.tasks j).t_period now = true := by
      rwa [← activates_eq hsynced]
    rw [activate_of_not h, Release.check, if_neg hdue]

theorem ticks_activate (s : Session) (j now : ℕ) : (s.activate j now).ticks = s.ticks := by
  unfold activate
  dsimp only
  split_ifs <;> rfl

theorem pending_head {k k' : Tick} {ticks : List Tick} (hticks : s.ticks = k :: ticks)
    (hnow : k'.now = k.now) (hle : k.index ≤ k'.index) (j : ℕ) :
    ({ s with ticks := k' :: ticks } : Session).pending j ⊆ s.pending j := by
  intro c hc
  simp only [pending, hticks, List.mem_map, List.mem_filter, List.mem_cons, decide_eq_true_eq]
    at hc ⊢
  obtain ⟨x, ⟨rfl | hx, hj⟩, rfl⟩ := hc
  · exact ⟨k, ⟨Or.inl rfl, hle.trans hj⟩, hnow.symm⟩
  · exact ⟨x, ⟨Or.inr hx, hj⟩, rfl⟩

namespace Holds

/-- The checks that go on are some of those before. -/
theorem of_ticks (h : Holds s) {ticks : List Tick}
    (hsub : ∀ j, ({ s with ticks := ticks } : Session).pending j ⊆ s.pending j)
    (hentered : ∀ k ∈ ticks, k.entered = true →
      (s.tasks k.index).p_func = true ∧ (s.tasks k.index).t_period ≠ 0) :
    Holds { s with ticks := ticks } :=
  ⟨h.synced, fun j => (h.sound j).of_subset (hsub j), hentered, h.callable, h.counted, h.owed,
    h.paid⟩

/-- A critical region, with a tick that was read before. -/
theorem activate (h : Holds s) (hp : (s.tasks j).t_period ≠ 0) (hfunc : (s.tasks j).p_func = true)
    (hpending : now ∈ s.pending j) : Holds (s.activate j now) := by
  by_cases hact : (s.tasks j).activates (UInt32.ofNat now) = true
  · have hpos : 0 < (s.tasks j).t_period.toNat := by
      rw [Nat.pos_iff_ne_zero, Ne, ← UInt32.toNat_zero, UInt32.toNat_inj]
      exact hp
    obtain ⟨hclock, hbehind⟩ := (h.sound j).pending now hpending
    have hsound := (h.sound j).check hpos hclock hbehind
    have hready : (s.tasks j).is_ready = false := by
      rw [RegTask.activates, Bool.and_eq_true, Bool.not_eq_true'] at hact
      exact hact.2
    rw [← release_activate (h.synced j), activate_of (h.synced j) hact rfl rfl] at hsound
    rw [activate_of (h.synced j) hact rfl rfl]
    refine ⟨fun i => ?_, fun i => ?_, fun k hk hent => ?_, fun i hi => ?_, fun i => ?_, fun i => ?_,
      h.paid⟩
    · rcases eq_or_ne i j with rfl | hne
      · simp
      · simpa [hne] using h.synced i
    · rcases eq_or_ne i j with rfl | hne
      · show Release.Sound (s.start i) (Function.update s.tasks i _ i).t_period s.clock
          (s.pending i) _
        rw [Function.update_self]
        exact hsound
      · simpa [hne, release, pending] using h.sound i
    · rcases eq_or_ne k.index j with heq | hne
      · simp [heq, hfunc, hp]
      · simpa [hne] using h.entered k hk hent
    · rcases eq_or_ne i j with rfl | hne
      · simp [hfunc]
      · simp only [Function.update_of_ne hne] at hi ⊢
        exact h.callable i hi
    · have hcount := h.counted i
      rcases eq_or_ne i j with rfl | hne
      · simp only [Function.update_self, List.length_append, List.length_singleton, hready]
          at hcount ⊢
        simpa using hcount
      · simpa [hne] using hcount
    · have howed := h.owed i
      rcases eq_or_ne i j with rfl | hne
      · simp only [Function.update_self, List.length_append]
        omega
      · simpa [hne] using howed
  · rwa [activate_of_not hact]

/-- The head of the checks goes on. -/
theorem of_head (h : Holds s) {k k' : Tick} {ticks : List Tick} (hticks : s.ticks = k :: ticks)
    (hnow : k'.now = k.now) (hle : k.index ≤ k'.index)
    (hentered : k'.entered = true →
      (s.tasks k'.index).p_func = true ∧ (s.tasks k'.index).t_period ≠ 0) :
    Holds { s with ticks := k' :: ticks } := by
  refine h.of_ticks (pending_head hticks hnow hle) fun x hx => ?_
  rcases List.mem_cons.mp hx with rfl | hx
  · exact hentered
  · exact h.entered x (by rw [hticks]; exact List.mem_cons_of_mem k hx)

theorem stepTick (h : Holds s) : Holds s.stepTick := by
  unfold Session.stepTick
  split
  · exact h
  · rename_i k ticks hticks
    split_ifs with hend hentered henters
    · refine h.of_ticks (fun j => ?_) fun x hx =>
        h.entered x (by rw [hticks]; exact List.mem_cons_of_mem k hx)
      simp only [pending, hticks]
      exact List.map_subset _ ((List.sublist_cons_self k ticks).filter _).subset
    · have hmem : k ∈ s.ticks := by simp [hticks]
      have hpending : k.now ∈ s.pending k.index :=
        List.mem_map_of_mem (List.mem_filter.mpr ⟨hmem, by simp⟩)
      obtain ⟨hfunc, hp⟩ := h.entered k hmem hentered
      exact (h.activate hp hfunc hpending).of_head ((ticks_activate s _ _).trans hticks) rfl
        (Nat.le_succ _) (by simp)
    · refine h.of_head hticks rfl le_rfl fun _ => ?_
      simp only [RegTask.enters, Bool.not_or, Bool.not_not, Bool.and_eq_true] at henters
      exact ⟨henters.1.1, by simpa using henters.1.2⟩
    · exact h.of_head hticks rfl (Nat.le_succ _) fun hent => by simp_all

/-- A `section_task_tick` is called. -/
theorem begin_tick (h : Holds s) : Holds { s with ticks := ⟨s.clock, 0, false⟩ :: s.ticks } := by
  refine ⟨h.synced, fun j => ?_, fun k hk hent => ?_, h.callable, h.counted, h.owed, h.paid⟩
  · refine (h.sound j).begin_check.of_subset fun c hc => ?_
    simpa [pending] using hc
  · rcases List.mem_cons.mp hk with rfl | hk
    · exact absurd hent (by simp)
    · exact h.entered k hk hent

/-- The main loop goes on where no task is claimed or called. -/
theorem of_loop (h : Holds s) (loop : Loop) (hold : ∀ j, s.loop ≠ .call j)
    (hnew : ∀ j, loop ≠ .call j) (hpaid : ({ s with loop := loop } : Session).Paid) :
    Holds { s with loop := loop } := by
  refine ⟨h.synced, h.sound, h.entered, fun j hj => ?_, fun j => ?_, h.owed, hpaid⟩
  · exact h.callable j (Or.inl (hj.resolve_right (hnew j)))
  · have hcount := h.counted j
    rw [if_neg (hold j)] at hcount
    dsimp only
    rw [if_neg (hnew j)]
    exact hcount

/-- A ready task is claimed. -/
theorem claim (h : Holds s) {i : ℕ} (hticks : s.ticks = []) (hloop : s.loop = .visit i)
    (hready : (s.tasks i).is_ready = true) :
    Holds { s with
      tasks := Function.update s.tasks i { s.tasks i with is_ready := false }
      loop := .call i } := by
  have hpaid := h.paid
  rw [Paid, hloop] at hpaid
  have hcount := h.counted i
  simp only [hloop, hready] at hcount
  refine ⟨fun j => ?_, fun j => ?_, by simp [hticks], fun j hj => ?_, fun j => ?_, h.owed,
    hpaid, ?_⟩
  · have hsynced := h.synced j
    rcases eq_or_ne j i with rfl | hne
    · simpa using hsynced
    · simpa [hne] using hsynced
  · have hsound := h.sound j
    have hpending : s.pending j = [] := by simp [pending, hticks]
    rcases eq_or_ne j i with rfl | hne
    · rw [hpending] at hsound
      have hfinish := hsound.finish false
      show Release.Sound (s.start j) (Function.update s.tasks j _ j).t_period s.clock (s.pending j)
        ⟨s.reference j, (Function.update s.tasks j _ j).is_ready, s.activations j⟩
      rw [Function.update_self, hpending]
      exact hfinish
    · simpa [hne, release, pending] using hsound
  · have hcallable := h.callable j
    rcases eq_or_ne j i with rfl | hne
    · simpa using hcallable (Or.inl hready)
    · simp only [Function.update_of_ne hne, Loop.call.injEq, hne.symm, or_false] at hj ⊢
      exact hcallable (Or.inl hj)
  · rcases eq_or_ne j i with rfl | hne
    · simpa using hcount
    · simpa [hne, hne.symm, hloop] using h.counted j
  · have howed := h.owed i
    show s.owed i ≤ s.calls i + 1
    simpa [hcount] using howed

/-- The task that was claimed is called. -/
theorem call (h : Holds s) {i : ℕ} (hloop : s.loop = .call i) :
    Holds { s with calls := Function.update s.calls i (s.calls i + 1), loop := .running i } := by
  have hpaid := h.paid
  rw [Paid, hloop] at hpaid
  refine ⟨h.synced, h.sound, h.entered, fun j hj => ?_, fun j => ?_, h.owed, fun j hj => ?_⟩
  · exact h.callable j (Or.inl (hj.resolve_right (by simp)))
  · have hcount := h.counted j
    rcases eq_or_ne j i with rfl | hne
    · simpa [hloop] using hcount
    · simpa [hne, hne.symm, hloop] using hcount
  · rcases Nat.eq_or_lt_of_le hj with rfl | hlt
    · simpa using hpaid.2
    · simpa [hlt.ne] using hpaid.1 j hlt

theorem stepLoop (h : Holds s) (hticks : s.ticks = []) : Holds s.stepLoop := by
  have hpaid := h.paid
  unfold Paid at hpaid
  unfold Session.stepLoop
  cases hloop : s.loop with
  | idle =>
    rw [hloop] at hpaid
    have ht := (h.of_loop .ticking (by simp [hloop]) (by simp) hpaid).begin_tick
    rw [hticks] at ht
    exact ht
  | ticking =>
    have ht := h.of_loop (.visit 0) (by simp [hloop]) (by simp) fun j hj =>
      absurd hj (Nat.not_lt_zero j)
    exact ⟨ht.synced, ht.sound, ht.entered, ht.callable, ht.counted, fun _ => le_rfl,
      fun j hj => absurd hj (Nat.not_lt_zero j)⟩
  | visit i =>
    rw [hloop] at hpaid
    by_cases hend : s.size ≤ i
    · simp only [if_pos hend]
      exact h.of_loop _ (by simp [hloop]) (by simp) fun j hj => hpaid j (Nat.lt_of_lt_of_le hj hend)
    · by_cases hready : (s.tasks i).is_ready = true
      · simp only [if_neg hend, RegTask.claim, if_pos hready]
        exact h.claim hticks hloop hready
      · have hcount := h.counted i
        simp only [hloop, if_neg hready] at hcount
        simp only [if_neg hend, RegTask.claim, if_neg hready, Function.update_eq_self]
        refine h.of_loop _ (by simp [hloop]) (by simp) fun j hj => ?_
        rcases Nat.eq_or_lt_of_le (Nat.le_of_lt_succ hj) with rfl | hlt
        · simpa [hcount] using h.owed j
        · exact hpaid j hlt
  | call i => exact h.call hloop
  | running i =>
    rw [hloop] at hpaid
    exact h.of_loop _ (by simp [hloop]) (by simp) fun j hj => hpaid j (Nat.le_of_lt_succ hj)

theorem exec (h : Holds s) {e : Event} (hp : s.Permitted e) : Holds (s.exec e) := by
  cases e with
  | wait ticks =>
    exact ⟨h.synced, fun j => (h.sound j).advance (Nat.le_add_right _ _), h.entered, h.callable,
      h.counted, h.owed, h.paid⟩
  | interrupt => exact h.begin_tick
  | tick => exact h.stepTick
  | loop => exact h.stepLoop hp

theorem of_starts (h : s.Starts) : Holds s where
  synced j := by rw [h.time_last, h.reference]
  sound j := by
    have hrelease : s.release j = ⟨s.start j, false, []⟩ := by
      rw [release, h.reference, h.is_ready, h.activations]
    have hpending : s.pending j = [] := by simp [pending, h.ticks]
    rw [hrelease, hpending]
    exact .start_at (h.start j)
  entered := by simp [h.ticks]
  callable j := by simp [h.is_ready, h.loop]
  counted j := by simp [h.activations, h.calls, h.loop, h.is_ready]
  owed j := by simp [h.owed]
  paid := by simp [Paid, h.loop, h.owed]

theorem of_reachable (h : sessions.Reachable s) : Holds s :=
  h.driven_invariant (fun _ => of_starts) fun _ _ hs hp => hs.exec hp

end Holds
end Session
end Atoman.Baremetal
