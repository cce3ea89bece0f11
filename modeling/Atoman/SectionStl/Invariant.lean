import Atoman.Lib.Transition
import Atoman.SectionStl.Api

/-!
# Runs of the core and what holds over them

Any public function may be called at any time, from any context the port reports, and
the code that runs on the shared stack may change its words. A step is what is done under one
lock, or the call of a callback. The callback of the current task may be called and may complete
whenever the task runs, and the callbacks of an initialization are not waited for; the runs of the
code are among these runs.

The invariant relates the group table, the task table, the ready queue, the records and
the current task. It is split by what it speaks of; each part depends on a few fields
of the state only, which `Same` lists. A task that is taken from the queue and not yet
running is the only one that may be in none of the proper states.
-/

namespace Atoman.SectionStl
open Lib (Memory Transition)

/-- A step of the environment or of the trampoline. -/
inductive Action
  | init (port : Port) (now : UInt32)
  | register (port : Port) (image : Image) (group_id : UInt32) (p_entries : Option (ℕ → RegSection))
    (count : ℕ) (p_handle : Bool)
  | initializeBegin (port : Port) (image : Image) (handle : Handle)
    (p_entries : Option (ℕ → RegSection))
    (count : ℕ)
  | initializeNext
  | enable (port : Port) (handle : Handle)
  | disable (port : Port) (handle : Handle)
  | pause (port : Port) (handle : Handle)
  | revoke (port : Port) (handle : Handle)
  | acquire (port : Port) (handle : Handle)
  | release (port : Port) (handle : Handle)
  | quiescent (port : Port) (handle : Handle)
  | forget (port : Port) (handle : Handle)
  | tick (port : Port) (now : UInt32)
  | requestNative (port : Port)
  | switch (port : Port) (p_saved_sp : Option ℕ)
  | callback
  | complete (port : Port) (outcome_running : Bool)
  | write (i : ℕ) (word : UInt32)

namespace State

/-- The state after an action. -/
def exec (cfg : Config) (s : State) : Action → State
  | .init port now => (s.sectionStlInit port now).1
  | .register port image group_id p_entries count p_handle =>
    (s.sectionStlGroupRegister cfg port image group_id p_entries count p_handle).1
  | .initializeBegin port image handle p_entries count =>
    (s.sectionStlGroupInitialize cfg port image handle p_entries count).1
  | .initializeNext => s.initializeNext.1
  | .enable port handle => (s.sectionStlGroupEnable port handle).1
  | .disable port handle => (s.sectionStlGroupDisable cfg port handle).1
  | .pause port handle => (s.sectionStlGroupPause cfg port handle).1
  | .revoke port handle => (s.sectionStlGroupRevoke cfg port handle).1
  | .acquire port handle => (s.sectionStlGroupAcquire port handle).1
  | .release port handle => (s.sectionStlGroupRelease port handle).1
  | .quiescent port handle => (s.sectionStlGroupQuiescent cfg port handle).1
  | .forget port handle => (s.sectionStlGroupForget cfg port handle).1
  | .tick port now => (s.sectionStlTick port now).1
  | .requestNative port => (s.sectionStlRequestNative port).1
  | .switch port p_saved_sp => (s.sectionStlSwitch cfg port p_saved_sp).1
  | .callback => s.entryCall
  | .complete port outcome_running => s.entryComplete cfg port outcome_running
  | .write i word => { s with stack := Function.update s.stack i word }

/-- The static variables before the first call; nothing is said of the words of the
stack and the pool. -/
def reset (pool stack : Memory UInt32) : State where
  groups := fun _ => .zero
  group_list := []
  group_count := 0
  generation := 0
  tasks := fun _ => .zero
  ready := .empty
  ready_count := 0
  ring := ⟨fun _ => .zero, 0, 0, 0, 0, 0, 0, pool, 0, 0, 0, 0, fun _ => (0, [])⟩
  current := none
  initialized := false
  native_pending := false
  tick_now := 0
  slice_start := 0
  stack := stack
  fault := .ok
  init_callbacks := []
  initRun := none
  history := ⟨[], []⟩

end State

/-- The runs of the core. -/
def runs (cfg : Config) : Transition State where
  init := fun s => ∃ pool stack, s = .reset pool stack
  next := fun s s' => ∃ action, s' = s.exec cfg action

/-! ## What holds between the tables -/

/-- The fields of a group that the invariant depends on. -/
def Group.view (group : Group) : Handle × List ℕ × GroupState × Bool × Bool :=
  (group.handle, group.tasks, group.state, group.init_busy, group.initialized)

/-- The fields of a task that the invariant depends on. -/
def Task.view (task : Task) : Handle × TaskState × Option ℕ := (task.owner, task.state, task.record)

namespace State
variable {cfg : Config} {s s' : State} {xs : List ℕ} {out : Option ℕ} {g t r : ℕ}

/-- The task is linked by the group. -/
def Owns (s : State) (g t : ℕ) : Prop := g ∈ s.group_list ∧ t ∈ (s.groups g).tasks

/-- The record holds a snapshot that is still to be restored. -/
def Saved (cfg : Config) (s : State) (r : ℕ) : Prop :=
  r ∈ s.ring.live cfg ∧ (s.ring.records r).consumed = false

/-! ## The parts -/

/-- The groups and their tasks. -/
structure Resident (cfg : Config) (s : State) : Prop where
  nodup : s.group_list.Nodup
  listed : ∀ g ∈ s.group_list, g < cfg.max_groups ∧ (s.groups g).handle.group_id ≠ 0 ∧
    (s.groups g).handle.generation ≤ s.generation
  unlisted : ∀ g, g ∉ s.group_list → (s.groups g).handle = .zero
  distinct : ∀ g ∈ s.group_list, ∀ g' ∈ s.group_list,
    (s.groups g).handle.group_id = (s.groups g').handle.group_id → g = g'
  tasks_nodup : ∀ g ∈ s.group_list, (s.groups g).tasks.Nodup
  owned : ∀ g t, s.Owns g t →
    t < cfg.max_tasks ∧ (s.tasks t).state ≠ .free ∧ (s.tasks t).owner = (s.groups g).handle
  resident : ∀ t, (s.tasks t).state ≠ .free → ∃ g, s.Owns g t
  cleared : ∀ t, (s.tasks t).state = .free → (s.tasks t).owner = .zero

/-- The task may wait: a new activation in an enabled group, or a continuation with its
snapshot in a group that may resume it. -/
inductive Waits (cfg : Config) (s : State) (t : ℕ) : Prop
  | new (state : (s.tasks t).state = .new)
      (group : ∃ g, s.Owns g t ∧ (s.groups g).state = .enabled)
  | old (state : (s.tasks t).state = .old)
      (group : ∃ g, s.Owns g t ∧ ¬ .paused ≤ (s.groups g).state ∧ (s.groups g).initialized = true)
      (record : ∃ r, (s.tasks t).record = some r ∧ s.Saved cfg r ∧
        (s.ring.records r).task_index = t ∧ (s.ring.records r).owner = (s.tasks t).owner)

/-- The queue, and the records of the tasks. -/
structure Queued (cfg : Config) (s : State) (xs : List ℕ) : Prop where
  holds : s.ready.Holds xs
  count : s.ready_count = xs.length
  waits : ∀ t ∈ xs, s.Waits cfg t
  saved : ∀ r, s.Saved cfg r → (s.ring.records r).task_index ∈ xs ∧
    (s.tasks (s.ring.records r).task_index).record = some r
  owners : ∀ r ∈ s.ring.live cfg, ∃ g ∈ s.group_list, (s.ring.records r).owner = (s.groups g).handle
  record : ∀ t, (s.tasks t).record ≠ none → (s.tasks t).state = .old ∨ (s.tasks t).state = .free

/-- The current task, and the tasks that are neither asleep nor free. Only `out` may be
in none of their places, and after a fault any task may. -/
structure Placed (s : State) (xs : List ℕ) (out : Option ℕ) : Prop where
  current : ∀ t, s.current = some t → ∃ g, s.Owns g t ∧ (s.groups g).initialized = true ∧
    (s.groups g).state ≠ .paused ∧ (s.groups g).state ≠ .revoked
  running : ∀ t, s.current = some t → (s.tasks t).state = .running → s.fault = .ok
  settled : s.fault = .ok → ∀ t, some t ≠ out →
    ((s.tasks t).state = .new ∨ (s.tasks t).state = .old → t ∈ xs) ∧
    ((s.tasks t).state = .running → s.current = some t)

/-- The initialization that runs, if one does. -/
structure Starting (s : State) : Prop where
  busy : ∀ g ∈ s.group_list, (s.groups g).init_busy = true ↔
    ∃ run, s.initRun = some run ∧ run.group = g
  listed : ∀ run, s.initRun = some run → run.group ∈ s.group_list
  state : ∀ g ∈ s.group_list, (s.groups g).init_busy = true → (s.groups g).initialized = false ∧
    ((s.groups g).state = .disabled ∨ (s.groups g).state = .revoking)
  enabled : ∀ g ∈ s.group_list, (s.groups g).state = .enabled → (s.groups g).initialized = true

/-- The whole invariant. -/
structure Joint (cfg : Config) (s : State) (xs : List ℕ) (out : Option ℕ) : Prop where
  resident : s.Resident cfg
  ring : s.ring.Valid cfg
  swept : s.ring.Swept cfg
  queued : s.Queued cfg xs
  placed : s.Placed xs out
  starting : s.Starting

/-! ## Frames -/

/-- The two states agree in what the invariant depends on. -/
structure Same (s s' : State) : Prop where
  group_list : s'.group_list = s.group_list
  groups : ∀ g, (s'.groups g).view = (s.groups g).view
  generation : s'.generation = s.generation
  tasks : ∀ t, (s'.tasks t).view = (s.tasks t).view
  ready : s'.ready = s.ready
  ready_count : s'.ready_count = s.ready_count
  ring : s'.ring = s.ring
  current : s'.current = s.current
  fault : s'.fault = s.fault
  initRun : s'.initRun = s.initRun

namespace Same

theorem refl (s : State) : Same s s :=
  ⟨rfl, fun _ => rfl, rfl, fun _ => rfl, rfl, rfl, rfl, rfl, rfl, rfl⟩

variable (h : Same s s')
include h

theorem handle (g : ℕ) : (s'.groups g).handle = (s.groups g).handle :=
  congrArg (fun view => view.1) (h.groups g)

theorem group_tasks (g : ℕ) : (s'.groups g).tasks = (s.groups g).tasks :=
  congrArg (fun view => view.2.1) (h.groups g)

theorem group_state (g : ℕ) : (s'.groups g).state = (s.groups g).state :=
  congrArg (fun view => view.2.2.1) (h.groups g)

theorem init_busy (g : ℕ) : (s'.groups g).init_busy = (s.groups g).init_busy :=
  congrArg (fun view => view.2.2.2.1) (h.groups g)

theorem initialized (g : ℕ) : (s'.groups g).initialized = (s.groups g).initialized :=
  congrArg (fun view => view.2.2.2.2) (h.groups g)

theorem owner (t : ℕ) : (s'.tasks t).owner = (s.tasks t).owner :=
  congrArg (fun view => view.1) (h.tasks t)

theorem task_state (t : ℕ) : (s'.tasks t).state = (s.tasks t).state :=
  congrArg (fun view => view.2.1) (h.tasks t)

theorem record (t : ℕ) : (s'.tasks t).record = (s.tasks t).record :=
  congrArg (fun view => view.2.2) (h.tasks t)

theorem owns (g t : ℕ) : s'.Owns g t ↔ s.Owns g t := by
  unfold Owns
  rw [h.group_list, h.group_tasks]

theorem saved (r : ℕ) : s'.Saved cfg r ↔ s.Saved cfg r := by
  unfold Saved
  rw [h.ring]

theorem waits (hw : s.Waits cfg t) : s'.Waits cfg t := by
  rcases hw with ⟨hstate, g, howns, hgroup⟩ | ⟨hstate, ⟨g, howns, hgroup⟩, r, hrecord,
    hsaved, hindex, howner⟩
  · refine .new ((h.task_state t).trans hstate) ⟨g, (h.owns g t).mpr howns, ?_⟩
    rw [h.group_state]
    exact hgroup
  · refine .old ((h.task_state t).trans hstate) ⟨g, (h.owns g t).mpr howns, ?_⟩ ⟨r, ?_, ?_, ?_, ?_⟩
    · rw [h.group_state, h.initialized]
      exact hgroup
    · rw [h.record]
      exact hrecord
    · exact (h.saved r).mpr hsaved
    · rw [h.ring]
      exact hindex
    · rw [h.ring, h.owner]
      exact howner

theorem joint (hj : s.Joint cfg xs out) : s'.Joint cfg xs out := by
  obtain ⟨hr, hring, hswept, hq, hp, hst⟩ := hj
  constructor
  · constructor
    · rw [h.group_list]
      exact hr.nodup
    · intro g
      rw [h.group_list, h.handle, h.generation]
      exact hr.listed g
    · intro g
      rw [h.group_list, h.handle]
      exact hr.unlisted g
    · intro g hg g' hg'
      rw [h.group_list] at hg hg'
      rw [h.handle, h.handle]
      exact hr.distinct g hg g' hg'
    · intro g
      rw [h.group_list, h.group_tasks]
      exact hr.tasks_nodup g
    · intro g t
      rw [h.owns, h.task_state, h.owner, h.handle]
      exact hr.owned g t
    · intro t
      rw [h.task_state]
      intro ht
      obtain ⟨g, hg⟩ := hr.resident t ht
      exact ⟨g, (h.owns g t).mpr hg⟩
    · intro t
      rw [h.task_state, h.owner]
      exact hr.cleared t
  · rw [h.ring]
    exact hring
  · rw [h.ring]
    exact hswept
  · constructor
    · rw [h.ready]
      exact hq.holds
    · rw [h.ready_count]
      exact hq.count
    · exact fun t ht => h.waits (hq.waits t ht)
    · intro r
      rw [h.saved, h.ring, h.record]
      exact hq.saved r
    · intro r
      rw [h.ring, h.group_list]
      intro hlive
      obtain ⟨g, hg, howner⟩ := hq.owners r hlive
      exact ⟨g, hg, howner.trans (h.handle g).symm⟩
    · intro t
      rw [h.record, h.task_state]
      exact hq.record t
  · constructor
    · intro t
      rw [h.current]
      intro ht
      obtain ⟨g, howns, hgroup⟩ := hp.current t ht
      refine ⟨g, (h.owns g t).mpr howns, ?_⟩
      rw [h.initialized, h.group_state]
      exact hgroup
    · intro t
      rw [h.current, h.task_state, h.fault]
      exact hp.running t
    · rw [h.fault]
      intro hok t
      rw [h.task_state, h.current]
      exact hp.settled hok t
  · constructor
    · intro g
      rw [h.group_list, h.init_busy, h.initRun]
      exact hst.busy g
    · rw [h.initRun, h.group_list]
      exact hst.listed
    · intro g
      rw [h.group_list, h.init_busy, h.initialized, h.group_state]
      exact hst.state g
    · intro g
      rw [h.group_list, h.initialized, h.group_state]
      exact hst.enabled g

end Same

theorem Joint.same (hj : s.Joint cfg xs out) (h : Same s s') : s'.Joint cfg xs out := h.joint hj

/-! ## Reading the tables -/

@[simp] theorem modify_tasks_self (s : State) (t : ℕ) (f : Task → Task) :
    (s.modify t f).tasks t = f (s.tasks t) := Function.update_self t _ _

theorem modify_tasks_of_ne (s : State) {t u : ℕ} (f : Task → Task) (h : u ≠ t) :
    (s.modify t f).tasks u = s.tasks u := Function.update_of_ne h _ _

@[simp] theorem modifyGroup_groups_self (s : State) (g : ℕ) (f : Group → Group) :
    (s.modifyGroup g f).groups g = f (s.groups g) := Function.update_self g _ _

theorem modifyGroup_groups_of_ne (s : State) {g k : ℕ} (f : Group → Group) (h : k ≠ g) :
    (s.modifyGroup g f).groups k = s.groups k := Function.update_of_ne h _ _

/-- Changing other fields of a task. -/
theorem same_modify (s : State) (t : ℕ) {f : Task → Task}
    (hf : (f (s.tasks t)).view = (s.tasks t).view) : Same s (s.modify t f) := by
  refine ⟨rfl, fun _ => rfl, rfl, fun u => ?_, rfl, rfl, rfl, rfl, rfl, rfl⟩
  by_cases hu : u = t
  · subst hu
    rw [modify_tasks_self]
    exact hf
  · rw [modify_tasks_of_ne s f hu]

/-- Changing other fields of a group. -/
theorem same_modifyGroup (s : State) (g : ℕ) {f : Group → Group}
    (hf : (f (s.groups g)).view = (s.groups g).view) : Same s (s.modifyGroup g f) := by
  refine ⟨rfl, fun k => ?_, rfl, fun _ => rfl, rfl, rfl, rfl, rfl, rfl, rfl⟩
  by_cases hk : k = g
  · subst hk
    rw [modifyGroup_groups_self]
    exact hf
  · rw [modifyGroup_groups_of_ne s f hk]

theorem groupFind_some {handle : Handle} (h : s.groupFind handle = some g) :
    g ∈ s.group_list ∧ (s.groups g).handle = handle := by
  unfold groupFind at h
  exact ⟨List.mem_of_find?_eq_some h, by simpa using List.find?_some h⟩

theorem groupFind_none {handle : Handle} (h : s.groupFind handle = none) :
    ∀ g ∈ s.group_list, (s.groups g).handle ≠ handle := by
  unfold groupFind at h
  simpa using h

namespace Resident

/-- A handle names one group. -/
theorem eq_of_handle (h : s.Resident cfg) {k : ℕ} (hg : g ∈ s.group_list) (hk : k ∈ s.group_list)
    (heq : (s.groups g).handle = (s.groups k).handle) : g = k :=
  h.distinct g hg k hk (congrArg Handle.group_id heq)

theorem groupFind (h : s.Resident cfg) (hg : g ∈ s.group_list) :
    s.groupFind (s.groups g).handle = some g := by
  cases hfind : s.groupFind (s.groups g).handle with
  | none => exact absurd rfl (groupFind_none hfind g hg)
  | some k =>
    obtain ⟨hk, heq⟩ := groupFind_some hfind
    rw [h.eq_of_handle hk hg heq]

/-- The owner of a task leads to its group. -/
theorem groupFind_owner (h : s.Resident cfg) (howns : s.Owns g t) :
    s.groupFind (s.tasks t).owner = some g := by
  rw [(h.owned g t howns).2.2]
  exact h.groupFind howns.1

/-- A task has one group. -/
theorem owns_unique (h : s.Resident cfg) {k : ℕ} (hg : s.Owns g t) (hk : s.Owns k t) : g = k :=
  Option.some.inj ((h.groupFind_owner hg).symm.trans (h.groupFind_owner hk))

end Resident

namespace Waits

theorem owned (h : s.Waits cfg t) : ∃ g, s.Owns g t ∧ ¬ .paused ≤ (s.groups g).state := by
  rcases h with ⟨-, g, howns, hstate⟩ | ⟨-, ⟨g, howns, hmay, -⟩, -⟩
  · refine ⟨g, howns, ?_⟩
    rw [hstate]
    decide
  · exact ⟨g, howns, hmay⟩

theorem state (h : s.Waits cfg t) : (s.tasks t).state = .new ∨ (s.tasks t).state = .old := by
  rcases h with ⟨hstate, -⟩ | ⟨hstate, -, -⟩
  · exact Or.inl hstate
  · exact Or.inr hstate

end Waits

/-- The state before the first call. -/
theorem joint_reset (pool stack : Lib.Memory UInt32) :
    (reset pool stack).Joint cfg [] none := by
  have hlive : (reset pool stack).ring.live cfg = [] := rfl
  constructor
  · constructor
    · exact List.nodup_nil
    · exact fun g hg => absurd hg List.not_mem_nil
    · exact fun _ _ => rfl
    · exact fun g hg => absurd hg List.not_mem_nil
    · exact fun g hg => absurd hg List.not_mem_nil
    · exact fun g t howns => absurd howns.1 List.not_mem_nil
    · exact fun t ht => absurd rfl ht
    · exact fun _ _ => rfl
  · refine ⟨cfg.max_records_pos, ?_, Nat.zero_le _, cfg.pool_words_pos, rfl, rfl, Nat.zero_le _, ?_⟩
    · exact (Nat.mod_eq_of_lt cfg.max_records_pos).symm
    · rw [hlive]
      exact fun r hr => absurd hr List.not_mem_nil
  · intro r hr
    rw [hlive] at hr
    exact nomatch hr
  · refine ⟨Lib.LinkedQueue.holds_empty, rfl, ?_, ?_, ?_, ?_⟩
    · exact fun t ht => absurd ht List.not_mem_nil
    · rintro r ⟨hr, -⟩
      rw [hlive] at hr
      exact absurd hr List.not_mem_nil
    · rw [hlive]
      exact fun r hr => absurd hr List.not_mem_nil
    · exact fun t _ => Or.inr rfl
  · refine ⟨nofun, nofun, fun _ t _ => ⟨?_, nofun⟩⟩
    rintro (h | h)
    · exact nomatch h
    · exact nomatch h
  · exact ⟨fun g hg => absurd hg List.not_mem_nil, nofun, fun g hg => absurd hg List.not_mem_nil,
      fun g hg => absurd hg List.not_mem_nil⟩

end State
end Atoman.SectionStl
