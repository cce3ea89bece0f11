import Atoman.Srtos.Scheduler

/-!
# The joint invariant

The snapshots in the pool belong to the suspended tasks, in the order in which these
tasks wait in the ready queue. The pool keeps its part of the invariant whatever
happens; the queue keeps its part as long as there is no fault, and after a fault the
pool is not touched any more.
-/

namespace Atoman.Srtos
open Lib (LinkedQueue Memory)
universe u

namespace Sched
variable {ι : Type u} {cfg : Config ι} {s : Sched ι} {t u : ι}

/-! ## The pool -/

/-- The span of a snapshot in the pool. -/
def span (s : Sched ι) (t : ι) : ℕ × ℕ :=
  ((s.tasks t).p_snapshot.getD 0, (s.tasks t).snapshot_capacity_words)

/-- The task is suspended. -/
def old (s : Sched ι) (t : ι) : Bool := (s.tasks t).state = .readyOld

/-- The owners of the snapshots, the oldest first. -/
structure Pooled (cfg : Config ι) (s : Sched ι) (owners : List ι) : Prop where
  nodup : owners.Nodup
  mem : ∀ t, t ∈ owners ↔ ∃ offset, (s.tasks t).p_snapshot = some offset
  valid : s.pool.Valid cfg.context_pool_words (owners.map s.span)
  words : ∀ t ∈ owners, (s.tasks t).snapshot_words = (s.tasks t).snapshot_capacity_words ∧
    (s.tasks t).snapshot_words ≤ cfg.runtime_stack_words ∧
    cfg.stackLow + (s.tasks t).snapshot_words ≤ cfg.stackTop
  saved : ∀ t ∈ owners, s.context_pool.slice (s.span t).1 (s.span t).2 = s.history.saved t
  order : .contextReleaseOrder ∉ s.history.faults
  corrupt : .contextPoolCorrupt ∉ s.history.faults

/-- The snapshot of a task. -/
def snapshot (s : Sched ι) (t : ι) : Option ℕ × ℕ × ℕ :=
  ((s.tasks t).p_snapshot, (s.tasks t).snapshot_words, (s.tasks t).snapshot_capacity_words)

namespace Pooled
variable {owners : List ι}

/-- What touches neither the pool nor a snapshot. -/
theorem of_eq (h : s.Pooled cfg owners) {s' : Sched ι} (hpool : s'.pool = s.pool)
    (hmemory : s'.context_pool = s.context_pool) (hsaved : s'.history.saved = s.history.saved)
    (hfaults : s'.history.faults = s.history.faults) (hsnap : ∀ t, s'.snapshot t = s.snapshot t) :
    s'.Pooled cfg owners := by
  have hp (t : ι) : (s'.tasks t).p_snapshot = (s.tasks t).p_snapshot :=
    congrArg (fun snap => snap.1) (hsnap t)
  have hw (t : ι) : (s'.tasks t).snapshot_words = (s.tasks t).snapshot_words :=
    congrArg (fun snap => snap.2.1) (hsnap t)
  have hc (t : ι) : (s'.tasks t).snapshot_capacity_words = (s.tasks t).snapshot_capacity_words :=
    congrArg (fun snap => snap.2.2) (hsnap t)
  have hspan : s'.span = s.span := by
    funext t
    simp only [span, hp, hc]
  constructor
  · exact h.nodup
  · intro t
    rw [h.mem, hp]
  · rw [hpool, hspan]
    exact h.valid
  · intro t ht
    rw [hw, hc]
    exact h.words t ht
  · intro t ht
    rw [hspan, hmemory, hsaved]
    exact h.saved t ht
  · rw [hfaults]
    exact h.order
  · rw [hfaults]
    exact h.corrupt

theorem faultSet (h : s.Pooled cfg owners) {reason : Fault} (horder : reason ≠ .contextReleaseOrder)
    (hcorrupt : reason ≠ .contextPoolCorrupt) : (s.faultSet reason).Pooled cfg owners where
  nodup := h.nodup
  mem := h.mem
  valid := h.valid
  words := h.words
  saved := h.saved
  order := by
    intro hmem
    rcases List.mem_append.mp hmem with hmem | hmem
    · exact h.order hmem
    · exact horder (List.mem_singleton.mp hmem).symm
  corrupt := by
    intro hmem
    rcases List.mem_append.mp hmem with hmem | hmem
    · exact h.corrupt hmem
    · exact hcorrupt (List.mem_singleton.mp hmem).symm

end Pooled

variable [DecidableEq ι]

/-! ## Changing one task -/

@[simp] theorem modify_tasks_self (s : Sched ι) (t : ι) (f : Task → Task) :
    (s.modify t f).tasks t = f (s.tasks t) := Function.update_self ..

theorem modify_tasks_of_ne (s : Sched ι) (f : Task → Task) (h : u ≠ t) :
    (s.modify t f).tasks u = s.tasks u := Function.update_of_ne h ..

@[simp] theorem readyEnqueue_tasks (s : Sched ι) (t : ι) : (s.readyEnqueue t).tasks = s.tasks := rfl

/-- A field that the change keeps is the same for all tasks. -/
theorem modify_field {β : Type*} (s : Sched ι) (t u : ι) (f : Task → Task) (field : Task → β)
    (h : field (f (s.tasks t)) = field (s.tasks t)) :
    field ((s.modify t f).tasks u) = field (s.tasks u) := by
  by_cases hu : u = t
  · subst hu
    rw [modify_tasks_self, h]
  · rw [modify_tasks_of_ne _ _ hu]

namespace Pooled
variable {owners : List ι}

/-- A change of a task that keeps its snapshot. -/
theorem modify (h : s.Pooled cfg owners) (t : ι) (f : Task → Task)
    (hf : (f (s.tasks t)).p_snapshot = (s.tasks t).p_snapshot ∧
      (f (s.tasks t)).snapshot_words = (s.tasks t).snapshot_words ∧
      (f (s.tasks t)).snapshot_capacity_words = (s.tasks t).snapshot_capacity_words) :
    (s.modify t f).Pooled cfg owners := by
  refine h.of_eq rfl rfl rfl rfl fun u => ?_
  refine s.modify_field t u f
    (fun task => (task.p_snapshot, task.snapshot_words, task.snapshot_capacity_words)) ?_
  rw [hf.1, hf.2.1, hf.2.2]

theorem readyEnqueue (h : s.Pooled cfg owners) (t : ι) : (s.readyEnqueue t).Pooled cfg owners :=
  h.of_eq rfl rfl rfl rfl fun _ => rfl

theorem taskActivateIfDue (h : s.Pooled cfg owners) (t : ι) (now : UInt32) :
    (s.taskActivateIfDue cfg t now).Pooled cfg owners := by
  unfold Sched.taskActivateIfDue
  split
  · exact h
  · dsimp only
    split
    · exact h
    · split
      · exact h
      · exact (h.modify t _ ⟨rfl, rfl, rfl⟩).readyEnqueue t

theorem sectionTaskTick (h : s.Pooled cfg owners) (now : UInt32) :
    (s.sectionTaskTick cfg now).Pooled cfg owners := by
  unfold Sched.sectionTaskTick
  generalize cfg.tasks = ts
  induction ts generalizing s with
  | nil => exact h
  | cons t ts ih => exact ih (h.taskActivateIfDue t now)

theorem makeRunning (h : s.Pooled cfg owners) (t : ι) : (s.makeRunning t).Pooled cfg owners :=
  (h.modify t (fun task => { task with state := .running }) ⟨rfl, rfl, rfl⟩).of_eq rfl rfl rfl rfl
    fun _ => rfl

theorem sectionTaskCompleteCurrent (h : s.Pooled cfg owners) :
    s.sectionTaskCompleteCurrent.Pooled cfg owners := by
  unfold Sched.sectionTaskCompleteCurrent
  split
  · exact h
  · exact h.modify _ _ ⟨rfl, rfl, rfl⟩

theorem sectionTaskContinueCurrent (h : s.Pooled cfg owners) :
    s.sectionTaskContinueCurrent.Pooled cfg owners := by
  unfold Sched.sectionTaskContinueCurrent
  split
  · exact h
  · exact (h.modify _ _ ⟨rfl, rfl, rfl⟩).readyEnqueue _

theorem sectionTaskStartReadyNewInline (h : s.Pooled cfg owners) :
    s.sectionTaskStartReadyNewInline.Pooled cfg owners := by
  have hpop : s.taskStackPickNext.2.Pooled cfg owners := h.of_eq rfl rfl rfl rfl fun _ => rfl
  unfold Sched.sectionTaskStartReadyNewInline
  split
  · exact h
  · split
    · exact h
    · split
      · next hpick =>
        rw [hpick] at hpop
        exact hpop
      · next hpick =>
        rw [hpick] at hpop
        exact hpop.makeRunning _

end Pooled
/-! ## The queue -/

/-- What touches neither the queue nor a state. -/
structure Frame (s s' : Sched ι) : Prop where
  ready : s'.ready = s.ready
  state : ∀ t, (s'.tasks t).state = (s.tasks t).state
  current : s'.current = s.current
  started : s'.started = s.started
  fault_active : s'.fault_active = s.fault_active
  queued : s'.history.queued = s.history.queued
  dispatched : s'.history.dispatched = s.history.dispatched

/-- A change of a task that keeps its state. -/
theorem Frame.modify (s : Sched ι) (t : ι) (f : Task → Task)
    (hf : (f (s.tasks t)).state = (s.tasks t).state) : Frame s (s.modify t f) :=
  ⟨rfl, fun u => modify_field s t u f Task.state hf, rfl, rfl, rfl, rfl, rfl⟩

/-- The tasks that wait, in order. -/
structure Queued (s : Sched ι) (xs : List ι) : Prop where
  holds : s.ready.Holds xs
  member : ∀ t, t ∈ xs ↔ (s.tasks t).state = .readyNew ∨ (s.tasks t).state = .readyOld
  running : ∀ t, (s.tasks t).state = .running → s.current = some t
  order : s.history.queued = s.history.dispatched ++ xs

namespace Queued
variable {xs : List ι}

omit [DecidableEq ι] in
theorem of_frame (h : s.Queued xs) {s' : Sched ι} (hf : Frame s s') : s'.Queued xs := by
  constructor
  · rw [hf.ready]
    exact h.holds
  · simpa only [hf.state] using h.member
  · simpa only [hf.state, hf.current] using h.running
  · rw [hf.queued, hf.dispatched]
    exact h.order

omit [DecidableEq ι] in
/-- A task in another state does not wait. -/
theorem not_mem (h : s.Queued xs) (hnew : (s.tasks t).state ≠ .readyNew)
    (hold : (s.tasks t).state ≠ .readyOld) : t ∉ xs :=
  fun ht => ((h.member t).mp ht).elim hnew hold

/-- **Queueing** a task that does not wait. -/
theorem enqueue (h : s.Queued xs) (ht : t ∉ xs) (f : Task → Task)
    (hf : (f (s.tasks t)).state = .readyNew ∨ (f (s.tasks t)).state = .readyOld) :
    ((s.modify t f).readyEnqueue t).Queued (xs ++ [t]) := by
  have hself : (((s.modify t f).readyEnqueue t).tasks t) = f (s.tasks t) := modify_tasks_self ..
  have hother {u : ι} (hu : u ≠ t) : ((s.modify t f).readyEnqueue t).tasks u = s.tasks u :=
    modify_tasks_of_ne _ _ hu
  have hflag : ¬ s.ready.linked t = true := fun hflag => ht ((h.holds.linked t).mp hflag)
  constructor
  · exact h.holds.push ht
  · intro u
    rw [List.mem_append, List.mem_singleton]
    by_cases hu : u = t
    · subst hu
      rw [hself]
      exact iff_of_true (Or.inr rfl) hf
    · rw [hother hu, ← h.member u]
      simp only [hu, or_false]
  · intro u hrunning
    by_cases hu : u = t
    · subst hu
      rw [hself] at hrunning
      rw [hrunning] at hf
      exact hf.elim nofun nofun
    · rw [hother hu] at hrunning
      exact h.running u hrunning
  · show (if s.ready.linked t = true then s.history.queued else s.history.queued ++ [t]) = _
    rw [if_neg hflag, h.order, List.append_assoc]
    rfl

/-- **Dispatching** the task at the front, when no task runs. -/
theorem dispatch (h : s.Queued (t :: xs)) (hidle : ∀ u, (s.tasks u).state ≠ .running)
    {s' : Sched ι} (hready : s'.ready = s.ready.pop.2)
    (hstate : ∀ u, (s'.tasks u).state = if u = t then .running else (s.tasks u).state)
    (hcurrent : s'.current = some t) (hqueued : s'.history.queued = s.history.queued)
    (hdispatched : s'.history.dispatched = s.history.dispatched ++ [t]) : s'.Queued xs := by
  obtain ⟨ht, -⟩ := List.nodup_cons.mp h.holds.nodup
  constructor
  · rw [hready]
    exact h.holds.pop.2
  · intro u
    rw [hstate]
    by_cases hu : u = t
    · subst hu
      rw [if_pos rfl]
      exact iff_of_false ht (by simp)
    · rw [if_neg hu, ← h.member u, List.mem_cons]
      simp only [hu, false_or]
  · intro u hrunning
    rw [hstate] at hrunning
    by_cases hu : u = t
    · rw [hu, hcurrent]
    · rw [if_neg hu] at hrunning
      exact absurd hrunning (hidle u)
  · rw [hqueued, hdispatched, h.order, List.append_assoc]
    rfl

/-- The running task goes to sleep. -/
theorem complete (h : s.Queued xs) (ht : (s.tasks t).state = .running) :
    (s.modify t fun task => { task with state := .sleeping }).Queued xs := by
  have hnot : t ∉ xs := h.not_mem (by rw [ht]; exact nofun) (by rw [ht]; exact nofun)
  refine ⟨h.holds, fun u => ?_, fun u hrunning => ?_, h.order⟩
  · by_cases hu : u = t
    · subst hu
      rw [modify_tasks_self]
      exact iff_of_false hnot (by simp)
    · rw [modify_tasks_of_ne _ _ hu]
      exact h.member u
  · by_cases hu : u = t
    · subst hu
      rw [modify_tasks_self] at hrunning
      exact nomatch hrunning
    · rw [modify_tasks_of_ne _ _ hu] at hrunning
      exact h.running u hrunning

end Queued

/-- Queue and pool agree: the suspended tasks own the snapshots, in the order in which
they wait. -/
structure Joint (cfg : Config ι) (s : Sched ι) (owners xs : List ι) : Prop where
  pooled : s.Pooled cfg owners
  queued : s.Queued xs
  agree : owners = xs.filter s.old

/-- What a tick changes is the tasks that slept. -/
structure Quiet (s s' : Sched ι) : Prop where
  current : s'.current = s.current
  started : s'.started = s.started
  fault_active : s'.fault_active = s.fault_active
  running : ∀ t, (s'.tasks t).state = .running ↔ (s.tasks t).state = .running

omit [DecidableEq ι] in
theorem Quiet.refl (s : Sched ι) : Quiet s s := ⟨rfl, rfl, rfl, fun _ => Iff.rfl⟩

omit [DecidableEq ι] in
theorem Quiet.trans {s₁ s₂ s₃ : Sched ι} (h : Quiet s₁ s₂) (h' : Quiet s₂ s₃) : Quiet s₁ s₃ where
  current := h'.current.trans h.current
  started := h'.started.trans h.started
  fault_active := h'.fault_active.trans h.fault_active
  running := fun t => (h'.running t).trans (h.running t)

namespace Joint
variable {owners xs : List ι}

omit [DecidableEq ι] in
theorem of_frame (h : s.Joint cfg owners xs) {s' : Sched ι} (hf : Frame s s')
    (hpooled : s'.Pooled cfg owners) : s'.Joint cfg owners xs where
  pooled := hpooled
  queued := h.queued.of_frame hf
  agree := by
    have hold : s'.old = s.old := by
      funext t
      simp only [old, hf.state]
    rw [hold]
    exact h.agree

omit [DecidableEq ι] in
/-- A snapshot belongs to a suspended task. -/
theorem old_iff (h : s.Joint cfg owners xs) :
    (∃ offset, (s.tasks t).p_snapshot = some offset) ↔ (s.tasks t).state = .readyOld := by
  rw [← h.pooled.mem, h.agree, List.mem_filter, h.queued.member]
  simp only [old, decide_eq_true_eq]
  exact ⟨fun hboth => hboth.2, fun hold => ⟨Or.inr hold, hold⟩⟩

/-- A task that did not wait is queued as new. -/
theorem enqueueNew (h : s.Joint cfg owners xs) (ht : t ∉ xs) (f : Task → Task)
    (hf : (f (s.tasks t)).p_snapshot = (s.tasks t).p_snapshot ∧
      (f (s.tasks t)).snapshot_words = (s.tasks t).snapshot_words ∧
      (f (s.tasks t)).snapshot_capacity_words = (s.tasks t).snapshot_capacity_words)
    (hnew : (f (s.tasks t)).state = .readyNew) :
    ((s.modify t f).readyEnqueue t).Joint cfg owners (xs ++ [t]) where
  pooled := (h.pooled.modify t f hf).readyEnqueue t
  queued := h.queued.enqueue ht f (Or.inl hnew)
  agree := by
    have hself : ((s.modify t f).readyEnqueue t).old t = false := by
      show decide (((s.modify t f).tasks t).state = _) = false
      rw [modify_tasks_self, hnew]
      rfl
    have hother : xs.filter ((s.modify t f).readyEnqueue t).old = xs.filter s.old := by
      refine List.filter_congr fun u hu => ?_
      have hne : u ≠ t := fun heq => ht (heq ▸ hu)
      show decide (((s.modify t f).tasks u).state = _) = _
      rw [modify_tasks_of_ne _ _ hne]
      rfl
    rw [List.filter_append, hother, List.filter_cons_of_neg (by rw [hself]; exact nofun),
      List.filter_nil, List.append_nil]
    exact h.agree

theorem taskActivateIfDue (h : s.Joint cfg owners xs) (t : ι) (now : UInt32) :
    (∃ ys, (s.taskActivateIfDue cfg t now).Joint cfg owners ys) ∧
      Quiet s (s.taskActivateIfDue cfg t now) := by
  unfold Sched.taskActivateIfDue
  split
  · exact ⟨⟨xs, h⟩, .refl s⟩
  · dsimp only
    split
    · exact ⟨⟨xs, h⟩, .refl s⟩
    · split
      · exact ⟨⟨xs, h⟩, .refl s⟩
      · next hstate =>
        have hsleep : (s.tasks t).state = .sleeping := not_not.mp hstate
        have ht : t ∉ xs :=
          h.queued.not_mem (by rw [hsleep]; exact nofun) (by rw [hsleep]; exact nofun)
        refine ⟨⟨_, h.enqueueNew ht _ ⟨rfl, rfl, rfl⟩ rfl⟩, rfl, rfl, rfl, fun u => ?_⟩
        rw [readyEnqueue_tasks]
        by_cases hu : u = t
        · subst hu
          rw [modify_tasks_self, hsleep]
          exact iff_of_false nofun nofun
        · rw [modify_tasks_of_ne _ _ hu]

theorem sectionTaskTick (h : s.Joint cfg owners xs) (now : UInt32) :
    (∃ ys, (s.sectionTaskTick cfg now).Joint cfg owners ys) ∧
    Quiet s (s.sectionTaskTick cfg now) := by
  unfold Sched.sectionTaskTick
  generalize cfg.tasks = ts
  induction ts generalizing s xs with
  | nil => exact ⟨⟨xs, h⟩, .refl s⟩
  | cons t ts ih =>
    obtain ⟨⟨ys, hys⟩, hquiet⟩ := h.taskActivateIfDue t now
    obtain ⟨hzs, hquiet'⟩ := ih hys
    exact ⟨hzs, hquiet.trans hquiet'⟩

end Joint

end Sched
end Atoman.Srtos
