import Atoman.Srtos.Preservation
import Mathlib.Data.List.Pairwise

/-!
# Snapshots stay intact and tasks in order

What the invariant says about the context pool: the snapshots are apart and hold what
was saved, the used words are theirs and those of one gap, and neither program calls the
pool or the order of its releases a fault.

As long as there is no fault every task is where its state says, and the tasks are
dispatched in the order in which they were queued: what has been queued is what has been
dispatched and, behind it, what waits.
-/

namespace Atoman.Srtos
open Pool (Apart)
universe u

namespace Sched
variable {ι : Type u} [DecidableEq ι] {cfg : Config ι} {s s' : Sched ι} {t : ι}

/-! ## The pool -/

/-- The task has a snapshot in the pool. -/
def Suspended (s : Sched ι) (t : ι) : Prop := ∃ offset, (s.tasks t).p_snapshot = some offset

/-- **Intact**: what the pool promises about its snapshots. -/
structure Intact (cfg : Config ι) (s : Sched ι) : Prop where
  in_range : ∀ t, s.Suspended t → (s.span t).1 + (s.span t).2 ≤ cfg.context_pool_words
  disjoint : ∀ t u, s.Suspended t → s.Suspended u → t ≠ u → Apart (s.span t) (s.span u)
  saved : ∀ t, s.Suspended t → (s.tasks t).snapshot_words = (s.span t).2 ∧
    s.context_pool.slice (s.span t).1 (s.span t).2 = s.history.saved t
  charged : ∃ owners : List ι, owners.Nodup ∧ (∀ t, t ∈ owners ↔ s.Suspended t) ∧
    s.pool.used = (owners.map fun t => (s.span t).2).sum + s.pool.gap_words
  gap : s.pool.gap_words = 0 ∧ s.pool.gap_start = 0 ∨
    s.pool.gap_start + s.pool.gap_words = cfg.context_pool_words ∧
      ∀ t, s.Suspended t → Apart (s.span t) (s.pool.gap_start, s.pool.gap_words)
  refused : ∀ t n, (s.taskContextAlloc cfg t n).2 = false →
    (s.taskContextAlloc cfg t n).1.pool = s.pool
  release_order : .contextReleaseOrder ∉ s.history.faults
  pool_corrupt : .contextPoolCorrupt ∉ s.history.faults

/-- A refused allocation changes nothing. -/
theorem Pooled.refused {owners : List ι} (h : s.Pooled cfg owners) {n : ℕ}
    (hrefused : (s.taskContextAlloc cfg t n).2 = false) : (s.taskContextAlloc cfg t n).1 = s := by
  rcases Nat.eq_zero_or_pos n with rfl | hn
  · rw [Sched.taskContextAlloc, if_pos rfl]
  · by_cases ht : t ∈ owners
    · obtain ⟨offset, hoffset⟩ := (h.mem t).mp ht
      simp only [Sched.taskContextAlloc, if_neg (Nat.ne_of_gt hn), hoffset]
      split <;> rfl
    · rcases h.held.taskContextAlloc ht hn with halloc | ⟨pool, offset, halloc, -⟩
      · rw [halloc]
      · rw [halloc] at hrefused
        cases hrefused

/-- **The snapshots are intact** in every state of every run of either scheduler. -/
theorem snapshots_intact (h : (runs cfg).Reachable s) : s.Intact cfg := by
  obtain ⟨owners, howners⟩ := (inv_of_reachable h).pooled
  have hmem {t : ι} (ht : s.Suspended t) : t ∈ owners := (howners.mem t).mpr ht
  have hspan {t : ι} (ht : s.Suspended t) : s.span t ∈ owners.map s.span :=
    List.mem_map_of_mem (hmem ht)
  constructor
  · intro t ht
    exact howners.valid.range_le _ (hspan ht)
  · intro t u ht hu hne
    have hpair := List.pairwise_map.mp howners.valid.pairwise_apart
    have hsymm : Std.Symm fun t u => Apart (s.span t) (s.span u) := ⟨fun _ _ h => h.symm⟩
    exact hpair.forall (hmem ht) (hmem hu) hne
  · intro t ht
    exact ⟨(howners.words t (hmem ht)).1, howners.saved t (hmem ht)⟩
  · refine ⟨owners, howners.nodup, howners.mem, ?_⟩
    rw [howners.valid.used_eq, List.map_map]
    rfl
  · rcases howners.valid.gap with hnone | ⟨hend, hapart⟩
    · exact Or.inl hnone
    · exact Or.inr ⟨hend, fun t ht => hapart _ (hspan ht)⟩
  · intro t n hrefused
    rw [howners.refused hrefused]
  · exact howners.order
  · exact howners.corrupt

/-- Two tasks on a small stack. -/
def twoTasks : Config (Fin 2) where
  variant := .m
  context_pool_words := 64
  context_pool_pos := by decide
  runtime_stack_words := 64
  policy := .fault
  slice_ticks := 10
  entry := 0x08000100
  initial_cause := 0
  runtime_tp := 0
  tasks := [0, 1]
  t_period := fun _ => 1
  callable := fun _ => true

/-- The first task has been switched away, and the second one runs. -/
def preempted : Sched (Fin 2) :=
  [.startRequest 0, .switch none 1, .switch (some 44) 11].foldl (exec twoTasks)
    (reset (fun _ => 0) (fun _ => 0) fun _ => 0)

theorem preempted_reachable : (runs twoTasks).Reachable preempted :=
  .step (.step (.step (.start ⟨_, _, _, rfl⟩)
    ⟨.startRequest 0, trivial, rfl⟩)
    ⟨.switch none 1, fun _ _ h => (nomatch h.1), rfl⟩)
    ⟨.switch (some 44) 11, fun h => (nomatch h), rfl⟩

/-- Its snapshot is intact. -/
theorem snapshots_intact_preempted : preempted.Suspended 0 ∧ preempted.Intact twoTasks :=
  ⟨⟨0, by decide⟩, snapshots_intact preempted_reachable⟩

/-! ## What is queued and dispatched grows -/

/-- More may have been queued and dispatched. -/
structure Grows (s s' : Sched ι) : Prop where
  queued : s.history.queued <+: s'.history.queued
  dispatched : s.history.dispatched <+: s'.history.dispatched

namespace Grows
variable {s₁ s₂ : Sched ι} {now : UInt32}

omit [DecidableEq ι] in
theorem refl (s : Sched ι) : Grows s s := ⟨List.prefix_rfl, List.prefix_rfl⟩

omit [DecidableEq ι] in
theorem trans (h : Grows s s₁) (h' : Grows s₁ s₂) : Grows s s₂ :=
  ⟨h.queued.trans h'.queued, h.dispatched.trans h'.dispatched⟩

omit [DecidableEq ι] in
/-- The lists are the same. -/
theorem of_eq (hqueued : s₁.history.queued = s.history.queued)
    (hdispatched : s₁.history.dispatched = s.history.dispatched) : Grows s s₁ := by
  constructor
  · exact hqueued ▸ List.prefix_rfl
  · exact hdispatched ▸ List.prefix_rfl

omit [DecidableEq ι] in
/-- What comes first changes neither list. -/
theorem behind (h : Grows s₁ s₂) (hqueued : s₁.history.queued = s.history.queued)
    (hdispatched : s₁.history.dispatched = s.history.dispatched) : Grows s s₂ :=
  (of_eq hqueued hdispatched).trans h

theorem readyEnqueue (s : Sched ι) (t : ι) : Grows s (s.readyEnqueue t) := by
  refine ⟨?_, List.prefix_rfl⟩
  show _ <+: if s.ready.linked t = true then s.history.queued else s.history.queued ++ [t]
  split
  · exact List.prefix_rfl
  · exact List.prefix_append _ _

theorem makeRunning (s : Sched ι) (t : ι) : Grows s (s.makeRunning t) :=
  ⟨List.prefix_rfl, List.prefix_append _ _⟩

theorem taskActivateIfDue (cfg : Config ι) (s : Sched ι) (t : ι) (now : UInt32) :
    Grows s (s.taskActivateIfDue cfg t now) := by
  unfold Sched.taskActivateIfDue
  dsimp only
  split
  · exact refl s
  split
  · exact refl s
  split
  · exact refl s
  · exact behind (readyEnqueue _ t) rfl rfl

theorem sectionTaskTick (cfg : Config ι) (s : Sched ι) (now : UInt32) :
    Grows s (s.sectionTaskTick cfg now) := by
  unfold Sched.sectionTaskTick
  generalize cfg.tasks = ts
  induction ts generalizing s with
  | nil => exact refl s
  | cons t ts ih => exact (taskActivateIfDue cfg s t now).trans (ih _)

omit [DecidableEq ι] in
theorem taskContextReleaseGapIfHead (cfg : Config ι) (s : Sched ι) :
    Grows s (s.taskContextReleaseGapIfHead cfg) := by
  unfold Sched.taskContextReleaseGapIfHead
  split <;> exact of_eq rfl rfl

theorem taskContextRelease (cfg : Config ι) (s : Sched ι) (t : ι) :
    Grows s (s.taskContextRelease cfg t) := by
  unfold Sched.taskContextRelease
  dsimp only
  split
  · exact refl s
  split
  · exact refl s
  split
  · exact of_eq rfl rfl
  have hgap := taskContextReleaseGapIfHead cfg s
  split
  · exact hgap.trans (of_eq rfl rfl)
  split
  · exact hgap.trans (of_eq rfl rfl)
  have hadvance : Grows s { s.taskContextReleaseGapIfHead cfg with
      pool := (s.taskContextReleaseGapIfHead cfg).pool.advance cfg.context_pool_words
        (s.tasks t).snapshot_capacity_words } := hgap.trans (of_eq rfl rfl)
  have hagain := hadvance.trans (taskContextReleaseGapIfHead cfg _)
  split
  · exact hagain.trans (of_eq rfl rfl)
  · exact hagain.trans (of_eq rfl rfl)

theorem taskContextAlloc (cfg : Config ι) (s : Sched ι) (t : ι) (n : ℕ) :
    Grows s (s.taskContextAlloc cfg t n).1 := by
  unfold Sched.taskContextAlloc
  dsimp only
  repeat' split
  all_goals exact of_eq rfl rfl

theorem taskStackSave (cfg : Config ι) (s : Sched ι) (t : ι) (sp : ℕ) :
    Grows s (s.taskStackSave cfg t sp).1 := by
  unfold Sched.taskStackSave
  split
  · exact of_eq rfl rfl
  have halloc : Grows s (if cfg.stackTop - sp = 0 then (s, false)
      else s.taskContextAlloc cfg t (cfg.stackTop - sp)).1 := by
    split
    · exact refl s
    · exact taskContextAlloc cfg s t _
  dsimp only
  generalize (if cfg.stackTop - sp = 0 then (s, false)
    else s.taskContextAlloc cfg t (cfg.stackTop - sp)) = alloc at halloc
  split
  · exact halloc.trans (of_eq rfl rfl)
  split
  · exact halloc.trans (of_eq rfl rfl)
  · exact halloc

theorem taskStackRestore (cfg : Config ι) (s : Sched ι) (t : ι) :
    Grows s (s.taskStackRestore cfg t).1 := by
  unfold Sched.taskStackRestore
  dsimp only
  split
  · unfold Sched.taskStackPrepareInitial
    dsimp only
    split <;> exact of_eq rfl rfl
  split
  · exact of_eq rfl rfl
  split
  · exact of_eq rfl rfl
  split
  · exact of_eq rfl rfl
  · exact behind (taskContextRelease cfg _ t) rfl rfl

/-- Taking a task from the queue is no dispatch yet. -/
theorem pickRestore (cfg : Config ι) (s : Sched ι) (t : ι) :
    Grows s (Sched.taskStackRestore cfg { s with ready := s.ready.pop.2 } t).1 :=
  behind (taskStackRestore cfg _ t) rfl rfl

theorem switchToNext (cfg : Config ι) (s : Sched ι) (sp : Option ℕ) (now : UInt32) :
    Grows s (s.switchToNext cfg sp now).1 := by
  have htick := sectionTaskTick cfg s now
  unfold Sched.switchToNext Sched.taskStackPickNext
  split
  · next next s₁ hpick =>
    obtain ⟨-, rfl⟩ := Prod.mk.inj hpick
    have hrestore := htick.trans (pickRestore cfg _ next)
    split
    · next hr =>
      rw [hr] at hrestore
      exact hrestore
    · next hr =>
      rw [hr] at hrestore
      exact hrestore.trans (makeRunning _ next)
  · next s₁ hpick =>
    obtain ⟨-, rfl⟩ := Prod.mk.inj hpick
    split
    · split <;> exact htick.trans (of_eq rfl rfl)
    · exact htick.trans (of_eq rfl rfl)

theorem sectionTaskSwitchSp (cfg : Config ι) (s : Sched ι) (sp : Option ℕ) (now : UInt32) :
    Grows s (s.sectionTaskSwitchSp cfg sp now).1 := by
  unfold Sched.sectionTaskSwitchSp
  split
  · exact refl s
  split
  · exact refl s
  have hslice : Grows s (s.taskSliceAdvance cfg now) := of_eq rfl rfl
  dsimp only
  split
  · next p t _ =>
    split
    · have hsave := hslice.trans (taskStackSave cfg (s.taskSliceAdvance cfg now) t p)
      split
      · next hr =>
        rw [hr] at hsave
        exact hsave
      · next hr =>
        rw [hr] at hsave
        exact hsave.trans (behind ((readyEnqueue _ t).trans (switchToNext cfg _ _ now)) rfl rfl)
    · exact hslice.trans (behind (switchToNext cfg _ _ now) rfl rfl)
  · exact hslice.trans (switchToNext cfg _ _ now)

theorem sectionTaskStartSpGet (cfg : Config ι) (s : Sched ι) (now : UInt32) :
    Grows s (s.sectionTaskStartSpGet cfg now).1 := by
  have htick := sectionTaskTick cfg s now
  unfold Sched.sectionTaskStartSpGet Sched.taskStackPickNext
  split
  · exact refl s
  split
  · next s₁ hpick =>
    obtain ⟨-, rfl⟩ := Prod.mk.inj hpick
    exact htick.trans (of_eq rfl rfl)
  · next next s₁ hpick =>
    obtain ⟨-, rfl⟩ := Prod.mk.inj hpick
    have hrestore := htick.trans (pickRestore cfg _ next)
    split
    · next hr =>
      rw [hr] at hrestore
      exact hrestore
    · next hr =>
      rw [hr] at hrestore
      exact (hrestore.trans (makeRunning _ next)).trans (of_eq rfl rfl)

theorem sectionTaskCompleteCurrent (s : Sched ι) : Grows s s.sectionTaskCompleteCurrent := by
  unfold Sched.sectionTaskCompleteCurrent
  split <;> exact of_eq rfl rfl

theorem sectionTaskContinueCurrent (s : Sched ι) : Grows s s.sectionTaskContinueCurrent := by
  unfold Sched.sectionTaskContinueCurrent
  split
  · exact refl s
  · exact behind (readyEnqueue _ _) rfl rfl

theorem sectionTaskStartReadyNewInline (s : Sched ι) :
    Grows s s.sectionTaskStartReadyNewInline := by
  unfold Sched.sectionTaskStartReadyNewInline Sched.taskStackPickNext
  split
  · exact refl s
  split
  · exact refl s
  split
  · next hpick =>
    obtain ⟨-, rfl⟩ := Prod.mk.inj hpick
    exact of_eq rfl rfl
  · next next s₁ hpick =>
    obtain ⟨-, rfl⟩ := Prod.mk.inj hpick
    exact behind (makeRunning _ next) rfl rfl

theorem sectionTaskDone (cfg : Config ι) (s : Sched ι) (now : UInt32) :
    Grows s (s.sectionTaskDone cfg now) := by
  have hcomplete := sectionTaskCompleteCurrent s
  unfold Sched.sectionTaskDone
  split
  · have htick := hcomplete.trans (sectionTaskTick cfg _ now)
    dsimp only
    split
    · exact htick
    · exact htick.trans (sectionTaskStartReadyNewInline _)
  · exact hcomplete

theorem exec (cfg : Config ι) (s : Sched ι) (e : Event ι) : Grows s (s.exec cfg e) := by
  cases e with
  | work stack => exact of_eq rfl rfl
  | activate t now => exact taskActivateIfDue cfg s t now
  | startRequest now =>
    simp only [Sched.exec, Sched.sectionTaskStartRequest]
    split <;> exact of_eq rfl rfl
  | start now => exact sectionTaskStartSpGet cfg s now
  | switch sp now => exact sectionTaskSwitchSp cfg s sp now
  | done now => exact sectionTaskDone cfg s now
  | again => exact sectionTaskContinueCurrent s
  | guardOverwritten => exact of_eq rfl rfl

theorem of_steps (h : (runs cfg).Steps s s') : Grows s s' := by
  refine h.invariant (P := Grows s) (refl s) ?_
  rintro s₁ s₂ h₁ ⟨e, -, rfl⟩
  exact h₁.trans (exec cfg s₁ e)

end Grows

/-! ## Conservation -/

/-- **Conserved**: every task is in one place, and nothing overtakes. The account of the
ready queue says that it is acyclic, ends in its tail and has flagged its members. -/
structure Conserved (s : Sched ι) (xs : List ι) : Prop where
  queue : s.ready.Holds xs
  sleeping : ∀ t, (s.tasks t).state = .sleeping → t ∉ xs ∧ (s.tasks t).p_snapshot = none
  readyNew : ∀ t, (s.tasks t).state = .readyNew → t ∈ xs ∧ (s.tasks t).p_snapshot = none
  readyOld : ∀ t, (s.tasks t).state = .readyOld → t ∈ xs ∧ ∃ offset,
    (s.tasks t).p_snapshot = some offset ∧
      s.context_pool.slice offset (s.tasks t).snapshot_words = s.history.saved t
  running : ∀ t, (s.tasks t).state = .running → t ∉ xs ∧ s.current = some t ∧
    (s.tasks t).p_snapshot = none
  fifo : s.history.queued = s.history.dispatched ++ xs

omit [DecidableEq ι] in
theorem Joint.conserved {owners xs : List ι} (h : s.Joint cfg owners xs) : s.Conserved xs := by
  have hnone {t : ι} (hstate : (s.tasks t).state ≠ .readyOld) : (s.tasks t).p_snapshot = none :=
    Option.eq_none_iff_forall_ne_some.mpr fun offset hoffset =>
      hstate (h.old_iff.mp ⟨offset, hoffset⟩)
  constructor
  · exact h.queued.holds
  · intro t ht
    refine ⟨h.queued.not_mem ?_ ?_, hnone ?_⟩
    all_goals
      rw [ht]
      simp
  · intro t ht
    refine ⟨(h.queued.member t).mpr (Or.inl ht), hnone ?_⟩
    rw [ht]
    simp
  · intro t ht
    obtain ⟨offset, hoffset⟩ := h.old_iff.mpr ht
    have hmem := (h.pooled.mem t).mpr ⟨offset, hoffset⟩
    refine ⟨(h.queued.member t).mpr (Or.inr ht), offset, hoffset, ?_⟩
    have hsaved := h.pooled.saved t hmem
    rw [span, hoffset, ← (h.pooled.words t hmem).1] at hsaved
    exact hsaved
  · intro t ht
    refine ⟨h.queued.not_mem ?_ ?_, h.queued.running t ht, hnone ?_⟩
    all_goals
      rw [ht]
      simp
  · exact h.queued.order

/-- The place of a task in the queue is the number of dispatches before its own. -/
structure Served (s s' : Sched ι) (ahead : List ι) (t : ι) (behind more : List ι) : Prop where
  dispatched : s'.history.dispatched = s.history.dispatched ++ more
  /-- it is served when its turn comes -/
  served : ∀ h : ahead.length < more.length, more[ahead.length] = t
  /-- before that, it waits, and every dispatch has been of one ahead of it -/
  waits : more.length ≤ ahead.length → ∃ later,
    s'.ready.Holds (ahead.drop more.length ++ t :: (behind ++ later))

omit [DecidableEq ι] in
/-- Two accounts of one queue agree. -/
theorem append_cases {ahead behind more waiting later : List ι} {t : ι}
    (h : more ++ waiting = ahead ++ t :: behind ++ later) :
    (∀ h : ahead.length < more.length, more[ahead.length] = t) ∧
      (more.length ≤ ahead.length →
        waiting = ahead.drop more.length ++ t :: (behind ++ later)) := by
  constructor
  · intro hlt
    have hget := congrArg (fun l => l[ahead.length]?) h
    simpa [List.getElem?_append_left hlt, hlt] using hget
  · intro hle
    have hdrop := congrArg (List.drop more.length) h
    rw [List.append_assoc, List.drop_left, List.drop_append_of_le_length hle] at hdrop
    simpa using hdrop

/-- **Tasks are conserved and served in order** in every run, as long as no fault is
active. -/
theorem tasks_conserved (h : (runs cfg).Reachable s) (hfault : s.fault_active = false) :
    ∃ xs, s.Conserved xs ∧ ∀ ahead t behind, xs = ahead ++ t :: behind →
      ∀ s', (runs cfg).Steps s s' → s'.fault_active = false →
        ∃ more, Served s s' ahead t behind more := by
  obtain ⟨owners, xs, hjoint⟩ := (inv_of_reachable h).joint hfault
  refine ⟨xs, hjoint.conserved, ?_⟩
  rintro ahead t behind rfl s' hsteps hfault'
  obtain ⟨owners', ys, hjoint'⟩ := (inv_of_reachable (h.steps hsteps)).joint hfault'
  obtain ⟨⟨later, hlater⟩, ⟨more, hmore⟩⟩ := Grows.of_steps hsteps
  have hqueue : more ++ ys = ahead ++ t :: behind ++ later := by
    have hnow := hjoint.queued.order
    have hthen := hjoint'.queued.order
    rw [← hlater, ← hmore, hnow, List.append_assoc, List.append_assoc _ more ys] at hthen
    exact (List.append_cancel_left hthen).symm
  obtain ⟨hserved, hwaits⟩ := append_cases hqueue
  exact ⟨more, hmore.symm, hserved, fun hle => ⟨later, hwaits hle ▸ hjoint'.queued.holds⟩⟩

/-- Two tasks, one of them switched away. -/
theorem tasks_conserved_preempted :
    preempted.fault_active = false ∧ ∃ xs, preempted.Conserved xs := by
  have hfault : preempted.fault_active = false := by decide
  obtain ⟨xs, hxs, -⟩ := tasks_conserved preempted_reachable hfault
  exact ⟨hfault, xs, hxs⟩

end Sched
end Atoman.Srtos
