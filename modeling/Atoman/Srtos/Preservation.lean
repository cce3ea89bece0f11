import Atoman.Srtos.Snapshots

/-!
# Every step keeps the invariant

A switch suspends the running task behind all that wait and dispatches the one in
front, so the snapshot that it takes from the pool is the oldest one.
-/

namespace Atoman.Srtos
universe u

namespace Sched
variable {ι : Type u} [DecidableEq ι] {cfg : Config ι} {s s' : Sched ι} {owners xs : List ι}
  {t : ι} {now : UInt32}

/-- What holds in every state of every run. -/
structure Inv (cfg : Config ι) (s : Sched ι) : Prop where
  pooled : ∃ owners, s.Pooled cfg owners
  joint : s.fault_active = false → ∃ owners xs, s.Joint cfg owners xs
  stopped : s.fault_active = false → s.started = false → s.current = none

omit [DecidableEq ι] in
theorem Pooled.inv (h : s.Pooled cfg owners) (hfault : s.fault_active = true) : s.Inv cfg where
  pooled := ⟨owners, h⟩
  joint := fun hno => nomatch hfault.symm.trans hno
  stopped := fun hno => nomatch hfault.symm.trans hno

omit [DecidableEq ι] in
theorem Joint.inv (h : s.Joint cfg owners xs) (hstopped : s.started = false → s.current = none) :
    s.Inv cfg where
  pooled := ⟨owners, h.pooled⟩
  joint := fun _ => ⟨owners, xs, h⟩
  stopped := fun _ => hstopped

/-! ## Dispatch -/

namespace Joint

omit [DecidableEq ι] in
/-- A task in front that is new owns no snapshot. -/
theorem filter_new (h : s.Joint cfg owners (t :: xs)) (hnew : (s.tasks t).state = .readyNew) :
    owners = xs.filter s.old := by
  rw [h.agree, List.filter_cons_of_neg]
  simp only [old, hnew, reduceCtorEq, decide_false, Bool.false_eq_true, not_false_eq_true]

omit [DecidableEq ι] in
/-- A suspended task in front owns the oldest snapshot. -/
theorem filter_old (h : s.Joint cfg owners (t :: xs)) (hold : (s.tasks t).state = .readyOld) :
    owners = t :: xs.filter s.old := by
  rw [h.agree, List.filter_cons_of_pos]
  simp only [old, hold, decide_true]

theorem pick_nil (h : s.Joint cfg owners []) : s.taskStackPickNext = (none, s) := by
  rw [taskStackPickNext, h.queued.holds.pop_nil]

theorem pick_cons (h : s.Joint cfg owners (t :: xs)) :
    s.taskStackPickNext = (some t, { s with ready := s.ready.pop.2 }) :=
  Prod.ext h.queued.holds.pop.1 rfl

/-- The task in front becomes the running one, once its context is restored. -/
theorem makeRunning (h : s.Joint cfg owners (t :: xs)) (hidle : ∀ u, (s.tasks u).state ≠ .running)
    (hframe : Frame { s with ready := s.ready.pop.2 } s')
    (hpooled : s'.Pooled cfg (xs.filter s.old)) :
      (s'.makeRunning t).Joint cfg (xs.filter s.old) xs := by
  have hstate (u : ι) : ((s'.makeRunning t).tasks u).state =
      if u = t then .running else (s.tasks u).state := by
    show ((s'.modify t fun task => { task with state := .running }).tasks u).state = _
    by_cases hu : u = t
    · subst hu
      rw [modify_tasks_self, if_pos rfl]
    · rw [modify_tasks_of_ne _ _ hu, if_neg hu, hframe.state]
  refine ⟨hpooled.makeRunning t, ?_, ?_⟩
  · exact h.queued.dispatch hidle hframe.ready hstate rfl hframe.queued
      (congrArg (· ++ [t]) hframe.dispatched)
  · refine (List.filter_congr fun u hu => ?_).symm
    have hne : u ≠ t := fun heq => (List.nodup_cons.mp h.queued.holds.nodup).1 (heq ▸ hu)
    simp only [old, hstate, if_neg hne]

/-- **Restoring** the task in front: it fails only with a fault, when the stack is too
small for any task. -/
theorem restore (h : s.Joint cfg owners (t :: xs)) (hidle : ∀ u, (s.tasks u).state ≠ .running)
    {r : Sched ι × Option ℕ}
    (hr : Sched.taskStackRestore cfg { s with ready := s.ready.pop.2 } t = r) :
    (∃ owners, r.1.Pooled cfg owners) ∧ r.1.fault_active = true ∨
      (∃ sp, r.2 = some sp) ∧ Frame { s with ready := s.ready.pop.2 } r.1 ∧
        ∃ owners, (r.1.makeRunning t).Joint cfg owners xs := by
  subst hr
  have hpooled : Pooled cfg { s with ready := s.ready.pop.2 } owners :=
    h.pooled.of_eq rfl rfl rfl rfl fun _ => rfl
  rcases (h.queued.member t).mp List.mem_cons_self with hnew | hold
  · rw [h.filter_new hnew] at hpooled
    obtain ⟨hrestored, hfault | ⟨hsp, hframe⟩⟩ := hpooled.taskStackRestore_new hnew
    · exact Or.inl ⟨⟨_, hrestored⟩, hfault⟩
    · exact Or.inr ⟨hsp, hframe, _, h.makeRunning hidle hframe hrestored⟩
  · rw [h.filter_old hold] at hpooled
    obtain ⟨s', sp, hrestore, hrestored, hframe, -⟩ := hpooled.taskStackRestore_old hold
    rw [hrestore]
    exact Or.inr ⟨⟨sp, rfl⟩, hframe, _, h.makeRunning hidle hframe hrestored⟩

omit [DecidableEq ι] in
/-- Neither the start nor the slice is of concern. -/
theorem begin (h : s.Joint cfg owners xs) (started : Bool) (now : UInt32) :
    Joint cfg { s with started := started, last_switch_tick := now } owners xs where
  pooled := h.pooled.of_eq rfl rfl rfl rfl fun _ => rfl
  queued := ⟨h.queued.holds, h.queued.member, h.queued.running, h.queued.order⟩
  agree := h.agree

/-! ## The switch -/

omit [DecidableEq ι] in
/-- No task runs after a tick if none did before. -/
theorem idle_of_quiet (hquiet : Quiet s s') (hidle : ∀ u, (s.tasks u).state ≠ .running) :
    ∀ u, (s'.tasks u).state ≠ .running :=
  fun u hrunning => hidle u ((hquiet.running u).mp hrunning)

theorem switchToNext (h : s.Joint cfg owners xs) (hidle : ∀ u, (s.tasks u).state ≠ .running)
    (hstarted : s.started = true) (sp : Option ℕ) (now : UInt32) :
    (s.switchToNext cfg sp now).1.Inv cfg := by
  obtain ⟨⟨ys, hys⟩, hquiet⟩ := h.sectionTaskTick now
  have hidle' := idle_of_quiet hquiet hidle
  have hstarted' : (s.sectionTaskTick cfg now).started = true := hquiet.started.trans hstarted
  have hgoing {s₁ : Sched ι} (heq : s₁.started = true) : s₁.started = false → s₁.current = none :=
    fun hstop => nomatch heq.symm.trans hstop
  unfold Sched.switchToNext
  cases ys with
  | nil =>
    rw [hys.pick_nil]
    dsimp only
    cases cfg.variant with
    | m =>
      dsimp only
      split
      · exact hys.inv (hgoing hstarted')
      · exact hys.inv (hgoing hstarted')
    | riscv =>
      have hnone : Joint cfg { s.sectionTaskTick cfg now with current := none } owners [] := by
        refine ⟨hys.pooled.of_eq rfl rfl rfl rfl fun _ => rfl, ?_, hys.agree⟩
        exact ⟨hys.queued.holds, hys.queued.member, fun u hrunning => absurd hrunning (hidle' u),
          hys.queued.order⟩
      exact hnone.inv (hgoing hstarted')
  | cons t ys =>
    rw [hys.pick_cons]
    dsimp only
    cases hr : Sched.taskStackRestore cfg
        { s.sectionTaskTick cfg now with ready := (s.sectionTaskTick cfg now).ready.pop.2 } t with
    | mk s₂ next_sp =>
      rcases hys.restore hidle' hr with ⟨⟨owners', hpooled⟩, hfault⟩ |
        ⟨⟨p, hp⟩, hframe, owners', hjoint⟩
      · cases next_sp with
        | none => exact hpooled.inv hfault
        | some p => exact (hpooled.makeRunning t).inv hfault
      · obtain rfl : next_sp = some p := hp
        exact hjoint.inv (hgoing (hframe.started.trans hstarted'))

/-- The running task is suspended behind all that wait. -/
theorem suspend (h : s.Joint cfg owners xs) (ht : (s.tasks t).state = .running)
    (hframe : Frame s s') (hpooled : s'.Pooled cfg (owners ++ [t])) :
    ((s'.modify t fun task => { task with state := .readyOld }).readyEnqueue t).Joint cfg
      (owners ++ [t]) (xs ++ [t]) := by
  have hnot : t ∉ xs := h.queued.not_mem (by rw [ht]; exact nofun) (by rw [ht]; exact nofun)
  refine ⟨(hpooled.modify t _ ⟨rfl, rfl, rfl⟩).readyEnqueue t,
    (h.queued.of_frame hframe).enqueue hnot _ (Or.inr rfl), ?_⟩
  set s₁ := (s'.modify t fun task => { task with state := .readyOld }).readyEnqueue t with hs₁
  have hself : s₁.old t = true := by
    simp only [old, hs₁, readyEnqueue_tasks, modify_tasks_self, decide_true]
  have hother : xs.filter s₁.old = xs.filter s.old := by
    refine List.filter_congr fun u hu => ?_
    have hne : u ≠ t := fun heq => hnot (heq ▸ hu)
    simp only [old, hs₁, readyEnqueue_tasks, modify_tasks_of_ne _ _ hne, hframe.state]
  rw [List.filter_append, hother, List.filter_cons_of_pos hself, List.filter_nil, h.agree]

theorem sectionTaskSwitchSp (h : s.Joint cfg owners xs) (hinv : s.Inv cfg) (sp : Option ℕ)
    (now : UInt32) (henabled : sp = none → ∀ t, ¬ s.Runs t) :
    (s.sectionTaskSwitchSp cfg sp now).1.Inv cfg := by
  unfold Sched.sectionTaskSwitchSp
  split
  · exact hinv
  split
  · exact hinv
  next hstop _ =>
  have hstarted : s.started = true := (Bool.not_eq_false _).mp hstop
  have hslice : (s.taskSliceAdvance cfg now).Joint cfg owners xs :=
    h.of_frame ⟨rfl, fun _ => rfl, rfl, rfl, rfl, rfl, rfl⟩
      (h.pooled.of_eq rfl rfl rfl rfl fun _ => rfl)
  cases sp with
  | none =>
    refine hslice.switchToNext (fun u hrunning => ?_) hstarted none now
    exact henabled rfl u ⟨h.queued.running u hrunning, hrunning⟩
  | some p =>
    dsimp only
    cases hcurrent : (s.taskSliceAdvance cfg now).current with
    | none =>
      refine hslice.switchToNext (fun u hrunning => ?_) hstarted (some p) now
      exact nomatch hcurrent.symm.trans (hslice.queued.running u hrunning)
    | some t =>
      dsimp only
      by_cases ht : ((s.taskSliceAdvance cfg now).tasks t).state = .running
      · rw [if_pos ht]
        have hnone : t ∉ owners := by
          rw [hslice.pooled.mem, hslice.old_iff, ht]
          exact nofun
        obtain ⟨reason, horder, hcorrupt, hsave⟩ | hsave | ⟨s', hsave, hpooled, hframe⟩ :=
          hslice.pooled.taskStackSave hnone p
        · rw [hsave]
          exact (hslice.pooled.faultSet horder hcorrupt).inv rfl
        · rw [hsave]
          exact hslice.inv fun hno => nomatch hstarted.symm.trans hno
        · rw [hsave]
          refine (hslice.suspend ht hframe hpooled).switchToNext (fun u hrunning => ?_)
            (hframe.started.trans hstarted) (some p) now
          rw [readyEnqueue_tasks] at hrunning
          by_cases hu : u = t
          · subst hu
            rw [modify_tasks_self] at hrunning
            exact nomatch hrunning
          · rw [modify_tasks_of_ne _ _ hu, hframe.state] at hrunning
            have := hcurrent.symm.trans (hslice.queued.running u hrunning)
            exact hu (Option.some.inj this).symm
      · rw [if_neg ht]
        have hpooled := hslice.pooled.modify t (fun task => { task with p_sp := some p })
          ⟨rfl, rfl, rfl⟩
        have hframe := Frame.modify (s.taskSliceAdvance cfg now) t
          (fun task => { task with p_sp := some p }) rfl
        refine (hslice.of_frame hframe hpooled).switchToNext (fun u hrunning => ?_) hstarted
          (some p) now
        rw [hframe.state] at hrunning
        have := hcurrent.symm.trans (hslice.queued.running u hrunning)
        exact ht (Option.some.inj this ▸ hrunning)

/-- The first dispatch. -/
theorem sectionTaskStartSpGet (h : s.Joint cfg owners xs) (hinv : s.Inv cfg) (now : UInt32)
    (hcurrent : s.current = none) : (s.sectionTaskStartSpGet cfg now).1.Inv cfg := by
  have hidle (u : ι) : (s.tasks u).state ≠ .running :=
    fun hrunning => nomatch hcurrent.symm.trans (h.queued.running u hrunning)
  obtain ⟨⟨ys, hys⟩, hquiet⟩ := h.sectionTaskTick now
  have hidle' := idle_of_quiet hquiet hidle
  unfold Sched.sectionTaskStartSpGet
  split
  · exact hinv
  cases ys with
  | nil =>
    rw [hys.pick_nil]
    exact hys.inv fun _ => hquiet.current.trans hcurrent
  | cons t ys =>
    rw [hys.pick_cons]
    dsimp only
    cases hr : Sched.taskStackRestore cfg
        { s.sectionTaskTick cfg now with ready := (s.sectionTaskTick cfg now).ready.pop.2 } t with
    | mk s₂ next_sp =>
      rcases hys.restore hidle' hr with ⟨⟨owners', hpooled⟩, hfault⟩ |
        ⟨⟨p, hp⟩, hframe, owners', hjoint⟩
      · cases next_sp with
        | none => exact hpooled.inv hfault
        | some p =>
          refine ⟨⟨owners', ?_⟩, fun hno => (nomatch hfault.symm.trans hno), fun _ => nofun⟩
          exact (hpooled.makeRunning t).of_eq rfl rfl rfl rfl fun _ => rfl
      · obtain rfl : next_sp = some p := hp
        have hstart : Joint cfg { s₂.makeRunning t with started := true, last_switch_tick := now }
            owners' ys := hjoint.begin true now
        exact hstart.inv nofun

/-! ## The end of a callback -/

/-- The running task has run to its end. -/
theorem complete (h : s.Joint cfg owners xs) (ht : s.Runs t) :
    s.sectionTaskCompleteCurrent.Joint cfg owners xs ∧
      ∀ u, (s.sectionTaskCompleteCurrent.tasks u).state ≠ .running := by
  have hnot : t ∉ xs := h.queued.not_mem (by rw [ht.2]; simp) (by rw [ht.2]; simp)
  have hpooled := h.pooled.sectionTaskCompleteCurrent
  unfold Sched.sectionTaskCompleteCurrent at hpooled ⊢
  rw [ht.1] at hpooled ⊢
  dsimp only at hpooled ⊢
  refine ⟨⟨hpooled, h.queued.complete ht.2, ?_⟩, fun u hrunning => ?_⟩
  · rw [h.agree]
    refine List.filter_congr fun u hu => ?_
    have hne : u ≠ t := fun heq => hnot (heq ▸ hu)
    simp only [old, modify_tasks_of_ne _ _ hne]
  · by_cases hu : u = t
    · subst hu
      rw [modify_tasks_self] at hrunning
      cases hrunning
    · rw [modify_tasks_of_ne _ _ hu] at hrunning
      have := ht.1.symm.trans (h.queued.running u hrunning)
      exact hu (Option.some.inj this).symm

/-- A new task in front starts at once. -/
theorem sectionTaskStartReadyNewInline (h : s.Joint cfg owners xs)
    (hidle : ∀ u, (s.tasks u).state ≠ .running) :
    (∃ ys, s.sectionTaskStartReadyNewInline.Joint cfg owners ys) ∧
      s.sectionTaskStartReadyNewInline.started = s.started := by
  unfold Sched.sectionTaskStartReadyNewInline
  have hfirst := h.queued.holds.first
  cases xs with
  | nil =>
    rw [hfirst]
    exact ⟨⟨[], h⟩, rfl⟩
  | cons t xs =>
    rw [hfirst]
    dsimp only [List.head?_cons]
    split
    · exact ⟨⟨_, h⟩, rfl⟩
    · next hstate =>
      have howners := h.filter_new (not_not.mp hstate)
      rw [h.pick_cons, howners]
      refine ⟨⟨xs, h.makeRunning hidle ⟨rfl, fun _ => rfl, rfl, rfl, rfl, rfl, rfl⟩ ?_⟩, rfl⟩
      rw [← howners]
      exact h.pooled.of_eq rfl rfl rfl rfl fun _ => rfl

end Joint

/-! ## All steps -/

@[simp] theorem taskActivateIfDue_fault_active (s : Sched ι) (t : ι) (now : UInt32) :
    (s.taskActivateIfDue cfg t now).fault_active = s.fault_active := by
  unfold Sched.taskActivateIfDue
  dsimp only
  repeat' split
  all_goals rfl

@[simp] theorem sectionTaskTick_fault_active (s : Sched ι) (now : UInt32) :
    (s.sectionTaskTick cfg now).fault_active = s.fault_active := by
  unfold Sched.sectionTaskTick
  generalize cfg.tasks = ts
  induction ts generalizing s with
  | nil => rfl
  | cons t ts ih => rw [List.foldl_cons, ih, taskActivateIfDue_fault_active]

@[simp] theorem sectionTaskCompleteCurrent_fault_active (s : Sched ι) :
    s.sectionTaskCompleteCurrent.fault_active = s.fault_active := by
  unfold Sched.sectionTaskCompleteCurrent
  split <;> rfl

@[simp] theorem sectionTaskStartReadyNewInline_fault_active (s : Sched ι) :
    s.sectionTaskStartReadyNewInline.fault_active = s.fault_active := by
  unfold Sched.sectionTaskStartReadyNewInline
  split
  · rfl
  · split
    · rfl
    · unfold Sched.taskStackPickNext
      split
      · next hpick =>
        obtain ⟨-, rfl⟩ := Prod.mk.inj hpick
        rfl
      · next hpick =>
        obtain ⟨-, rfl⟩ := Prod.mk.inj hpick
        rfl

@[simp] theorem sectionTaskContinueCurrent_fault_active (s : Sched ι) :
    s.sectionTaskContinueCurrent.fault_active = s.fault_active := by
  unfold Sched.sectionTaskContinueCurrent
  split <;> rfl

namespace Inv

omit [DecidableEq ι] in
/-- After a fault no step of a task touches the pool. -/
theorem of_fault (h : s.Inv cfg) (hfault : s.fault_active = true)
    (hpooled : ∀ owners, s.Pooled cfg owners → s'.Pooled cfg owners)
    (hkeep : s'.fault_active = s.fault_active) : s'.Inv cfg := by
  obtain ⟨owners, howners⟩ := h.pooled
  exact (hpooled owners howners).inv (hkeep.trans hfault)

theorem taskActivateIfDue (h : s.Inv cfg) (t : ι) (now : UInt32) :
    (s.taskActivateIfDue cfg t now).Inv cfg := by
  cases hfault : s.fault_active with
  | true =>
    exact h.of_fault hfault (fun _ hp => hp.taskActivateIfDue t now)
      (taskActivateIfDue_fault_active s t now)
  | false =>
    obtain ⟨owners, xs, hjoint⟩ := h.joint hfault
    obtain ⟨⟨ys, hys⟩, hquiet⟩ := hjoint.taskActivateIfDue t now
    refine hys.inv fun hstop => ?_
    rw [hquiet.current]
    exact h.stopped hfault (hquiet.started ▸ hstop)

omit [DecidableEq ι] in
/-- A scheduler with a running task has started. -/
theorem started (h : s.Inv cfg) (hfault : s.fault_active = false) (ht : s.Runs t) :
    s.started = true := by
  refine (Bool.not_eq_false _).mp fun hstop => ?_
  exact nomatch ht.1.symm.trans (h.stopped hfault hstop)

theorem sectionTaskDone (h : s.Inv cfg) (now : UInt32) (ht : s.Runs t) :
    (s.sectionTaskDone cfg now).Inv cfg := by
  unfold Sched.sectionTaskDone
  cases hfault : s.fault_active with
  | true =>
    cases cfg.variant with
    | m =>
      dsimp only
      split
      · exact h.of_fault hfault (fun _ hp => hp.sectionTaskCompleteCurrent.sectionTaskTick now)
          (by simp only [sectionTaskTick_fault_active, sectionTaskCompleteCurrent_fault_active])
      · exact h.of_fault hfault
          (fun _ hp =>
            (hp.sectionTaskCompleteCurrent.sectionTaskTick now).sectionTaskStartReadyNewInline)
          (by simp only [sectionTaskStartReadyNewInline_fault_active, sectionTaskTick_fault_active,
            sectionTaskCompleteCurrent_fault_active])
    | riscv =>
      exact h.of_fault hfault (fun _ hp => hp.sectionTaskCompleteCurrent)
        (sectionTaskCompleteCurrent_fault_active s)
  | false =>
    obtain ⟨owners, xs, hjoint⟩ := h.joint hfault
    obtain ⟨hcomplete, hidle⟩ := hjoint.complete ht
    have hgoing : s.sectionTaskCompleteCurrent.started = true := by
      rw [Sched.sectionTaskCompleteCurrent, ht.1]
      exact h.started hfault ht
    obtain ⟨⟨ys, hys⟩, hquiet⟩ := hcomplete.sectionTaskTick now
    have hgoing' := hquiet.started.trans hgoing
    cases cfg.variant with
    | m =>
      dsimp only
      split
      · exact hys.inv fun hstop => nomatch hgoing'.symm.trans hstop
      · obtain ⟨⟨zs, hzs⟩, hstarted⟩ :=
          hys.sectionTaskStartReadyNewInline (Joint.idle_of_quiet hquiet hidle)
        exact hzs.inv fun hstop => nomatch (hstarted.trans hgoing').symm.trans hstop
    | riscv => exact hcomplete.inv fun hstop => nomatch hgoing.symm.trans hstop

theorem sectionTaskContinueCurrent (h : s.Inv cfg) (ht : s.Runs t) :
    s.sectionTaskContinueCurrent.Inv cfg := by
  cases hfault : s.fault_active with
  | true =>
    exact h.of_fault hfault (fun _ hp => hp.sectionTaskContinueCurrent)
      (sectionTaskContinueCurrent_fault_active s)
  | false =>
    obtain ⟨owners, xs, hjoint⟩ := h.joint hfault
    have hnot : t ∉ xs :=
      hjoint.queued.not_mem (by rw [ht.2]; exact nofun) (by rw [ht.2]; exact nofun)
    have hstarted := h.started hfault ht
    unfold Sched.sectionTaskContinueCurrent
    rw [ht.1]
    exact (hjoint.enqueueNew hnot _ ⟨rfl, rfl, rfl⟩ rfl).inv
      fun hstop => nomatch hstarted.symm.trans hstop

/-- A switch or a start after a fault does nothing. -/
theorem exec (h : s.Inv cfg) {e : Event ι} (henabled : s.Enabled cfg e) :
    (s.exec cfg e).Inv cfg := by
  cases e with
  | work stack =>
    obtain ⟨owners, howners⟩ := h.pooled
    have hpooled : Pooled cfg { s with stack := stack } owners :=
      howners.of_eq rfl rfl rfl rfl fun _ => rfl
    refine ⟨⟨owners, hpooled⟩, fun hfault => ?_, h.stopped⟩
    obtain ⟨owners', xs, hjoint⟩ := h.joint hfault
    exact ⟨owners', xs, hjoint.of_frame ⟨rfl, fun _ => rfl, rfl, rfl, rfl, rfl, rfl⟩
      (hjoint.pooled.of_eq rfl rfl rfl rfl fun _ => rfl)⟩
  | activate t now => exact h.taskActivateIfDue t now
  | startRequest now =>
    simp only [Sched.exec, Sched.sectionTaskStartRequest]
    split
    · exact h
    · next hnot =>
      have hfault : s.fault_active = false := by
        refine Bool.eq_false_iff.mpr fun hfault => hnot (Or.inr hfault)
      obtain ⟨owners, xs, hjoint⟩ := h.joint hfault
      have hstart : Joint cfg { s with started := true, last_switch_tick := now } owners xs :=
        hjoint.begin true now
      exact hstart.inv nofun
  | start now =>
    cases hfault : s.fault_active with
    | true =>
      simp only [Sched.exec, Sched.sectionTaskStartSpGet, hfault, if_true]
      exact h
    | false =>
      obtain ⟨owners, xs, hjoint⟩ := h.joint hfault
      exact hjoint.sectionTaskStartSpGet h now (h.stopped hfault henabled)
  | switch sp now =>
    cases hfault : s.fault_active with
    | true =>
      simp only [Sched.exec, Sched.sectionTaskSwitchSp, hfault, if_true, ite_self]
      exact h
    | false =>
      obtain ⟨owners, xs, hjoint⟩ := h.joint hfault
      exact hjoint.sectionTaskSwitchSp h sp now henabled
  | done now =>
    obtain ⟨t, ht⟩ := henabled
    exact h.sectionTaskDone now ht
  | again =>
    obtain ⟨t, ht⟩ := henabled
    exact h.sectionTaskContinueCurrent ht
  | guardOverwritten =>
    obtain ⟨owners, howners⟩ := h.pooled
    have hpooled : (s.faultSet .pspOverflow).Pooled cfg owners := howners.faultSet nofun nofun
    exact hpooled.inv rfl

end Inv

omit [DecidableEq ι] in
/-- Nothing has happened yet. -/
theorem inv_reset (time_last : ι → UInt32) (context_pool stack : Lib.Memory UInt32) :
    (reset time_last context_pool stack).Inv cfg := by
  have hpooled : (reset time_last context_pool stack).Pooled cfg [] := by
    refine ⟨List.nodup_nil, fun t => ?_, Pool.valid_empty cfg.context_pool_pos, ?_, ?_, ?_, ?_⟩
    · refine iff_of_false List.not_mem_nil ?_
      rintro ⟨offset, hoffset⟩
      exact nomatch hoffset
    · exact fun _ h => absurd h List.not_mem_nil
    · exact fun _ h => absurd h List.not_mem_nil
    · exact List.not_mem_nil
    · exact List.not_mem_nil
  have hqueued : (reset time_last context_pool stack).Queued [] := by
    refine ⟨Lib.LinkedQueue.holds_empty, fun t => ?_, (fun t hrunning => nomatch hrunning), rfl⟩
    exact iff_of_false List.not_mem_nil (fun h => h.elim nofun nofun)
  exact Joint.inv ⟨hpooled, hqueued, rfl⟩ fun _ => rfl

theorem inv_of_reachable (h : (runs cfg).Reachable s) : s.Inv cfg := by
  refine h.invariant (P := Inv cfg) ?_ ?_
  · rintro s ⟨time_last, context_pool, stack, rfl⟩
    exact inv_reset time_last context_pool stack
  · rintro s s' hs ⟨e, henabled, rfl⟩
    exact hs.exec henabled

end Sched
end Atoman.Srtos
