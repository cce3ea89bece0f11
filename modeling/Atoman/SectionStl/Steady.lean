import Atoman.SectionStl.Conservation

/-!
# What a switch leaves alone

Neither the tick nor the callbacks of an initialization nor the timing of a task is
changed by a switch or a completion, but for the release of the tasks that are due.
-/

namespace Atoman.SectionStl
namespace State
variable {cfg : Config} {s s' s'' : State} {port : Port} {handle : Handle}

/-- The tick, the callbacks of an initialization and the timing of the tasks are kept. -/
structure Steady (s s' : State) : Prop where
  tick_now : s'.tick_now = s.tick_now
  init_callbacks : s'.init_callbacks = s.init_callbacks
  period : ∀ t, (s'.tasks t).period = (s.tasks t).period
  last : ∀ t, (s'.tasks t).last = (s.tasks t).last

namespace Steady

theorem refl (s : State) : Steady s s := ⟨rfl, rfl, fun _ => rfl, fun _ => rfl⟩

theorem trans (h : Steady s s') (h' : Steady s' s'') : Steady s s'' :=
  ⟨h'.tick_now.trans h.tick_now, h'.init_callbacks.trans h.init_callbacks,
    fun t => (h'.period t).trans (h.period t), fun t => (h'.last t).trans (h.last t)⟩

/-- The tasks are kept as they are. -/
theorem of_tasks (htick : s'.tick_now = s.tick_now) (hinit : s'.init_callbacks = s.init_callbacks)
    (htasks : s'.tasks = s.tasks) : Steady s s' :=
  ⟨htick, hinit, fun t => by rw [htasks], fun t => by rw [htasks]⟩

/-- One task changes in other fields. -/
theorem of_update {t : ℕ} {task : Task} (htick : s'.tick_now = s.tick_now)
    (hinit : s'.init_callbacks = s.init_callbacks)
    (htasks : s'.tasks = Function.update s.tasks t task)
    (hperiod : task.period = (s.tasks t).period) (hlast : task.last = (s.tasks t).last) :
    Steady s s' := by
  refine ⟨htick, hinit, fun u => ?_, fun u => ?_⟩
  · rw [htasks]
    by_cases hu : u = t
    · rw [hu, Function.update_self, hperiod]
    · rw [Function.update_of_ne hu]
  · rw [htasks]
    by_cases hu : u = t
    · rw [hu, Function.update_self, hlast]
    · rw [Function.update_of_ne hu]

end Steady

/-! ## The internal functions -/

theorem steady_readyPush (s : State) (t : ℕ) : Steady s (s.readyPush t) := by
  unfold readyPush
  split <;> exact .of_tasks rfl rfl rfl

theorem steady_readyPushFront (s : State) (t : ℕ) : Steady s (s.readyPushFront t) := by
  unfold readyPushFront
  split <;> exact .of_tasks rfl rfl rfl

theorem steady_readyPop (s : State) : Steady s s.readyPop.2 := by
  unfold readyPop
  split <;> exact .of_tasks rfl rfl rfl

theorem steady_readyRemove (cfg : Config) (s : State) (handle : Handle) (old_too : Bool) :
    Steady s (s.readyRemove cfg handle old_too) := by
  refine ⟨rfl, rfl, fun t => ?_, fun t => ?_⟩
  · unfold readyRemove
    dsimp only
    split <;> rfl
  · unfold readyRemove
    dsimp only
    split <;> rfl

theorem steady_recordsReap (cfg : Config) (s : State) : Steady s (s.recordsReap cfg) :=
  .of_tasks rfl rfl rfl

theorem steady_cancelTasks (cfg : Config) (s : State) (handle : Handle) (ts : List ℕ) :
    Steady s (s.cancelTasks cfg handle ts) := by
  have hremove := steady_readyRemove cfg s handle true
  refine ⟨rfl, rfl, fun t => ?_, fun t => ?_⟩
  · refine Eq.trans ?_ (hremove.period t)
    show (if t ∈ ts then _ else _ : Task).period = _
    split <;> rfl
  · refine Eq.trans ?_ (hremove.last t)
    show (if t ∈ ts then _ else _ : Task).last = _
    split <;> rfl

theorem steady_groupCancel (cfg : Config) (s : State) (g : ℕ) : Steady s (s.groupCancel cfg g) := by
  rw [groupCancel_eq]
  have hcancel := steady_cancelTasks cfg s (s.groups g).handle (s.groups g).tasks
  split
  · exact hcancel
  · exact hcancel.trans (.of_tasks rfl rfl rfl)

theorem steady_hostCommit (port : Port) (s : State) (owner : Handle) :
    Steady s (s.hostCommit port owner).1 := by
  unfold hostCommit
  split <;> exact .of_tasks rfl rfl rfl

theorem steady_returnNative (port : Port) (s : State) : Steady s (s.returnNative port).1 := by
  rw [returnNative_eq]
  split <;> exact .of_tasks rfl rfl rfl

theorem steady_frameWords (cfg : Config) (s : State) (p_sp : Option ℕ) :
    Steady s (s.frameWords cfg p_sp).1 := by
  unfold frameWords
  split
  · exact .of_tasks rfl rfl rfl
  · split
    · exact .of_tasks rfl rfl rfl
    · split <;> exact .of_tasks rfl rfl rfl

theorem steady_snapshotSave (cfg : Config) (s : State) (t sp words : ℕ) :
    Steady s (s.snapshotSave cfg t sp words).1 := by
  have hreap := steady_recordsReap cfg s
  unfold snapshotSave
  dsimp only
  split
  · exact hreap
  · split
    · exact hreap.trans (.of_tasks rfl rfl rfl)
    · exact hreap.trans (.of_update rfl rfl rfl rfl rfl)

theorem steady_snapshotRestore (cfg : Config) (s : State) (t : ℕ) :
    Steady s (s.snapshotRestore cfg t).1 := by
  unfold snapshotRestore
  split
  · exact .of_tasks rfl rfl rfl
  · dsimp only
    split
    · exact .of_tasks rfl rfl rfl
    · split
      · exact .of_tasks rfl rfl rfl
      · split
        · exact .of_tasks rfl rfl rfl
        · exact .of_update rfl rfl rfl rfl rfl

theorem steady_portPrepare (cfg : Config) (s : State) : Steady s (s.portPrepare cfg).1 := by
  unfold portPrepare
  split <;> exact .of_tasks rfl rfl rfl

/-! ## Releases -/

theorem activated_task (s : State) (t : ℕ) : Activated s (s.activateTask t) := by
  unfold activateTask
  dsimp only
  split
  · next hdue =>
    refine ⟨?_, fun u hu => ?_, fun u => ?_⟩
    · unfold readyPush
      split <;> rfl
    · have hut : u ≠ t := fun heq => hu (heq ▸ hdue.1)
      rw [readyPush_tasks, modify_tasks_of_ne _ _ hut]
    · rw [readyPush_tasks]
      by_cases hut : u = t
      · rw [hut, modify_tasks_self]
        exact Or.inr rfl
      · rw [modify_tasks_of_ne _ _ hut]
        exact Or.inl rfl
  · exact .refl s

theorem activated_tasks (ts : List ℕ) (s : State) : Activated s (ts.foldl activateTask s) := by
  induction ts generalizing s with
  | nil => exact .refl s
  | cons t ts ih => exact (activated_task s t).trans (ih _)

/-- **Releases** change tasks that sleep, and the queue. -/
theorem activated_due (s : State) : Activated s s.activateDue := by
  unfold activateDue
  generalize s.group_list = gs
  induction gs generalizing s with
  | nil => exact .refl s
  | cons g gs ih =>
    rw [List.foldl_cons]
    split
    · exact ih s
    · exact (activated_tasks (s.groups g).tasks s).trans (ih _)

/-! ## Switches -/

namespace Steady

/-- The task leaves the processor. -/
theorem idle (h : Steady s s') : Steady s { s' with current := none } :=
  h.trans (.of_tasks rfl rfl rfl)

theorem corrupt (h : Steady s s') : Steady s s'.corrupt := h.trans (.of_tasks rfl rfl rfl)

theorem native (h : Steady s s') (port : Port) : Steady s (s'.returnNative port).1 :=
  h.trans (steady_returnNative port s')

end Steady

/-- The task that was saved is put back. -/
theorem steady_requeue (cfg : Config) (s : State) (t : ℕ) (elapsed : UInt32) :
    Steady s (s.requeue cfg t elapsed) := by
  have hold : Steady s (s.modify t fun task => { task with state := .old }) :=
    .of_update rfl rfl rfl rfl rfl
  unfold requeue
  dsimp only
  generalize (if elapsed ≠ 0 then elapsed else 1) = charged
  generalize s.modify t (fun task => { task with state := .old }) = u at hold ⊢
  split
  · have hcharge : Steady u
        (u.modify t fun task => { task with quantum_left := task.quantum_left - charged }) :=
      .of_update rfl rfl rfl rfl rfl
    exact (hold.trans (hcharge.trans (steady_readyPushFront _ t))).idle
  · have hrefill :
        Steady u (u.modify t fun task => { task with quantum_left := cfg.slice_ticks }) :=
      .of_update rfl rfl rfl rfl rfl
    exact (hold.trans (hrefill.trans (steady_readyPush _ t))).idle

/-- The state of either answer of `switchOut`. -/
def outState : Except (State × Option ℕ) State → State
  | .ok s => s
  | .error result => result.1

theorem steady_switchOut (cfg : Config) (port : Port) (s : State) (p_saved_sp : Option ℕ) :
    Steady s (outState (s.switchOut cfg port p_saved_sp)) := by
  unfold switchOut
  dsimp only
  split
  · exact .refl s
  · next t _ =>
    have hsleep : Steady s (s.modify t fun task => { task with state := .sleeping }) :=
      .of_update rfl rfl rfl rfl rfl
    split
    · exact hsleep.idle
    · next g _ =>
      split
      · have hidle := hsleep.idle
        generalize { s.modify t (fun task => { task with state := .sleeping }) with
          current := none } = u at hidle ⊢
        exact hidle.trans (steady_groupCancel cfg u g)
      · split
        · have hframe := steady_frameWords cfg s p_saved_sp
          split
          · next heq =>
            rw [heq] at hframe
            exact hframe.idle.native port
          · next heq =>
            rw [heq] at hframe
            exact hframe.idle.native port
          · next u words sp _ heq =>
            rw [heq] at hframe
            have hsave := steady_snapshotSave cfg u t sp words
            split
            · next hsaved =>
              rw [hsaved] at hsave
              split
              · exact (hframe.trans hsave).idle.native port
              · exact hframe.trans hsave
            · next v hsaved =>
              rw [hsaved] at hsave
              exact (hframe.trans hsave).trans (steady_requeue cfg v t (s.tick_now - s.slice_start))
        · exact (Steady.refl s).idle

theorem steady_enterTask (cfg : Config) (port : Port) (s : State) (t : ℕ) (p_next_sp : Option ℕ) :
    Steady s (s.enterTask cfg port t p_next_sp).1 := by
  unfold enterTask
  split
  · exact (Steady.refl s).corrupt.native port
  · have hframe := steady_frameWords cfg s p_next_sp
    split
    · next heq =>
      rw [heq] at hframe
      exact hframe.corrupt.native port
    · next u _ _ heq =>
      rw [heq] at hframe
      have hhost := steady_hostCommit port u (u.tasks t).owner
      split
      · next v hcommit =>
        rw [hcommit] at hhost
        exact (hframe.trans hhost).idle.native port
      · next v hcommit =>
        rw [hcommit] at hhost
        have hstart : Steady v (modify { v with slice_start := v.tick_now, current := some t } t
            fun task => { task with state := .running }) := .of_update rfl rfl rfl rfl rfl
        exact (hframe.trans hhost).trans hstart

theorem steady_switchTo (cfg : Config) (port : Port) (s : State) (t : ℕ) :
    Steady s (s.switchTo cfg port t).1 := by
  by_cases hold : (s.tasks t).state = .old
  · rw [switchTo_old hold]
    exact (steady_snapshotRestore cfg s t).trans (steady_enterTask cfg port _ t _)
  · have hrefill :
        Steady s (s.modify t fun task => { task with quantum_left := cfg.slice_ticks }) :=
      .of_update rfl rfl rfl rfl rfl
    unfold switchTo
    rw [if_neg hold]
    generalize s.modify t (fun task => { task with quantum_left := cfg.slice_ticks }) =
      u at hrefill ⊢
    exact hrefill.trans ((steady_portPrepare cfg u).trans
      (steady_enterTask cfg port (u.portPrepare cfg).1 t (u.portPrepare cfg).2))

theorem steady_switchLoop (cfg : Config) (port : Port) (n : ℕ) (s : State) :
    Steady s (s.switchLoop cfg port n).1 := by
  induction n generalizing s with
  | zero => exact steady_returnNative port s
  | succ n ih =>
    have hpop := steady_readyPop s
    unfold switchLoop
    split
    · next heq =>
      rw [heq] at hpop
      exact hpop.native port
    · next t u heq =>
      rw [heq] at hpop
      split
      · exact hpop.trans (ih u)
      · next g _ =>
        split
        · split
          · have hcancel := hpop.trans (steady_groupCancel cfg u g)
            dsimp only
            split
            · exact hcancel.native port
            · exact hcancel.trans (ih _)
          · exact hpop.trans (ih u)
        · exact hpop.trans (steady_switchTo cfg port u t)

/-- The switch releases the tasks that are due. -/
def Scans (s : State) : Prop := s.initialized = true ∧ s.fault = .ok ∧ s.native_pending = false

instance (s : State) : Decidable s.Scans := inferInstanceAs (Decidable (_ ∧ _))

theorem steady_switchIn (cfg : Config) (port : Port) (s : State) :
    Steady (if s.Scans then s.activateDue else s) (s.switchIn cfg port).1 := by
  unfold switchIn
  by_cases hready : s.initialized = false ∨ s.fault ≠ .ok
  · have hnot : ¬ s.Scans := fun h => by simp [h.1, h.2.1] at hready
    rw [if_neg hnot, if_pos hready]
    exact steady_returnNative port s
  · rw [if_neg hready]
    rw [not_or, not_not, Bool.not_eq_false] at hready
    by_cases hnative : s.native_pending = true
    · have hnot : ¬ s.Scans := fun h => by simp [h.2.2] at hnative
      rw [if_neg hnot, if_pos hnative]
      exact steady_returnNative port s
    · have hscans : s.Scans := ⟨hready.1, hready.2, Bool.eq_false_iff.mpr hnative⟩
      have hreap := steady_recordsReap cfg s.activateDue
      rw [if_pos hscans, if_neg hnative]
      dsimp only
      split
      · exact hreap.native port
      · exact hreap.trans (steady_switchLoop cfg port _ _)

/-! ## Completions -/

theorem steady_inlineNext (cfg : Config) (port : Port) (s : State) (t : ℕ) (p_group : Option ℕ) :
    Steady s (s.inlineNext cfg port t p_group) := by
  unfold inlineNext
  split
  · exact .refl s
  · next f _ =>
    have hhost := steady_hostCommit port s (s.tasks f).owner
    split
    · next hcommit =>
      rw [hcommit] at hhost
      exact hhost
    · next u hcommit =>
      rw [hcommit] at hhost
      have hpop := steady_readyPop u
      have hstart : Steady u.readyPop.2 (modify
          { u.readyPop.2 with current := some f, slice_start := u.readyPop.2.tick_now } f
            fun task => { task with quantum_left := cfg.slice_ticks, state := .running }) :=
        .of_update rfl rfl rfl rfl rfl
      have hrun := (hhost.trans hpop).trans hstart
      dsimp only
      generalize modify
        { u.readyPop.2 with current := some f, slice_start := u.readyPop.2.tick_now } f
          (fun task => { task with quantum_left := cfg.slice_ticks, state := .running }) =
            v at hrun ⊢
      split
      · exact hrun
      · split
        · exact hrun.trans (steady_groupCancel cfg v _)
        · exact hrun

theorem steady_completed (s : State) (t : ℕ) (outcome_running : Bool) :
    Steady s (s.completed t outcome_running) := by
  have hsleep : Steady s (s.modify t fun task => { task with state := .sleeping }) :=
    .of_update rfl rfl rfl rfl rfl
  unfold completed
  dsimp only
  generalize s.modify t (fun task => { task with state := .sleeping }) = u at hsleep ⊢
  split
  · exact hsleep
  · split
    · have hnew : Steady u (u.modify t fun task => { task with state := .new }) :=
        .of_update rfl rfl rfl rfl rfl
      exact (hsleep.trans hnew).trans (steady_readyPush _ t)
    · exact hsleep

/-! ## Calls on a group -/

/-- A call on a resident group, for what the body has for every one of them. -/
theorem onGroup_elim {P : State → Prop} {body : ℕ → State × Status} (hrefused : P s)
    (hbody : ∀ g, s.groupFind handle = some g → P (body g).1) :
    P (s.onGroup port handle body).1 := by
  unfold onGroup
  split
  · exact hrefused
  · split
    · exact hrefused
    · next g hfind => exact hbody g hfind

theorem clearTasks_eq (s : State) (ts : List ℕ) : s.clearTasks ts =
    { s with ready := (s.clearTasks ts).ready, tasks := (s.clearTasks ts).tasks } := by
  induction ts generalizing s with
  | nil => rfl
  | cons t ts ih => exact ih ({ s with ready := s.ready.clear t }.modify t fun _ => .zero)

/-! ## Scans -/

/-- The state in which `section_stl_tick` releases the tasks that are due, if it does. -/
def tickScan (port : Port) (s : State) (now : UInt32) : Option State :=
  if port.api_allowed = true ∧ s.initialized = true ∧ s.fault = .ok ∧ now - s.tick_now < stlHalf ∧
      s.current = none then some { s with tick_now := now }
  else none

/-- The same of `section_stl_switch`. -/
def switchScan (cfg : Config) (port : Port) (s : State) (p_saved_sp : Option ℕ) : Option State :=
  if s.fault ≠ .ok ∨ port.host_switch_allowed = false then none
  else
    match s.switchOut cfg port p_saved_sp with
    | .ok s => if s.Scans then some s else none
    | .error _ => none

/-- The same of the end of a callback. -/
def completeScan (s : State) (outcome_running : Bool) : Option State :=
  s.runningTask.map fun t => s.completed t outcome_running

/-- The state in which an action releases the tasks that are due, if it does. -/
def scanned (cfg : Config) (s : State) : Action → Option State
  | .tick port now => s.tickScan port now
  | .switch port p_saved_sp => s.switchScan cfg port p_saved_sp
  | .complete _ outcome_running => s.completeScan outcome_running
  | _ => none

/-- A switch changes no timing but by its scan. -/
theorem steady_switch (cfg : Config) (port : Port) (s : State) (p_saved_sp : Option ℕ) :
    match s.switchScan cfg port p_saved_sp with
    | none => Steady s (s.sectionStlSwitch cfg port p_saved_sp).1
    | some u => Steady s u ∧ Steady u.activateDue (s.sectionStlSwitch cfg port p_saved_sp).1 := by
  unfold switchScan sectionStlSwitch
  by_cases hfault : s.fault ≠ .ok
  · rw [if_pos (Or.inl hfault), if_pos hfault]
    exact (Steady.refl s).idle.native port
  · by_cases hhost : port.host_switch_allowed = false
    · rw [if_pos (Or.inr hhost), if_neg hfault, if_pos hhost]
      exact .refl s
    · rw [if_neg (not_or.mpr ⟨hfault, hhost⟩), if_neg hfault, if_neg hhost]
      have hout := steady_switchOut cfg port s p_saved_sp
      cases hresult : s.switchOut cfg port p_saved_sp with
      | error result =>
        rw [hresult] at hout
        exact hout
      | ok u =>
        rw [hresult] at hout
        have hin := steady_switchIn cfg port u
        by_cases hscans : u.Scans
        · rw [if_pos hscans] at hin
          simp only [if_pos hscans]
          exact ⟨hout, hin⟩
        · rw [if_neg hscans] at hin
          simp only [if_neg hscans]
          exact hout.trans hin

/-- A completion changes no timing but by its scan. -/
theorem steady_complete (cfg : Config) (port : Port) (s : State) (outcome_running : Bool) :
    match s.completeScan outcome_running with
    | none => s.entryComplete cfg port outcome_running = s
    | some u => Steady s u ∧ Steady u.activateDue (s.entryComplete cfg port outcome_running) := by
  unfold completeScan
  cases htask : s.runningTask with
  | none =>
    unfold entryComplete
    rw [htask]
    rfl
  | some t =>
    rw [entryComplete_eq htask]
    exact ⟨steady_completed s t outcome_running, steady_inlineNext cfg port _ t _⟩

/-- A tick releases tasks only while no task runs. -/
theorem tick_cases (port : Port) (s : State) (now : UInt32) :
    match s.tickScan port now with
    | none => (s.sectionStlTick port now).1 = s ∨ now - s.tick_now < stlHalf ∧
        (s.sectionStlTick port now).1 = { s with tick_now := now }
    | some u => now - s.tick_now < stlHalf ∧ u = { s with tick_now := now } ∧
        (s.sectionStlTick port now).1 = u.activateDue := by
  unfold tickScan sectionStlTick
  by_cases hallowed : port.api_allowed = false
  · rw [if_pos hallowed, if_neg (by simp [hallowed])]
    exact Or.inl rfl
  · rw [if_neg hallowed]
    rw [Bool.not_eq_false] at hallowed
    by_cases hready : s.initialized = true ∧ s.fault = .ok
    · rw [if_pos hready]
      by_cases hdelta : now - s.tick_now < stlHalf
      · rw [if_pos hdelta]
        by_cases hidle : s.current = none
        · rw [if_pos ⟨hallowed, hready.1, hready.2, hdelta, hidle⟩]
          exact ⟨hdelta, rfl, if_pos hidle⟩
        · rw [if_neg fun h => hidle h.2.2.2.2]
          exact Or.inr ⟨hdelta, if_neg hidle⟩
      · rw [if_neg hdelta, if_neg fun h => hdelta h.2.2.2.1]
        exact Or.inl rfl
    · rw [if_neg hready, if_neg fun h => hready ⟨h.2.1, h.2.2.1⟩]
      exact Or.inl rfl

end State
end Atoman.SectionStl
