import Atoman.Lib.BudgetQueue
import Atoman.SectionStl.Dispatch
import Atoman.SectionStl.Registration

/-!
# The order of the ready queue

Every action is a move of a queue whose budgets are what the tasks have left of their slices.
Only a switch and a completion serve a task, and only a switch puts one at the front.
-/

namespace Atoman.SectionStl
open Lib (BudgetQueue)
open Lib.BudgetQueue (Event Move)

namespace State
variable {cfg : Config} {s s' u : State} {xs ys zs new : List ℕ} {g t v : ℕ} {port : Port}
  {handle : Handle}

/-- The ticks that a task may still run: a new activation gets a slice. -/
def allowance (cfg : Config) (s : State) (t : ℕ) : ℕ :=
  if (s.tasks t).state = .new then cfg.slice_ticks.toNat else (s.tasks t).quantum_left.toNat

/-- The queue with what the tasks have left. -/
def view (cfg : Config) (s : State) (xs : List ℕ) : BudgetQueue ℕ :=
  ⟨xs, s.allowance cfg, s.runningTask⟩

theorem allowance_of_charge (h : (s'.tasks t).charge = (s.tasks t).charge) :
    s'.allowance cfg t = s.allowance cfg t := by
  unfold allowance
  rw [state_of_charge h, quantum_of_charge h]

theorem Held.allowance (h : s.Held t) : s.allowance cfg t = (s.tasks t).quantum_left.toNat := by
  refine if_neg fun hnew => ?_
  rcases h with hstate | hstate <;> exact nomatch hstate.symm.trans hnew

theorem held_of_runningTask (h : s.runningTask = some t) : s.Held t :=
  Or.inr (runningTask_eq_some.mp h).2

/-! ## What an action does to the queue -/

/-- The state between the two halves of a switch. -/
def between (cfg : Config) (port : Port) (s : State) (p_saved_sp : Option ℕ) : Option State :=
  if s.fault = .ok ∧ port.host_switch_allowed = true then
    match s.switchOut cfg port p_saved_sp with
    | .ok s => some s
    | .error _ => none
  else none

/-- A dispatch: the task that `section_stl_switch` selects or that `section_stl_entry` starts in
place. -/
def dispatched (cfg : Config) (s : State) : Action → Option ℕ
  | .switch port p_saved_sp =>
    (s.between cfg port p_saved_sp).bind fun u => (u.switchIn cfg port).1.runningTask
  | .complete port outcome_running => (s.entryComplete cfg port outcome_running).runningTask
  | _ => none

/-- The task that a switch preempts and puts back into the queue, at its front or at its
end. -/
def preempted (cfg : Config) (s : State) : Action → Option ℕ
  | .switch port p_saved_sp => (s.between cfg port p_saved_sp).bind fun u =>
      s.runningTask.filter fun t => (u.tasks t).state = .old
  | _ => none

/-- The continuation that a switch puts at the front. -/
def fronted (cfg : Config) (s : State) (action : Action) : Option ℕ :=
  (s.preempted cfg action).filter fun t => s.KeepsTurn t

/-- The continuation that is over: it is rotated to the tail, or its callback is complete. -/
def ended (cfg : Config) (s : State) : Action → Option ℕ
  | .complete _ _ => s.runningTask
  | action => (s.preempted cfg action).filter fun t => ¬ s.KeepsTurn t

/-- The move of the queue. -/
def event (cfg : Config) (s : State) (action : Action) : Event ℕ :=
  match s.dispatched cfg action, s.fronted cfg action with
  | some t, _ => .serve t
  | none, some t => .front t
  | none, none => .wait

end State

/-- The group is disabled, paused or revoked. -/
def Action.Withdraws (cfg : Config) (s : State) (handle : Handle) : Action → Prop
  | .disable port h => (s.sectionStlGroupDisable cfg port h).2 = .ok ∧ h = handle
  | .pause port h => (s.sectionStlGroupPause cfg port h).2 = .ok ∧ h = handle
  | .revoke port h => port.api_allowed = true ∧ h = handle
  | _ => False

instance (cfg : Config) (s : State) (handle : Handle) (action : Action) :
    Decidable (action.Withdraws cfg s handle) :=
  match action with
  | .disable _ _ => inferInstanceAs (Decidable (_ ∧ _))
  | .pause _ _ => inferInstanceAs (Decidable (_ ∧ _))
  | .revoke _ _ => inferInstanceAs (Decidable (_ ∧ _))
  | .init .. | .register .. | .initializeBegin .. | .initializeNext | .enable .. | .acquire ..
  | .release .. | .quiescent .. | .forget .. | .tick .. | .requestNative .. | .switch .. | .callback
  | .complete .. | .write .. => inferInstanceAs (Decidable False)

namespace State
variable {cfg : Config} {s s' u : State} {xs ys zs new : List ℕ} {g t v : ℕ} {port : Port}
  {handle : Handle}

/-- What is left of the slice of a task that runs or is suspended: no more than before, and
less when the task is put at the front; or a whole slice, when no continuation goes on. -/
def Charges (cfg : Config) (s : State) (action : Action) (t : ℕ) (quantum_left : UInt32) : Prop :=
  s.Held t ∧ quantum_left.toNat ≤ (s.tasks t).quantum_left.toNat ∧
    (0 < (s.tasks t).quantum_left.toNat → 0 < quantum_left.toNat) ∧
    (s.fronted cfg action = some t → quantum_left.toNat < (s.tasks t).quantum_left.toNat) ∨
  quantum_left = cfg.slice_ticks ∧ (s.Held t → s.ended cfg action = some t)

theorem Charges.of_charge {action : Action} (hv : u.Held v)
    (hcharge : (u.tasks v).charge = (s.tasks v).charge) (hfronted : s.fronted cfg action ≠ some v) :
    s.Charges cfg action v (u.tasks v).quantum_left := by
  rw [quantum_of_charge hcharge]
  exact Or.inl ⟨(held_of_charge hcharge).mp hv, Nat.le_refl _, id, fun h => absurd h hfronted⟩

/-- The move, and what the slices and the places of the tasks become. -/
structure Moves (cfg : Config) (s : State) (action : Action) (xs ys : List ℕ) : Prop where
  before : s.fault = .ok
  holds : (s.exec cfg action).ready.Holds ys
  move : Move (s.view cfg xs) ((s.exec cfg action).view cfg ys) (s.event cfg action)
  charged : ∀ v, (s.exec cfg action).Held v →
    s.Charges cfg action v ((s.exec cfg action).tasks v).quantum_left
  stays : ∀ v ∈ xs, v ∈ ys ∨ s.dispatched cfg action = some v ∨
    action.Withdraws cfg s (s.tasks v).owner

/-- The processor is given to nobody. -/
structure Settles (s s' : State) (xs : List ℕ) (keep : ℕ → Bool) (new : List ℕ) : Prop where
  holds : s'.ready.Holds (xs.filter keep ++ new)
  fresh : ∀ v ∈ new, v ∉ xs
  kept : ∀ v ∈ xs, keep v = true → (s'.tasks v).charge = (s.tasks v).charge
  held : ∀ v, s'.Held v → (s'.tasks v).charge = (s.tasks v).charge
  current : s'.current = s.current
  fault : s'.fault = .ok → s.fault = .ok

theorem Settles.runner {keep : ℕ → Bool} (h : Settles s s' xs keep new)
    (ht : s'.runningTask = some t) :
    s.runningTask = some t ∧ (s'.tasks t).charge = (s.tasks t).charge := by
  have hcharge := h.held t (held_of_runningTask ht)
  obtain ⟨hcurrent, hrunning⟩ := runningTask_eq_some.mp ht
  refine ⟨runningTask_eq_some.mpr ⟨h.current ▸ hcurrent, ?_⟩, hcharge⟩
  rw [← state_of_charge hcharge]
  exact hrunning

/-- Behind an action that gives the processor to nobody. -/
theorem Settles.moves {keep : ℕ → Bool} {action : Action}
    (h : Settles s (s.exec cfg action) xs keep new)
    (hok : (s.exec cfg action).fault = .ok) (hdispatched : s.dispatched cfg action = none)
    (hpreempted : s.preempted cfg action = none)
    (hstays : ∀ v ∈ xs, keep v = false → action.Withdraws cfg s (s.tasks v).owner) :
    ∃ ys, Moves cfg s action xs ys := by
  have hfronted : s.fronted cfg action = none := by
    unfold fronted
    rw [hpreempted]
    rfl
  have hevent : s.event cfg action = .wait := by
    unfold event
    rw [hdispatched, hfronted]
  refine ⟨xs.filter keep ++ new, h.fault hok, h.holds, ?_, fun v hv => ?_, fun v hv => ?_⟩
  · rw [hevent]
    refine .wait keep new rfl h.fresh (fun v hv hkeep => ?_) fun v hv => ?_
    · exact allowance_of_charge (h.kept v hv hkeep)
    · obtain ⟨hrunner, hcharge⟩ := h.runner hv
      exact ⟨hrunner, allowance_of_charge hcharge⟩
  · exact .of_charge hv (h.held v hv) (by rw [hfronted]; exact nofun)
  · cases hkeep : keep v with
    | true => exact Or.inl (List.mem_append_left _ (List.mem_filter.mpr ⟨hv, hkeep⟩))
    | false => exact Or.inr (Or.inr (hstays v hv hkeep))

/-! ## The calls that leave the queue alone -/

/-- The queue, the processor and the slices stay. -/
structure Calm (s s' : State) : Prop where
  ready : s'.ready = s.ready
  current : s'.current = s.current
  charge : ∀ v, (s'.tasks v).charge = (s.tasks v).charge
  fault : s'.fault = s.fault

theorem Calm.refl (s : State) : Calm s s := ⟨rfl, rfl, fun _ => rfl, rfl⟩

theorem Calm.settles (h : Calm s s') (hj : s.Joint cfg xs none) :
    Settles s s' xs (fun _ => true) [] := by
  refine ⟨?_, fun v hv => absurd hv List.not_mem_nil, fun v _ _ => h.charge v,
    fun v _ => h.charge v, h.current, fun hok => h.fault ▸ hok⟩
  rw [List.filter_true, List.append_nil, h.ready]
  exact hj.queued.holds

theorem calm_init (port : Port) (s : State) (now : UInt32) :
    Calm s (s.sectionStlInit port now).1 := by
  unfold sectionStlInit
  split
  · exact .refl s
  split
  · exact .refl s
  split
  · exact .refl s
  · exact ⟨rfl, rfl, fun _ => rfl, rfl⟩

theorem calm_initializeBegin (port : Port) (s : State) (image : Image) (handle : Handle)
    (p_entries : Option (ℕ → RegSection)) (count : ℕ) :
    Calm s (s.sectionStlGroupInitialize cfg port image handle p_entries count).1 := by
  unfold sectionStlGroupInitialize
  split
  · exact .refl s
  split
  · exact .refl s
  split
  · exact .refl s
  dsimp only
  split
  · split
    · exact ⟨rfl, rfl, fun _ => rfl, rfl⟩
    · exact ⟨rfl, rfl, fun _ => rfl, rfl⟩
  · exact .refl s

theorem calm_initializeNext (s : State) : Calm s s.initializeNext.1 := by
  unfold initializeNext
  split
  · exact .refl s
  · split
    · exact ⟨rfl, rfl, fun _ => rfl, rfl⟩
    split
    · exact ⟨rfl, rfl, fun _ => rfl, rfl⟩
    · unfold initializeEnd
      dsimp only
      split
      · exact ⟨rfl, rfl, fun _ => rfl, rfl⟩
      · exact ⟨rfl, rfl, fun _ => rfl, rfl⟩

theorem calm_enable (port : Port) (s : State) (handle : Handle) :
    Calm s (s.sectionStlGroupEnable port handle).1 := by
  unfold sectionStlGroupEnable
  refine onGroup_elim (.refl s) fun g _ => ?_
  split
  · dsimp only
    split
    · refine ⟨rfl, rfl, fun v => ?_, rfl⟩
      show (if v ∈ (s.groups g).tasks then { s.tasks v with last := s.tick_now }
          else s.tasks v).charge = _
      split <;> rfl
    · exact ⟨rfl, rfl, fun _ => rfl, rfl⟩
  · exact .refl s

theorem calm_acquire (port : Port) (s : State) (handle : Handle) :
    Calm s (s.sectionStlGroupAcquire port handle).1 := by
  unfold sectionStlGroupAcquire
  refine onGroup_elim (.refl s) fun g _ => ?_
  split
  · exact ⟨rfl, rfl, fun _ => rfl, rfl⟩
  · exact .refl s

theorem calm_release (port : Port) (s : State) (handle : Handle) :
    Calm s (s.sectionStlGroupRelease port handle).1 := by
  unfold sectionStlGroupRelease
  refine onGroup_elim (.refl s) fun g _ => ?_
  split
  · exact ⟨rfl, rfl, fun _ => rfl, rfl⟩
  · exact .refl s

theorem Joint.calm_quiescent (h : s.Joint cfg xs none) (port : Port) (handle : Handle) :
    Calm s (s.sectionStlGroupQuiescent cfg port handle).1 := by
  have hreap : Calm s (s.recordsReap cfg) := by
    rw [recordsReap_eq h.ring]
    exact ⟨rfl, rfl, fun _ => rfl, rfl⟩
  unfold sectionStlGroupQuiescent
  split
  · exact .refl s
  split
  · exact .refl s
  dsimp only
  split
  · exact hreap
  · split
    · exact ⟨hreap.ready, hreap.current, hreap.charge, hreap.fault⟩
    · exact hreap

theorem calm_requestNative (port : Port) (s : State) :
    Calm s (s.sectionStlRequestNative port).1 := by
  unfold sectionStlRequestNative
  split
  · exact .refl s
  split
  · exact .refl s
  split
  · exact .refl s
  split
  · exact ⟨rfl, rfl, fun _ => rfl, rfl⟩
  · exact .refl s

theorem calm_callback (s : State) : Calm s s.entryCall := by
  unfold entryCall
  split
  · exact .refl s
  · exact ⟨rfl, rfl, fun _ => rfl, rfl⟩

/-! ## The calls that change the queue -/

/-- New tasks sleep. -/
theorem Joint.settles_register (h : s.Joint cfg xs none) (port : Port) (image : Image)
    (group_id : UInt32) (p_entries : Option (ℕ → RegSection)) (count : ℕ) (p_handle : Bool) :
    Settles s (s.sectionStlGroupRegister cfg port image group_id p_entries count p_handle).1 xs
      (fun _ => true) [] := by
  have hjoint := h.register port image group_id p_entries count p_handle
  rcases register_cases cfg port s image group_id p_entries count p_handle with
    ⟨result, -, heq⟩ | ⟨s', handle', g', slots, order, heq, hregistered, -⟩
  · rw [heq]
    exact (Calm.refl s).settles h
  · rw [heq] at hjoint ⊢
    dsimp only at hjoint ⊢
    have hother {v : ℕ} (hv : v ∉ slots) : (s'.tasks v).charge = (s.tasks v).charge :=
      congrArg Task.charge (hregistered.other_tasks v hv)
    refine ⟨?_, fun v hv => absurd hv List.not_mem_nil, fun v hv _ => hother fun hslot => ?_,
      fun v hv => hother fun hslot => ?_, ?_, fun hok => ?_⟩
    · rw [List.filter_true, List.append_nil]
      exact hjoint.queued.holds
    · have hstate := (h.queued.waits v hv).state
      rw [hregistered.slots_free v hslot] at hstate
      rcases hstate with hstate | hstate <;> exact nomatch hstate
    · have hcopy : s'.tasks v ∈
          (taskEntries image ((List.range count).filterMap fun i => p_entries.map (· i))).map
            (RegTask.copy handle' s.tick_now) := by
        rw [← hregistered.copies]
        exact List.mem_map_of_mem hslot
      obtain ⟨source, -, hsource⟩ := List.mem_map.mp hcopy
      have hsleep : (s'.tasks v).state = .sleeping := by
        rw [← hsource]
        rfl
      rcases hv with hv | hv <;> exact nomatch hsleep.symm.trans hv
    · rw [hregistered.other]
    · rw [hregistered.other] at hok
      exact hok

/-- Some of the waiting tasks of a group are put to sleep. -/
theorem Joint.settles_remove (h : s.Joint cfg xs none) (handle : Handle) (old_too : Bool)
    (hholds : s'.ready.Holds (xs.filter fun t => !s.removable handle old_too t))
    (hcharge : ∀ v, (s'.tasks v).charge = ((s.readyRemove cfg handle old_too).tasks v).charge)
    (hcurrent : s'.current = s.current) (hfault : s'.fault = s.fault) :
    Settles s s' xs (fun t => !s.removable handle old_too t) [] := by
  obtain ⟨-, -, htasks⟩ := h.readyRemove handle old_too
  refine ⟨?_, fun v hv => absurd hv List.not_mem_nil, fun v _ hkeep => ?_, fun v hv => ?_, hcurrent,
    fun hok => hfault ▸ hok⟩
  · rw [List.append_nil]
    exact hholds
  · have hnot : ¬ (v ∈ xs ∧ s.removable handle old_too v = true) := by
      rintro ⟨-, hremovable⟩
      simp [hremovable] at hkeep
    rw [hcharge, htasks, if_neg hnot]
  · have hheld := (held_of_charge (hcharge v)).mp hv
    have hnot : ¬ (v ∈ xs ∧ s.removable handle old_too v = true) := by
      intro hremoved
      have hself : (s.readyRemove cfg handle old_too).tasks v =
          { s.tasks v with state := .sleeping } := by
        rw [htasks, if_pos hremoved]
      rcases hheld with hstate | hstate
        <;> exact nomatch (congrArg Task.state hself).symm.trans hstate
    rw [hcharge, htasks, if_neg hnot]

theorem removable_owner {old_too : Bool} (h : (!s.removable handle old_too t) = false) :
    (s.tasks t).owner = handle := by
  unfold removable at h
  simp only [Bool.not_eq_eq_eq_not, Bool.not_false, decide_eq_true_eq] at h
  exact h.1

/-- A call on a group is refused, or runs its body. -/
theorem onGroup_cases (port : Port) (s : State) (handle : Handle) (body : ℕ → State × Status) :
    (s.onGroup port handle body).1 = s ∨ port.api_allowed = true ∧
      ∃ g, s.groupFind handle = some g ∧ s.onGroup port handle body = body g := by
  unfold onGroup
  split
  · exact Or.inl rfl
  next hallowed =>
  rw [Bool.not_eq_false] at hallowed
  cases hfind : s.groupFind handle with
  | none => exact Or.inl rfl
  | some g => exact Or.inr ⟨hallowed, g, rfl, rfl⟩

/-- The action puts waiting tasks of the groups that it withdraws to sleep. -/
def Withdrawn (cfg : Config) (s : State) (action : Action) (xs : List ℕ) : Prop :=
  ∃ keep, Settles s (s.exec cfg action) xs keep [] ∧
    ∀ v ∈ xs, keep v = false → action.Withdraws cfg s (s.tasks v).owner

theorem Joint.withdrawn_refused {action : Action} (h : s.Joint cfg xs none)
    (hcalm : s.exec cfg action = s) : Withdrawn cfg s action xs := by
  refine ⟨fun _ => true, ?_, fun v _ hkeep => nomatch hkeep⟩
  rw [hcalm]
  exact (Calm.refl s).settles h

theorem Joint.withdrawn_disable (h : s.Joint cfg xs none) (port : Port) (handle : Handle) :
    Withdrawn cfg s (.disable port handle) xs := by
  rcases onGroup_cases port s handle fun g =>
    if ¬ .revoking ≤ (s.groups g).state then
      ((s.modifyGroup g fun group => { group with state := .disabled }).readyRemove cfg
        handle false, .ok)
    else (s, .badState) with hrefused | ⟨-, g, -, heq⟩
  · exact h.withdrawn_refused hrefused
  · have hexec : s.sectionStlGroupDisable cfg port handle = _ := heq
    split at hexec
    · refine ⟨fun t => !s.removable handle false t, ?_, fun v _ hkeep => ⟨?_, ?_⟩⟩
      · show Settles s (s.sectionStlGroupDisable cfg port handle).1 _ _ _
        rw [hexec]
        exact h.settles_remove handle false (h.readyRemove handle false).1 (fun _ => rfl) rfl rfl
      · rw [hexec]
      · exact (removable_owner hkeep).symm
    · exact h.withdrawn_refused (congrArg Prod.fst hexec)

theorem Joint.withdrawn_pause (h : s.Joint cfg xs none) (port : Port) (handle : Handle) :
    Withdrawn cfg s (.pause port handle) xs := by
  rcases onGroup_cases port s handle fun g =>
    if ¬ .revoking ≤ (s.groups g).state then
      if s.groupExecuting g = false ∧ s.ring.groupRecords cfg handle = 0 ∧
          (s.groups g).references = 0 then
        ((s.modifyGroup g fun group => { group with state := .paused }).readyRemove cfg
          handle false, .ok)
      else (s, .busy)
    else (s, .badState) with hrefused | ⟨-, g, -, heq⟩
  · exact h.withdrawn_refused hrefused
  · have hexec : s.sectionStlGroupPause cfg port handle = _ := heq
    split at hexec
    · split at hexec
      · refine ⟨fun t => !s.removable handle false t, ?_, fun v _ hkeep => ⟨?_, ?_⟩⟩
        · show Settles s (s.sectionStlGroupPause cfg port handle).1 _ _ _
          rw [hexec]
          exact h.settles_remove handle false (h.readyRemove handle false).1 (fun _ => rfl) rfl rfl
        · rw [hexec]
        · exact (removable_owner hkeep).symm
      · exact h.withdrawn_refused (congrArg Prod.fst hexec)
    · exact h.withdrawn_refused (congrArg Prod.fst hexec)

theorem Joint.withdrawn_revoke (h : s.Joint cfg xs none) (port : Port) (handle : Handle) :
    Withdrawn cfg s (.revoke port handle) xs := by
  rcases onGroup_cases port s handle fun g =>
    let s := (s.modifyGroup g fun group => { group with state := .revoking }).groupCancel cfg g
    (s, if s.groupExecuting g then .busy else .ok) with hrefused | ⟨hallowed, g, hfind, heq⟩
  · exact h.withdrawn_refused hrefused
  · have hexec : s.sectionStlGroupRevoke cfg port handle = _ := heq
    obtain ⟨hg, rfl⟩ := groupFind_some hfind
    set s₁ := s.modifyGroup g fun group => { group with state := .revoking }
    have hhandle : (s₁.groups g).handle = (s.groups g).handle := by
      rw [modifyGroup_groups_self]
    have hremove : s₁.readyRemove cfg (s₁.groups g).handle true =
        (s.readyRemove cfg (s.groups g).handle true).modifyGroup g
          fun group => { group with state := .revoking } := by
      rw [hhandle]
      rfl
    have hframe : Cancelled s₁ (s₁.groupCancel cfg g) := cancelled (s := s₁) h.ring g
    refine ⟨fun t => !s.removable (s.groups g).handle true t, ?_, fun v _ hkeep => ⟨hallowed, ?_⟩⟩
    · show Settles s (s.sectionStlGroupRevoke cfg port (s.groups g).handle).1 _ _ _
      rw [hexec]
      refine h.settles_remove (s.groups g).handle true (h.revoke hg).queued.holds
        (fun v => ?_) ?_ ?_
      · rw [charge_cancel, hremove]
        rfl
      · rw [hframe.eq]
        rfl
      · rw [hframe.eq]
        rfl
    · exact (removable_owner hkeep).symm

theorem Joint.withdrawn_forget (h : s.Joint cfg xs none) (port : Port) (handle : Handle) :
    Withdrawn cfg s (.forget port handle) xs := by
  refine ⟨fun _ => true, ?_, fun v _ hkeep => by cases hkeep⟩
  show Settles s (s.sectionStlGroupForget cfg port handle).1 _ _ _
  unfold sectionStlGroupForget
  split
  · exact (Calm.refl s).settles h
  split
  · exact (Calm.refl s).settles h
  split
  · exact (Calm.refl s).settles h
  next g hfind =>
  obtain ⟨hg, -⟩ := groupFind_some hfind
  split
  · next hready =>
    obtain ⟨hstate, -⟩ := groupRetired_iff.mp hready.1
    have hnot (t : ℕ) (ht : t ∈ (s.groups g).tasks) : t ∉ xs := by
      intro hin
      obtain ⟨k, howns, hmay⟩ := (h.queued.waits t hin).owned
      rw [h.resident.owns_unique howns ⟨hg, ht⟩, hstate] at hmay
      exact hmay (by decide)
    obtain ⟨hholds, heq⟩ := clearTasks_spec h.queued.holds hnot
    dsimp only
    have htasks (v : ℕ) : (s.clearTasks (s.groups g).tasks).tasks v =
        if v ∈ (s.groups g).tasks then .zero else s.tasks v := by
      rw [heq]
    refine ⟨?_, fun v hv => absurd hv List.not_mem_nil, fun v hv _ => ?_, fun v hv => ?_, ?_, ?_⟩
    · rw [List.filter_true, List.append_nil]
      exact hholds
    · show ((s.clearTasks (s.groups g).tasks).tasks v).charge = _
      rw [htasks, if_neg fun ht => hnot v ht hv]
    · have hv : (s.clearTasks (s.groups g).tasks).Held v := hv
      show ((s.clearTasks (s.groups g).tasks).tasks v).charge = _
      unfold Held at hv
      rw [htasks] at hv ⊢
      split at hv
      · rcases hv with hv | hv <;> cases hv
      · next hout => rw [if_neg hout]
    · show (s.clearTasks (s.groups g).tasks).current = _
      rw [heq]
    · show (s.clearTasks (s.groups g).tasks).fault = _ → _
      rw [heq]
      exact id
  · exact (Calm.refl s).settles h

/-- Time brings new activations. -/
theorem Joint.settles_tick (h : s.Joint cfg xs none) (port : Port) (now : UInt32) :
    ∃ new, Settles s (s.sectionStlTick port now).1 xs (fun _ => true) new := by
  have hrefused : ∃ new, Settles s s xs (fun _ => true) new := ⟨[], (Calm.refl s).settles h⟩
  unfold sectionStlTick
  split
  · exact hrefused
  split
  · split
    · have htick : Joint cfg { s with tick_now := now } xs none :=
        h.same ⟨rfl, fun _ => rfl, rfl, fun _ => rfl, rfl, rfl, rfl, rfl, rfl, rfl⟩
      dsimp only
      split
      · obtain ⟨zs, hjoint, hgrows⟩ := htick.grows
        obtain ⟨-, -, hact⟩ := htick.activateDue
        refine ⟨zs, ?_, fun v hv hin => ?_, fun v hv _ => ?_, fun v hv => ?_, hgrows.current,
          fun hok => ?_⟩
        · rw [List.filter_true]
          exact hgrows.holds
        · exact List.disjoint_of_nodup_append hgrows.holds.nodup hin hv
        · refine hgrows.kept v fun hsleep => ?_
          have hstate := (htick.queued.waits v hv).state
          rw [hsleep] at hstate
          rcases hstate with hstate | hstate <;> exact nomatch hstate
        · rcases hgrows.states v with hsame | ⟨hnew, -⟩
          · exact hsame
          · rcases hv with hv | hv <;> exact nomatch hnew.symm.trans hv
        · rw [hact.eq] at hok
          exact hok
      · exact ⟨[], Calm.settles ⟨rfl, rfl, fun _ => rfl, rfl⟩ h⟩
    · exact hrefused
  · exact hrefused

/-! ## Switches and completions -/

/-- The task that ran has left the processor, and the queue has grown at its end. -/
structure Freed (cfg : Config) (s u : State) (action : Action) (xs new : List ℕ) : Prop where
  before : s.fault = .ok
  joint : u.Joint cfg (xs ++ new) none
  idle : ∀ v, (u.tasks v).state ≠ .running
  waiting : ∀ v ∈ xs, (u.tasks v).charge = (s.tasks v).charge
  charged : ∀ v, u.Held v → s.Charges cfg action v (u.tasks v).quantum_left
  held : ∀ v, s.Held v → u.Held v ∨ (u.tasks v).state = .sleeping ∧ ¬ u.Visits v ∨
    s.ended cfg action = some v

namespace Freed
variable {action : Action} {i : ℕ} (h : Freed cfg s u action xs new)
include h

theorem not_sleeping (hv : v ∈ xs ++ new) : (u.tasks v).state ≠ .sleeping := by
  intro hsleep
  have hstate := (h.joint.queued.waits v hv).state
  rw [hsleep] at hstate
  rcases hstate with hstate | hstate <;> exact nomatch hstate

/-- Nobody is selected. -/
theorem moves_wait (hgrows : Grows u (s.exec cfg action) (xs ++ new) zs)
    (hidle : (s.exec cfg action).runningTask = none) (hevent : s.event cfg action = .wait) :
    ∃ ys, Moves cfg s action xs ys := by
  have hsplit : xs ++ new ++ zs = xs ++ (new ++ zs) := List.append_assoc xs new zs
  refine ⟨xs ++ (new ++ zs), h.before, hsplit ▸ hgrows.holds, ?_, fun v hv => ?_, fun v hv => ?_⟩
  · rw [hevent]
    refine .wait (fun _ => true) (new ++ zs) (by rw [List.filter_true]; rfl) (fun v hv hin => ?_)
      (fun v hv _ => ?_) fun v hv => ?_
    · have hnodup := hgrows.holds.nodup
      rw [hsplit] at hnodup
      exact List.disjoint_of_nodup_append hnodup hin hv
    · refine allowance_of_charge ((hgrows.kept v (h.not_sleeping ?_)).trans (h.waiting v hv))
      exact List.mem_append_left _ hv
    · exact nomatch hidle.symm.trans hv
  · rcases hgrows.states v with hsame | ⟨hnew, -⟩
    · rw [quantum_of_charge hsame]
      exact h.charged v ((held_of_charge hsame).mp hv)
    · rcases hv with hv | hv <;> exact nomatch hnew.symm.trans hv
  · exact Or.inl (List.mem_append_left _ hv)

/-- The head of the queue is selected. -/
theorem moves_serve (hselected : Selected cfg u (s.exec cfg action) (xs ++ new) ys zs i)
    (hdispatched : s.dispatched cfg action = some i) : ∃ ys, Moves cfg s action xs ys := by
  have hsplit : xs ++ (new ++ zs) = i :: ys := by
    rw [← List.append_assoc]
    exact hselected.split
  have hrunning : (s.exec cfg action).runningTask = some i :=
    runningTask_eq_some.mpr ⟨hselected.current, hselected.running⟩
  have hevent : s.event cfg action = .serve i := by
    unfold event
    rw [hdispatched]
  refine ⟨ys, h.before, hselected.holds, ?_, fun v hv => ?_, fun v hv => ?_⟩
  · rw [hevent]
    refine .serve i (new ++ zs) hsplit (fun v hv => ?_) hrunning
    refine Eq.trans ?_ (allowance_of_charge (h.waiting v hv))
    have hin : v ∈ xs ++ new := List.mem_append_left _ hv
    by_cases hvi : v = i
    · subst hvi
      show (s.exec cfg action).allowance cfg v = _
      rw [(held_of_runningTask hrunning).allowance, hselected.quantum]
      unfold allowance
      rcases (h.joint.queued.waits v hin).state with hnew | hold
      · rw [if_pos hnew, if_neg (by rw [hnew]; exact nofun)]
      · rw [if_pos hold, if_neg (by rw [hold]; exact nofun)]
    · exact allowance_of_charge (hselected.kept v hvi (h.not_sleeping hin))
  · by_cases hvi : v = i
    · subst hvi
      rw [hselected.quantum]
      by_cases hold : (u.tasks v).state = .old
      · rw [if_pos hold]
        exact h.charged v (Or.inl hold)
      · rw [if_neg hold]
        refine Or.inr ⟨rfl, fun hheld => ?_⟩
        rcases h.held v hheld with hstill | ⟨hsleep, hnot⟩ | hended
        · rcases hstill with hstill | hstill
          · exact absurd hstill hold
          · exact absurd hstill (h.idle v)
        · exact absurd (hselected.visited hsleep) hnot
        · exact hended
    · rcases hselected.states v hvi with hsame | hnew
      · rw [quantum_of_charge hsame]
        exact h.charged v ((held_of_charge hsame).mp hv)
      · rcases hv with hv | hv <;> exact nomatch hnew.symm.trans hv
  · have hin : v ∈ i :: ys := hsplit ▸ List.mem_append_left _ hv
    rcases List.mem_cons.mp hin with rfl | hin
    · exact Or.inr (Or.inl hdispatched)
    · exact Or.inl hin

end Freed

/-- Nothing runs while no task is on the processor. -/
theorem Joint.not_running (h : s.Joint cfg xs none) (hok : s.fault = .ok) (hidle : s.current = none)
    (v : ℕ) : (s.tasks v).state ≠ .running := by
  intro hrunning
  exact nomatch hidle.symm.trans ((h.placed.settled hok v nofun).2 hrunning)

theorem Joint.held_cases (h : s.Joint cfg xs none) (hok : s.fault = .ok) (hv : s.Held v) :
    v ∈ xs ∧ (s.tasks v).state = .old ∨ s.runningTask = some v := by
  obtain ⟨hready, hcurrent⟩ := h.placed.settled hok v nofun
  rcases hv with hold | hrunning
  · exact Or.inl ⟨hready (Or.inr hold), hold⟩
  · exact Or.inr (runningTask_eq_some.mpr ⟨hcurrent hrunning, hrunning⟩)

section Switch
variable {p_saved_sp : Option ℕ}

theorem preempted_switch (hu : s.between cfg port p_saved_sp = some u) :
    s.preempted cfg (.switch port p_saved_sp) =
      s.runningTask.filter fun t => (u.tasks t).state = .old := by
  show (s.between cfg port p_saved_sp).bind _ = _
  rw [hu]
  rfl

/-- A task that was not put back into the queue was not preempted. -/
theorem preempted_none (hu : s.between cfg port p_saved_sp = some u)
    (hstate : ∀ t, s.runningTask = some t → (u.tasks t).state ≠ .old) :
    s.preempted cfg (.switch port p_saved_sp) = none := by
  rw [preempted_switch hu]
  cases hrunning : s.runningTask with
  | none => rfl
  | some t => simp [hstate t hrunning]

theorem preempted_some (hu : s.between cfg port p_saved_sp = some u)
    (hrunning : s.runningTask = some t)
    (hold : (u.tasks t).state = .old) : s.preempted cfg (.switch port p_saved_sp) = some t := by
  rw [preempted_switch hu, hrunning]
  simp [hold]

theorem fronted_some {action : Action} : s.fronted cfg action = some t ↔
    s.preempted cfg action = some t ∧ s.KeepsTurn t := by
  unfold fronted
  rw [Option.filter_eq_some_iff, decide_eq_true_eq]

theorem ended_switch : s.ended cfg (.switch port p_saved_sp) = some t ↔
    s.preempted cfg (.switch port p_saved_sp) = some t ∧ ¬ s.KeepsTurn t := by
  show (s.preempted cfg (.switch port p_saved_sp)).filter _ = _ ↔ _
  rw [Option.filter_eq_some_iff, decide_eq_true_eq]

/-- The task that ran is suspended at the front of the queue. -/
structure Fronted (cfg : Config) (s u : State) (action : Action) (xs : List ℕ) (t : ℕ) : Prop where
  before : s.fault = .ok
  joint : u.Joint cfg (t :: xs) none
  fronted : s.fronted cfg action = some t
  running : s.runningTask = some t
  absent : t ∉ xs
  pending : s.native_pending = true
  old : (u.tasks t).state = .old
  less : (u.tasks t).quantum_left.toNat < (s.tasks t).quantum_left.toNat
  pos : 0 < (u.tasks t).quantum_left.toNat
  others : ∀ v, v ≠ t → (u.tasks v).charge = (s.tasks v).charge

/-- **The first half of a switch** leaves the queue alone or adds the task that ran, at one
of its ends. -/
theorem Joint.freed (h : s.Joint cfg xs none) (hok : s.fault = .ok)
    (hu : s.between cfg port p_saved_sp = some u) (hjoint : u.Joint cfg ys none)
    (huok : u.fault = .ok)
    (hidle : u.current = none) (hdeparted : Departed cfg s u xs ys) :
    (∃ new, ys = xs ++ new ∧ s.fronted cfg (.switch port p_saved_sp) = none ∧
      Freed cfg s u (.switch port p_saved_sp) xs new) ∨
    ∃ t, ys = t :: xs ∧ Fronted cfg s u (.switch port p_saved_sp) xs t := by
  have hrunning := hjoint.not_running huok hidle
  cases hdeparted with
  | leave absent waiting held =>
    have hpreempted : s.preempted cfg (.switch port p_saved_sp) = none :=
      preempted_none hu fun t ht => by rw [(absent t ht).1]; exact nofun
    have hfronted : s.fronted cfg (.switch port p_saved_sp) = none := by
      unfold fronted
      rw [hpreempted]
      rfl
    refine Or.inl ⟨[], (List.append_nil xs).symm, hfronted, hok, by rwa [List.append_nil],
      hrunning, waiting, fun v hv => .of_charge hv (held v hv) (by rw [hfronted]; exact nofun),
      fun v hv => ?_⟩
    rcases h.held_cases hok hv with ⟨hin, -⟩ | hv
    · exact Or.inl ((held_of_charge (waiting v hin)).mpr hv)
    · exact Or.inr (Or.inl (absent v hv))
  | front t running keeps absent old less pos others =>
    exact Or.inr ⟨t, rfl, hok, hjoint, fronted_some.mpr ⟨preempted_some hu running old, keeps⟩,
      running, absent, keeps.1, old, less, pos, others⟩
  | rotate t running turn absent old quantum others =>
    have hpreempted := preempted_some hu running old
    have hended : s.ended cfg (.switch port p_saved_sp) = some t :=
      ended_switch.mpr ⟨hpreempted, turn⟩
    have hfronted : s.fronted cfg (.switch port p_saved_sp) = none := by
      refine Option.eq_none_iff_forall_ne_some.mpr fun v hv => ?_
      obtain ⟨hv, hkeeps⟩ := fronted_some.mp hv
      obtain rfl := Option.some.inj (hpreempted.symm.trans hv)
      exact turn hkeeps
    refine Or.inl ⟨[t], rfl, hfronted, hok, hjoint, hrunning,
      fun v hv => others v fun heq => absent (heq ▸ hv), fun v hv => ?_, fun v hv => ?_⟩
    · by_cases hvt : v = t
      · subst hvt
        exact Or.inr ⟨quantum, fun _ => hended⟩
      · exact .of_charge hv (others v hvt) (by rw [hfronted]; exact nofun)
    · by_cases hvt : v = t
      · subst hvt
        exact Or.inl (Or.inl old)
      · exact Or.inl ((held_of_charge (others v hvt)).mpr hv)

/-- The continuation is back at the front, and nobody is selected. -/
theorem Fronted.moves {action : Action} (h : Fronted cfg s u action xs t)
    (hgrows : Grows u (s.exec cfg action) (t :: xs) [])
    (hidle : (s.exec cfg action).runningTask = none)
    (hdispatched : s.dispatched cfg action = none) :
    ∃ ys, Moves cfg s action xs ys := by
  have hevent : s.event cfg action = .front t := by
    unfold event
    rw [hdispatched, h.fronted]
  have hheld : s.Held t := held_of_runningTask h.running
  have hcharge {v : ℕ} (hv : v ∈ t :: xs) :
      ((s.exec cfg action).tasks v).charge = (u.tasks v).charge := by
    refine hgrows.kept v fun hsleep => ?_
    have hstate := (h.joint.queued.waits v hv).state
    rw [hsleep] at hstate
    rcases hstate with hstate | hstate <;> exact nomatch hstate
  have hquantum := quantum_of_charge (hcharge List.mem_cons_self)
  have hholds := hgrows.holds
  rw [List.append_nil] at hholds
  refine ⟨t :: xs, h.before, hholds, ?_, fun v hv => ?_,
    fun v hv => Or.inl (List.mem_cons_of_mem t hv)⟩
  · rw [hevent]
    refine .front t h.running h.absent rfl (fun v hv => ?_) ?_ hidle
    · have hvt : v ≠ t := fun heq => h.absent (heq ▸ hv)
      exact allowance_of_charge ((hcharge (List.mem_cons_of_mem t hv)).trans (h.others v hvt))
    · show (s.exec cfg action).allowance cfg t < s.allowance cfg t
      have hheld' : (s.exec cfg action).Held t :=
        (held_of_charge (hcharge List.mem_cons_self)).mpr (Or.inl h.old)
      rw [hheld'.allowance, hheld.allowance, hquantum]
      exact h.less
  · by_cases hvt : v = t
    · subst hvt
      rw [hquantum]
      exact Or.inl ⟨hheld, Nat.le_of_lt h.less, fun _ => h.pos, fun _ => h.less⟩
    · rcases hgrows.states v with hsame | ⟨hnew, -⟩
      · refine .of_charge hv (hsame.trans (h.others v hvt)) fun hfronted => hvt ?_
        exact Option.some.inj (hfronted.symm.trans h.fronted)
      · rcases hv with hv | hv <;> exact nomatch hnew.symm.trans hv

/-- **A switch.** -/
theorem Joint.moves_switch (h : s.Joint cfg xs none) (port : Port) (p_saved_sp : Option ℕ)
    (hok' : (s.exec cfg (.switch port p_saved_sp)).fault = .ok) :
    ∃ ys, Moves cfg s (.switch port p_saved_sp) xs ys := by
  have hcalm (hbetween : s.between cfg port p_saved_sp = none)
      (hcalm : Calm s (s.exec cfg (.switch port p_saved_sp))) :
      ∃ ys, Moves cfg s (.switch port p_saved_sp) xs ys := by
    refine (hcalm.settles h).moves hok' ?_ ?_ fun v _ hkeep => nomatch hkeep
    · show (s.between cfg port p_saved_sp).bind _ = none
      rw [hbetween]
      rfl
    · show (s.between cfg port p_saved_sp).bind _ = none
      rw [hbetween]
      rfl
  have hexec : s.exec cfg (.switch port p_saved_sp) =
      (s.sectionStlSwitch cfg port p_saved_sp).1 := rfl
  unfold sectionStlSwitch at hexec
  by_cases hok : s.fault = .ok
  swap
  · rw [if_pos hok] at hexec
    rw [hexec] at hok'
    exact absurd hok' (fault_returnNative (s := { s with current := none }) hok port)
  rw [if_neg (not_not_intro hok)] at hexec
  by_cases hallowed : port.host_switch_allowed = true
  swap
  · rw [if_pos (Bool.eq_false_iff.mpr hallowed)] at hexec
    refine hcalm (if_neg fun hboth => hallowed hboth.2) ?_
    rw [hexec]
    exact .refl s
  rw [if_neg (by rw [hallowed]; decide)] at hexec
  have hout := h.switchOut hok port p_saved_sp
  have hclears := h.clears hok port p_saved_sp
  have hbetween : s.between cfg port p_saved_sp =
      match s.switchOut cfg port p_saved_sp with
      | .ok s => some s
      | .error _ => none := if_pos ⟨hok, hallowed⟩
  cases hresult : s.switchOut cfg port p_saved_sp with
  | error result =>
    rw [hresult] at hexec hbetween hclears
    rcases hclears with hfault | ⟨ring, hring⟩
    · exact absurd (hexec ▸ hok') hfault
    · refine hcalm hbetween ?_
      rw [hexec, hring]
      exact ⟨rfl, rfl, fun _ => rfl, rfl⟩
  | ok u =>
    rw [hresult] at hexec hbetween hout hclears
    obtain ⟨-, -, -, -, huok⟩ := hout
    obtain ⟨ys, hjoint, hidle, hpending, hdeparted⟩ := hclears
    have hdispatched : s.dispatched cfg (.switch port p_saved_sp) =
        (s.exec cfg (.switch port p_saved_sp)).runningTask := by
      rw [hexec]
      show (s.between cfg port p_saved_sp).bind _ = _
      rw [hbetween]
      rfl
    rw [hexec] at hok'
    have hin := hjoint.switchIn_cases port hok'
    dsimp only at hexec
    rw [← hexec] at hin
    have hnobody {zs : List ℕ} (hgrows : Grows u (s.exec cfg (.switch port p_saved_sp)) ys zs) :
        (s.exec cfg (.switch port p_saved_sp)).runningTask = none := by
      unfold runningTask
      rw [hgrows.current, hidle]
      rfl
    rcases h.freed hok hbetween hjoint huok hidle hdeparted with
      ⟨new, rfl, hfronted, hfreed⟩ | ⟨t, rfl, hfront⟩
    · rcases hin with ⟨zs, hgrows, -⟩ | ⟨-, ys, zs, i, hselected⟩
      · refine hfreed.moves_wait hgrows (hnobody hgrows) ?_
        unfold event
        rw [hdispatched, hnobody hgrows, hfronted]
      · refine hfreed.moves_serve hselected ?_
        rw [hdispatched]
        exact runningTask_eq_some.mpr ⟨hselected.current, hselected.running⟩
    · rcases hin with ⟨zs, hgrows, hnative⟩ | ⟨hnative, -⟩
      · obtain rfl := hnative (hpending.trans hfront.pending)
        exact hfront.moves hgrows (hnobody hgrows) (hdispatched.trans (hnobody hgrows))
      · exact nomatch hnative.symm.trans (hpending.trans hfront.pending)

end Switch

/-- The callback is over. -/
theorem Joint.freed_complete (h : s.Joint cfg xs none) (htask : s.runningTask = some t)
    (hact : Activated (s.modify t fun task => { task with state := .sleeping }) u)
    (hjoint : u.Joint cfg (xs ++ new) none) (port : Port) (outcome_running : Bool) :
    Freed cfg s u (.complete port outcome_running) xs new := by
  obtain ⟨hcurrent, hrunning⟩ := runningTask_eq_some.mp htask
  have hok := h.placed.running t hcurrent hrunning
  have hself : (s.modify t fun task => { task with state := .sleeping }).tasks t =
      { s.tasks t with state := .sleeping } := modify_tasks_self _ _ _
  have hother {v : ℕ} (hv : v ≠ t) :
      (s.modify t fun task => { task with state := .sleeping }).tasks v = s.tasks v :=
    modify_tasks_of_ne _ _ hv
  have hkept {v : ℕ} (hv : v ≠ t) (hstate : (s.tasks v).state ≠ .sleeping) :
      (u.tasks v).charge = (s.tasks v).charge := by
    rw [← hother hv] at hstate ⊢
    rw [hact.kept v hstate]
  -- what does not sleep behind the callback was not released by it
  have hheld {v : ℕ} (hv : u.Held v) : v ≠ t ∧ s.Held v := by
    rcases hact.states v with hsame | hnew
    · have hvt : v ≠ t := by
        rintro rfl
        rw [hself] at hsame
        rcases hv with hv | hv <;> exact nomatch hsame.symm.trans hv
      rw [hother hvt] at hsame
      unfold Held at hv ⊢
      exact ⟨hvt, hsame ▸ hv⟩
    · rcases hv with hv | hv <;> exact nomatch hnew.symm.trans hv
  have hawake {v : ℕ} (hv : s.Held v) : (s.tasks v).state ≠ .sleeping := by
    rcases hv with hv | hv <;> rw [hv] <;> exact nofun
  refine ⟨hok, hjoint, fun v hv => ?_, fun v hv => ?_, fun v hv => ?_, fun v hv => ?_⟩
  · obtain ⟨hvt, -⟩ := hheld (Or.inr hv)
    have hplaced := (hjoint.placed.settled (by rw [hact.eq]; exact hok) v nofun).2 hv
    rw [hact.eq] at hplaced
    exact hvt (Option.some.inj (hplaced.symm.trans hcurrent))
  · refine hkept (fun heq => h.running_notMem hrunning (heq ▸ hv)) fun hsleep => ?_
    have hstate := (h.queued.waits v hv).state
    rw [hsleep] at hstate
    rcases hstate with hstate | hstate <;> exact nomatch hstate
  · obtain ⟨hvt, hv'⟩ := hheld hv
    exact .of_charge hv (hkept hvt (hawake hv')) nofun
  · by_cases hvt : v = t
    · exact Or.inr (Or.inr (hvt ▸ htask))
    · exact Or.inl ((held_of_charge (hkept hvt (hawake hv))).mpr hv)

/-- **A completion.** -/
theorem Joint.moves_complete (h : s.Joint cfg xs none) (port : Port) (outcome_running : Bool)
    (hok' : (s.exec cfg (.complete port outcome_running)).fault = .ok) :
    ∃ ys, Moves cfg s (.complete port outcome_running) xs ys := by
  have hexec : s.exec cfg (.complete port outcome_running) =
      s.entryComplete cfg port outcome_running := rfl
  have hdispatched : s.dispatched cfg (.complete port outcome_running) =
      (s.exec cfg (.complete port outcome_running)).runningTask := rfl
  cases htask : s.runningTask with
  | none =>
    have heq : s.entryComplete cfg port outcome_running = s := by
      unfold entryComplete
      rw [htask]
    rw [heq] at hexec
    have hcalm : Calm s (s.exec cfg (.complete port outcome_running)) := by
      rw [hexec]
      exact .refl s
    refine (hcalm.settles h).moves hok' ?_ rfl fun v _ hkeep => nomatch hkeep
    rw [hdispatched, hexec, htask]
  | some t =>
    obtain ⟨hcurrent, hrunning⟩ := runningTask_eq_some.mp htask
    obtain ⟨g, howns, -⟩ := h.placed.current t hcurrent
    have hok := h.placed.running t hcurrent hrunning
    have hfind : s.groupFind (s.tasks t).owner = some g := h.resident.groupFind_owner howns
    obtain ⟨ys, hjoint, hact⟩ := h.completed htask outcome_running
    rw [entryComplete_eq htask, hfind] at hexec
    obtain ⟨zs, hdue, hact'⟩ := hjoint.activateDue
    have hact := hact.trans hact'
    have hfreed :=
      h.freed_complete htask hact (by rwa [List.append_assoc] at hdue) port outcome_running
    generalize (s.completed t outcome_running).activateDue = u at hact hfreed hexec
    rcases hfreed.joint.inlineNext_cases port t (by rw [hact.eq]; exact hok)
      (fun v _ => hfreed.idle v)
      (by rw [hact.groups.group_list]; exact howns.1) with hfault | hsame | ⟨ws, f, hselected⟩
    · rw [← hexec] at hfault
      exact absurd hok' hfault
    · rw [← hexec] at hsame
      have hidle : (s.exec cfg (.complete port outcome_running)).runningTask = none := by
        refine Option.eq_none_iff_forall_ne_some.mpr fun v hv => ?_
        rw [hsame] at hv
        exact hfreed.idle v (runningTask_eq_some.mp hv).2
      have hgrows :
          Grows u (s.exec cfg (.complete port outcome_running)) (xs ++ (ys ++ zs)) [] := by
        rw [hsame]
        exact ⟨by rw [List.append_nil]; exact hfreed.joint.queued.holds, rfl, fun _ _ => rfl,
          fun _ => Or.inl rfl⟩
      refine hfreed.moves_wait hgrows hidle ?_
      unfold event
      rw [hdispatched, hidle]
      rfl
    · rw [← hexec] at hselected
      exact hfreed.moves_serve hselected
        (hdispatched.trans (runningTask_eq_some.mpr ⟨hselected.current, hselected.running⟩))

/-- **Every action** moves the queue. -/
theorem Joint.moves (h : s.Joint cfg xs none) (action : Action)
    (hok : (s.exec cfg action).fault = .ok) : ∃ ys, Moves cfg s action xs ys := by
  have hcalm (hcalm : Calm s (s.exec cfg action)) (hdispatched : s.dispatched cfg action = none)
      (hpreempted : s.preempted cfg action = none) : ∃ ys, Moves cfg s action xs ys :=
    (hcalm.settles h).moves hok hdispatched hpreempted fun v _ hkeep => nomatch hkeep
  have hwithdrawn (hw : Withdrawn cfg s action xs) (hdispatched : s.dispatched cfg action = none)
      (hpreempted : s.preempted cfg action = none) : ∃ ys, Moves cfg s action xs ys := by
    obtain ⟨keep, hsettles, hstays⟩ := hw
    exact hsettles.moves hok hdispatched hpreempted hstays
  cases action with
  | init port now => exact hcalm (calm_init port s now) rfl rfl
  | register port image group_id p_entries count p_handle =>
    exact (h.settles_register port image group_id p_entries count p_handle).moves hok rfl rfl
      fun v _ hkeep => nomatch hkeep
  | initializeBegin port image handle p_entries count =>
    exact hcalm (calm_initializeBegin port s image handle p_entries count) rfl rfl
  | initializeNext => exact hcalm (calm_initializeNext s) rfl rfl
  | enable port handle => exact hcalm (calm_enable port s handle) rfl rfl
  | disable port handle => exact hwithdrawn (h.withdrawn_disable port handle) rfl rfl
  | pause port handle => exact hwithdrawn (h.withdrawn_pause port handle) rfl rfl
  | revoke port handle => exact hwithdrawn (h.withdrawn_revoke port handle) rfl rfl
  | acquire port handle => exact hcalm (calm_acquire port s handle) rfl rfl
  | release port handle => exact hcalm (calm_release port s handle) rfl rfl
  | quiescent port handle => exact hcalm (h.calm_quiescent port handle) rfl rfl
  | forget port handle => exact hwithdrawn (h.withdrawn_forget port handle) rfl rfl
  | tick port now =>
    obtain ⟨new, hsettles⟩ := h.settles_tick port now
    exact hsettles.moves hok rfl rfl fun v _ hkeep => nomatch hkeep
  | requestNative port => exact hcalm (calm_requestNative port s) rfl rfl
  | switch port p_saved_sp => exact h.moves_switch port p_saved_sp hok
  | callback => exact hcalm (calm_callback s) rfl rfl
  | complete port outcome_running => exact h.moves_complete port outcome_running hok
  | write i word => exact hcalm ⟨rfl, rfl, fun _ => rfl, rfl⟩ rfl rfl

end State
end Atoman.SectionStl
