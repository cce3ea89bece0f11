import Atoman.Lib.StableSort
import Atoman.SectionStl.Steady

/-!
# Initialization

The callbacks of a table are called in the order of their priorities, those of one
priority in the order of the table. Between two of them anything may be called, but the
transaction is that of one group until it ends: another one is turned away, and only a
revocation of its own group cuts it short.
-/

namespace Atoman.SectionStl
open Lib (StableSort)

/-- The callbacks of a table. -/
def initEntries (image : Image) (table : List RegSection) : List RegInit :=
  table.filterMap fun entry =>
    if entry.section_type = sectionInit then entry.p_str.bind image.init else none

/-- A call that revokes the group. -/
def Action.Revokes (handle : Handle) : Action → Prop
  | .revoke port h => port.api_allowed = true ∧ h = handle
  | _ => False

/-- A step of a running initialization. -/
def Action.isNext : Action → Bool
  | .initializeNext => true
  | _ => false

namespace State
variable {cfg : Config} {s s' : State} {xs : List ℕ} {image : Image} {table : List RegSection}
  {callbacks : List RegInit} {run : InitRun} {g : ℕ} {handle : Handle} {port : Port}

/-- The callback that the next step of `section_stl_group_initialize` calls, if it has been
admitted under the lock and the lock has been left. -/
def initCall (s : State) : Option RegInit :=
  s.initRun.bind fun run => if run.point = .call then s.init_callbacks[run.index]? else none

/-- A running `section_stl_group_initialize` with other calls in between: the callbacks it
calls, and its result once it returns. -/
def initialization (cfg : Config) : State → List Action → List RegInit × Option Status
  | _, [] => ([], none)
  | s, .initializeNext :: actions =>
    match s.initializeNext with
    | (_, some result) => ([], some result)
    | (s', none) =>
      let (calls, result) := initialization cfg s' actions
      (s.initCall.toList ++ calls, result)
  | s, action :: actions => initialization cfg (s.exec cfg action) actions

/-! ## The order -/

theorem initEntries_cons (image : Image) (entry : RegSection) (table : List RegSection) :
    initEntries image (entry :: table) =
      (if entry.section_type = sectionInit then (entry.p_str.bind image.init).toList else []) ++
        initEntries image table := by
  unfold initEntries
  by_cases hinit : entry.section_type = sectionInit
  · cases hsome : entry.p_str.bind image.init <;> simp [hinit, hsome]
  · simp [hinit]

/-- Inserting behind the callbacks of no greater priority. -/
theorem stableSort_insertInit {entries : List RegInit} (init : RegInit)
    (h : StableSort (fun init => init.priority.toInt) entries callbacks) :
    StableSort (fun init => init.priority.toInt) (entries ++ [init])
      (insertInit init callbacks) := by
  unfold insertInit
  set behind : RegInit → Bool := fun other => decide (init.priority < other.priority)
  have hsplit : callbacks.rdropWhile behind ++ callbacks.rtakeWhile behind = callbacks :=
    List.rdropWhile_append_rtakeWhile
  rw [← hsplit] at h
  refine h.insert (fun b hb => ?_) fun b hb => ?_
  · -- the last one in front is not behind, and the others come before it
    have hne : callbacks.rdropWhile behind ≠ [] := List.ne_nil_of_mem hb
    have hlast := List.rdropWhile_last_not behind callbacks hne
    rw [decide_eq_true_eq, Int8.not_lt, Int8.le_iff_toInt_le] at hlast
    have hsorted := (List.pairwise_append.mp h.sorted).1
    rw [← List.dropLast_concat_getLast hne] at hsorted hb
    rcases List.mem_append.mp hb with hb | hb
    · exact Int.le_trans
        ((List.pairwise_append.mp hsorted).2.2 b hb _ (List.mem_singleton_self _)) hlast
    · rw [List.mem_singleton.mp hb]
      exact hlast
  · have hbehind : behind b = true := List.mem_rtakeWhile_imp hb
    exact Int8.lt_iff_toInt_lt.mp (of_decide_eq_true hbehind)

/-- **The callbacks of a table** are sorted by insertion. -/
theorem collectInits_sort {entries : List RegInit} {result : List RegInit}
    (h : StableSort (fun init => init.priority.toInt) entries callbacks)
    (hcollect : collectInits image table callbacks = some result) :
    StableSort (fun init => init.priority.toInt) (entries ++ initEntries image table) result := by
  induction table generalizing entries callbacks with
  | nil =>
    obtain rfl := Option.some.inj hcollect
    simpa [initEntries] using h
  | cons entry rest ih =>
    rw [initEntries_cons]
    unfold collectInits at hcollect
    split at hcollect
    · next hinit =>
      rw [if_pos hinit]
      split at hcollect
      · exact nomatch hcollect
      · next init hsome =>
        split at hcollect
        · exact nomatch hcollect
        · have hnext := ih (stableSort_insertInit init h) hcollect
          rw [List.append_assoc] at hnext
          rw [hsome]
          exact hnext
    · next hinit =>
      rw [if_neg hinit]
      exact ih h hcollect

/-! ## The transaction -/

/-- The transaction of a group is where it was. -/
structure SameRun (s s' : State) (g : ℕ) : Prop where
  initRun : s'.initRun = s.initRun
  init_callbacks : s'.init_callbacks = s.init_callbacks
  handle : (s'.groups g).handle = (s.groups g).handle
  state : (s'.groups g).state = (s.groups g).state

namespace SameRun

theorem refl (s : State) (g : ℕ) : SameRun s s g := ⟨rfl, rfl, rfl, rfl⟩

/-- The groups are kept as they are. -/
theorem of_groups (hrun : s'.initRun = s.initRun)
    (hcallbacks : s'.init_callbacks = s.init_callbacks)
    (hgroup : s'.groups g = s.groups g) : SameRun s s' g :=
  ⟨hrun, hcallbacks, by rw [hgroup], by rw [hgroup]⟩

/-- One group changes in other fields, or another one. -/
theorem of_update {k : ℕ} {group : Group} (hrun : s'.initRun = s.initRun)
    (hcallbacks : s'.init_callbacks = s.init_callbacks)
    (hgroups : s'.groups = Function.update s.groups k group)
    (hsame : k = g → group.handle = (s.groups k).handle ∧ group.state = (s.groups k).state) :
    SameRun s s' g := by
  by_cases hk : g = k
  · subst hk
    obtain ⟨hhandle, hstate⟩ := hsame rfl
    refine ⟨hrun, hcallbacks, ?_, ?_⟩
    · rw [hgroups, Function.update_self, hhandle]
    · rw [hgroups, Function.update_self, hstate]
  · exact .of_groups hrun hcallbacks (by rw [hgroups, Function.update_of_ne hk])

end SameRun

/-- What is known of a group while its initialization runs. -/
theorem Joint.busy (h : s.Joint cfg xs none) (hrun : s.initRun = some run) :
    run.group ∈ s.group_list ∧ (s.groups run.group).init_busy = true ∧
      (s.groups run.group).initialized = false ∧
      ((s.groups run.group).state = .disabled ∨ (s.groups run.group).state = .revoking) := by
  have hg := h.starting.listed run hrun
  have hbusy := (h.starting.busy _ hg).mpr ⟨run, hrun, rfl⟩
  exact ⟨hg, hbusy, h.starting.state _ hg hbusy⟩

/-- **No other initialization starts** while one runs. -/
theorem initialize_refused (hg : g ∈ s.group_list) (hbusy : (s.groups g).init_busy = true)
    (cfg : Config) (port : Port) (image : Image) (handle : Handle)
    (p_entries : Option (ℕ → RegSection)) (count : ℕ) : ∃ result, result ≠ .ok ∧
      s.sectionStlGroupInitialize cfg port image handle p_entries count = (s, result) := by
  have hany : (s.group_list.any fun k => (s.groups k).init_busy) = true :=
    List.any_eq_true.mpr ⟨g, hg, hbusy⟩
  have hcheck : s.initializeCheck handle = .badState := by
    unfold initializeCheck
    rw [hany]
    rfl
  unfold sectionStlGroupInitialize
  split
  · exact ⟨.badContext, by decide, rfl⟩
  split
  · exact ⟨.badContext, by decide, rfl⟩
  split
  · exact ⟨.badArgument, by decide, rfl⟩
  · refine ⟨.badState, by decide, ?_⟩
    rw [hcheck]

/-- A switch or a completion does not touch a group while its initialization runs. -/
theorem sameRun_evolves (hrun : s.initRun = some run)
    (hjoint : ∃ ys, s'.Joint cfg ys none) (hev : Evolves s s')
    (hcallbacks : s'.init_callbacks = s.init_callbacks) : SameRun s s' run.group := by
  obtain ⟨ys, hjoint⟩ := hjoint
  have hrun' : s'.initRun = some run := hev.initRun.trans hrun
  refine ⟨hev.initRun, hcallbacks, hev.handle _, ?_⟩
  rcases hev.groups run.group with hsame | hclosed
  · rw [hsame]
  · rcases (hjoint.busy hrun').2.2.2 with hstate | hstate
    · rw [hclosed] at hstate
      exact nomatch hstate
    · rw [hclosed] at hstate
      exact nomatch hstate

/-- The callbacks are kept by a switch. -/
theorem switch_init_callbacks (cfg : Config) (port : Port) (s : State) (p_saved_sp : Option ℕ) :
    (s.sectionStlSwitch cfg port p_saved_sp).1.init_callbacks = s.init_callbacks := by
  have hsteady := steady_switch cfg port s p_saved_sp
  cases hscan : s.switchScan cfg port p_saved_sp with
  | none =>
    rw [hscan] at hsteady
    exact hsteady.init_callbacks
  | some u =>
    rw [hscan] at hsteady
    refine hsteady.2.init_callbacks.trans (Eq.trans ?_ hsteady.1.init_callbacks)
    rw [(activated_due u).eq]

/-- The callbacks are kept by the end of a callback. -/
theorem complete_init_callbacks (cfg : Config) (port : Port) (s : State) (outcome_running : Bool) :
    (s.entryComplete cfg port outcome_running).init_callbacks = s.init_callbacks := by
  have hsteady := steady_complete cfg port s outcome_running
  cases hscan : s.completeScan outcome_running with
  | none =>
    rw [hscan] at hsteady
    rw [hsteady]
  | some u =>
    rw [hscan] at hsteady
    refine hsteady.2.init_callbacks.trans (Eq.trans ?_ hsteady.1.init_callbacks)
    rw [(activated_due u).eq]

/-- Another group is registered. -/
theorem sameRun_register {k : ℕ} (hclaimed : Claimed (s.openGroup k handle) s') (hne : g ≠ k) :
    SameRun s s' g := by
  have hother : (s.openGroup k handle).groups g = s.groups g := modifyGroup_groups_of_ne _ _ hne
  refine ⟨?_, ?_, ?_, ?_⟩
  · rw [hclaimed.eq]
    rfl
  · rw [hclaimed.eq]
    rfl
  · rw [hclaimed.handle, hother]
  · rw [hclaimed.state, hother]

/-- **A revocation** marks the group of the transaction, or another one. -/
theorem Joint.revoke_sameRun (h : s.Joint cfg xs none) (hg : g ∈ s.group_list) (port : Port)
    (handle : Handle) :
    SameRun s (s.sectionStlGroupRevoke cfg port handle).1 g ∧
        ¬ (port.api_allowed = true ∧ handle = (s.groups g).handle) ∨
      (port.api_allowed = true ∧ handle = (s.groups g).handle) ∧
        (s.sectionStlGroupRevoke cfg port handle).1.initRun = s.initRun ∧
        (s.sectionStlGroupRevoke cfg port handle).1.init_callbacks = s.init_callbacks ∧
        ((s.sectionStlGroupRevoke cfg port handle).1.groups g).handle = (s.groups g).handle ∧
        .revoking ≤ ((s.sectionStlGroupRevoke cfg port handle).1.groups g).state := by
  unfold sectionStlGroupRevoke onGroup
  by_cases hallowed : port.api_allowed = false
  · rw [if_pos hallowed]
    exact Or.inl ⟨.refl s g, fun hrevokes => nomatch hallowed.symm.trans hrevokes.1⟩
  · rw [if_neg hallowed]
    cases hfind : s.groupFind handle with
    | none => exact Or.inl ⟨.refl s g, fun hrevokes => groupFind_none hfind g hg hrevokes.2.symm⟩
    | some k =>
      obtain ⟨hk, hhandle⟩ := groupFind_some hfind
      dsimp only
      set s₁ := s.modifyGroup k fun group => { group with state := .revoking }
      have hframe : Cancelled s₁ (s₁.groupCancel cfg k) := cancelled (s := s₁) h.ring k
      have hrun : (s₁.groupCancel cfg k).initRun = s.initRun := by
        rw [hframe.eq]
        rfl
      have hcallbacks : (s₁.groupCancel cfg k).init_callbacks = s.init_callbacks := by
        rw [hframe.eq]
        rfl
      by_cases hkg : k = g
      · subst hkg
        have hself : s₁.groups k = { s.groups k with state := .revoking } :=
          modifyGroup_groups_self _ _ _
        refine Or.inr ⟨⟨Bool.not_eq_false _ ▸ hallowed, hhandle.symm⟩, hrun, hcallbacks, ?_, ?_⟩
        · rw [hframe.evolves.handle, hself]
        · rcases hframe.groups k with hsame | hclosed
          · rw [hsame, hself]
            exact (by decide : GroupState.revoking ≤ GroupState.revoking)
          · rw [hclosed]
            exact (by decide : GroupState.revoking ≤ GroupState.revoked)
      · have hother : s₁.groups g = s.groups g := modifyGroup_groups_of_ne _ _ (Ne.symm hkg)
        refine Or.inl ⟨.of_groups hrun hcallbacks ?_, fun hrevokes => ?_⟩
        · rw [groupCancel_eq]
          split
          · exact hother
          · exact (modifyGroup_groups_of_ne _ _ (Ne.symm hkg)).trans hother
        · exact hkg (h.resident.eq_of_handle hk hg (hhandle.trans hrevokes.2))

/-! ## The calls between two callbacks -/

theorem sameRun_init (port : Port) (now : UInt32) (g : ℕ) :
    SameRun s (s.sectionStlInit port now).1 g := by
  unfold sectionStlInit
  split
  · exact .refl s _
  split
  · exact .refl s _
  split
  · exact .refl s _
  · exact .of_groups rfl rfl rfl

/-- Only a free slot is taken by a registration. -/
theorem Joint.sameRun_registers (h : s.Joint cfg xs none) (hg : g ∈ s.group_list) (port : Port)
    (image : Image) (group_id : UInt32) (p_entries : Option (ℕ → RegSection)) (count : ℕ)
    (p_handle : Bool) : SameRun s
      (s.sectionStlGroupRegister cfg port image group_id p_entries count p_handle).1 g := by
  unfold sectionStlGroupRegister
  split
  · exact .refl s _
  split
  · exact .refl s _
  split
  · exact .refl s _
  dsimp only
  generalize (List.range count).filterMap (fun i => p_entries.map (· i)) = table
  split
  · next k _ hfree =>
    have hzero : (s.groups k).handle.group_id = 0 := by simpa using List.find?_some hfree
    have hne : g ≠ k := by
      rintro rfl
      exact (h.resident.listed _ hg).2.1 hzero
    have hclaimed := claimed_table cfg image k (s.openGroup k ⟨group_id, s.generation + 1⟩) table
    rw [← registerCommit_eq] at hclaimed
    exact sameRun_register hclaimed hne
  · exact .refl s _

/-- A group is enabled only behind its initialization. -/
theorem sameRun_enable (hinit : (s.groups g).initialized = false) (port : Port) (handle : Handle) :
    SameRun s (s.sectionStlGroupEnable port handle).1 g := by
  refine onGroup_elim (P := fun s' => SameRun s s' g) (.refl s _) fun k _ => ?_
  split
  · next hready =>
    have hne : g ≠ k := by
      rintro rfl
      exact nomatch hinit.symm.trans hready.1
    dsimp only
    split
    · exact .of_groups rfl rfl (modifyGroup_groups_of_ne _ _ hne)
    · exact .of_groups rfl rfl (modifyGroup_groups_of_ne _ _ hne)
  · exact .refl s _

/-- A group that is initialized is disabled already, or being revoked. -/
theorem sameRun_disable (hstate : (s.groups g).state = .disabled ∨ (s.groups g).state = .revoking)
    (cfg : Config) (port : Port) (handle : Handle) :
    SameRun s (s.sectionStlGroupDisable cfg port handle).1 g := by
  refine onGroup_elim (P := fun s' => SameRun s s' g) (.refl s _) fun k _ => ?_
  split
  · next hmay =>
    refine .of_update (k := k) rfl rfl rfl fun hk => ?_
    subst hk
    refine ⟨rfl, ?_⟩
    rcases hstate with hdisabled | hrevoking
    · exact hdisabled.symm
    · rw [hrevoking] at hmay
      exact absurd (by decide) hmay
  · exact .refl s _

/-- A group that is busy is not paused. -/
theorem sameRun_pause (hbusy : (s.groups g).init_busy = true) (cfg : Config) (port : Port)
    (handle : Handle) : SameRun s (s.sectionStlGroupPause cfg port handle).1 g := by
  refine onGroup_elim (P := fun s' => SameRun s s' g) (.refl s _) fun k _ => ?_
  split
  · split
    · next hready =>
      refine .of_update (k := k) rfl rfl rfl fun hk => ?_
      subst hk
      exact nomatch hbusy.symm.trans (groupExecuting_eq_false.mp hready.1).1
    · exact .refl s _
  · exact .refl s _

theorem sameRun_acquire (port : Port) (handle : Handle) (g : ℕ) :
    SameRun s (s.sectionStlGroupAcquire port handle).1 g := by
  refine onGroup_elim (P := fun s' => SameRun s s' g) (.refl s _) fun k _ => ?_
  split
  · exact .of_update rfl rfl rfl fun _ => ⟨rfl, rfl⟩
  · exact .refl s _

theorem sameRun_release (port : Port) (handle : Handle) (g : ℕ) :
    SameRun s (s.sectionStlGroupRelease port handle).1 g := by
  refine onGroup_elim (P := fun s' => SameRun s s' g) (.refl s _) fun k _ => ?_
  split
  · exact .of_update rfl rfl rfl fun _ => ⟨rfl, rfl⟩
  · exact .refl s _

theorem sameRun_quiescent (cfg : Config) (port : Port) (handle : Handle) (g : ℕ) :
    SameRun s (s.sectionStlGroupQuiescent cfg port handle).1 g := by
  unfold sectionStlGroupQuiescent
  split
  · exact .refl s _
  split
  · exact .refl s _
  dsimp only
  split
  · exact .of_groups rfl rfl rfl
  · split
    · exact .of_update rfl rfl rfl fun _ => ⟨rfl, rfl⟩
    · exact .of_groups rfl rfl rfl

/-- A group that is busy is not retired. -/
theorem sameRun_forget (hbusy : (s.groups g).init_busy = true) (cfg : Config) (port : Port)
    (handle : Handle) : SameRun s (s.sectionStlGroupForget cfg port handle).1 g := by
  unfold sectionStlGroupForget
  split
  · exact .refl s _
  split
  · exact .refl s _
  split
  · exact .refl s _
  next k _ =>
  split
  · next hready =>
    dsimp only
    have hne : g ≠ k := by
      rintro rfl
      have hidle := (groupRetired_iff.mp hready.1).2.1
      cases hbusy.symm.trans (groupExecuting_eq_false.mp hidle).1
    rw [clearTasks_eq s (s.groups k).tasks]
    exact .of_groups rfl rfl (modifyGroup_groups_of_ne _ _ hne)
  · exact .refl s _

theorem sameRun_tick (port : Port) (now : UInt32) (g : ℕ) :
    SameRun s (s.sectionStlTick port now).1 g := by
  have hcases := tick_cases port s now
  cases hscan : s.tickScan port now with
  | none =>
    rw [hscan] at hcases
    rcases hcases with hsame | ⟨-, htick⟩
    · rw [hsame]
      exact .refl s _
    · rw [htick]
      exact .of_groups rfl rfl rfl
  | some u =>
    rw [hscan] at hcases
    obtain ⟨-, rfl, hdue⟩ := hcases
    rw [hdue, (activated_due _).eq]
    exact .of_groups rfl rfl rfl

theorem sameRun_requestNative (port : Port) (g : ℕ) :
    SameRun s (s.sectionStlRequestNative port).1 g := by
  unfold sectionStlRequestNative
  split
  · exact .refl s _
  split
  · exact .refl s _
  split
  · exact .refl s _
  split
  · exact .of_groups rfl rfl rfl
  · exact .refl s _

theorem sameRun_entryCall (s : State) (g : ℕ) : SameRun s s.entryCall g := by
  unfold entryCall
  split
  · exact .refl s _
  · exact .of_groups rfl rfl rfl

/-- **A call between two callbacks** leaves the transaction alone, or it revokes the group. -/
theorem Joint.exec_sameRun (h : s.Joint cfg xs none) (hrun : s.initRun = some run)
    {action : Action} (hnext : action ≠ .initializeNext) :
    SameRun s (s.exec cfg action) run.group ∧ ¬ action.Revokes (s.groups run.group).handle ∨
      action.Revokes (s.groups run.group).handle ∧ (s.exec cfg action).initRun = s.initRun ∧
        (s.exec cfg action).init_callbacks = s.init_callbacks ∧
        ((s.exec cfg action).groups run.group).handle = (s.groups run.group).handle ∧
        .revoking ≤ ((s.exec cfg action).groups run.group).state := by
  obtain ⟨hg, hbusy, hinit, hstate⟩ := h.busy hrun
  cases action with
  | initializeNext => exact absurd rfl hnext
  | init port now => exact Or.inl ⟨sameRun_init port now _, id⟩
  | register port image group_id p_entries count p_handle =>
    exact Or.inl ⟨h.sameRun_registers hg port image group_id p_entries count p_handle, id⟩
  | initializeBegin port image handle p_entries count =>
    refine Or.inl ⟨?_, id⟩
    obtain ⟨result, -, hrefused⟩ :=
      initialize_refused hg hbusy cfg port image handle p_entries count
    show SameRun s (s.sectionStlGroupInitialize cfg port image handle p_entries count).1 _
    rw [hrefused]
    exact .refl s _
  | enable port handle => exact Or.inl ⟨sameRun_enable hinit port handle, id⟩
  | disable port handle => exact Or.inl ⟨sameRun_disable hstate cfg port handle, id⟩
  | pause port handle => exact Or.inl ⟨sameRun_pause hbusy cfg port handle, id⟩
  | revoke port handle => exact h.revoke_sameRun hg port handle
  | acquire port handle => exact Or.inl ⟨sameRun_acquire port handle _, id⟩
  | release port handle => exact Or.inl ⟨sameRun_release port handle _, id⟩
  | quiescent port handle => exact Or.inl ⟨sameRun_quiescent cfg port handle _, id⟩
  | forget port handle => exact Or.inl ⟨sameRun_forget hbusy cfg port handle, id⟩
  | tick port now => exact Or.inl ⟨sameRun_tick port now _, id⟩
  | requestNative port => exact Or.inl ⟨sameRun_requestNative port _, id⟩
  | switch port p_saved_sp =>
    obtain ⟨ys, hturn⟩ := h.switch port p_saved_sp
    exact Or.inl ⟨sameRun_evolves hrun ⟨ys, hturn.joint⟩ hturn.evolves
      (switch_init_callbacks cfg port s p_saved_sp), id⟩
  | callback => exact Or.inl ⟨sameRun_entryCall s _, id⟩
  | complete port outcome_running =>
    obtain ⟨ys, hturn⟩ := h.complete port outcome_running
    exact Or.inl ⟨sameRun_evolves hrun ⟨ys, hturn.joint⟩ hturn.evolves
      (complete_init_callbacks cfg port s outcome_running), id⟩
  | write i word => exact Or.inl ⟨.of_groups rfl rfl rfl, id⟩

/-! ## Runs -/

/-- How many steps of a callback have been taken. -/
def pointSteps : InitPoint → ℕ
  | .check => 0
  | .call | .leave => 1

/-- The transaction of the group runs, with so many callbacks called. -/
structure Initializing (cfg : Config) (s : State) (handle : Handle) (callbacks : List RegInit)
    (g index : ℕ) (point : InitPoint) : Prop where
  joint : ∃ xs, s.Joint cfg xs none
  run : s.initRun = some ⟨g, index, callbacks.length, point⟩
  handle_eq : (s.groups g).handle = handle
  callbacks_eq : s.init_callbacks = callbacks
  index_le : index + pointSteps point ≤ callbacks.length
  leaving : point = .leave → .revoking ≤ (s.groups g).state

namespace Initializing
variable {index : ℕ} {point : InitPoint}

/-- What the transaction calls next. -/
theorem initCall_eq (h : Initializing cfg s handle callbacks g index point) :
    s.initCall = if point = .call then callbacks[index]? else none := by
  unfold initCall
  rw [h.run, h.callbacks_eq]
  rfl

/-- The state of the group is looked at. -/
theorem check (h : Initializing cfg s handle callbacks g index .check)
    (hlt : index < callbacks.length) :
    s.initializeNext.2 = none ∧ (s.initializeNext.1.groups g).state = (s.groups g).state ∧
      Initializing cfg s.initializeNext.1 handle callbacks g index
        (if .revoking ≤ (s.groups g).state then .leave else .call) := by
  obtain ⟨⟨xs, hjoint⟩, hrun, hhandle, hcallbacks, -⟩ := h
  have hstep : Step cfg True s s.initializeNext.1 := hjoint.step_initializeNext
  have hjoint' := hstep.joint
  have hnext : s.initializeNext = ({ s with initRun := some ⟨g, index, callbacks.length,
      if .revoking ≤ (s.groups g).state then .leave else .call⟩ }, none) := by
    unfold initializeNext
    rw [hrun]
    dsimp only
    rw [if_neg (by decide), if_pos ⟨rfl, hlt⟩]
  rw [hnext] at hjoint' ⊢
  refine ⟨rfl, rfl, hjoint', rfl, hhandle, hcallbacks, ?_, fun hleave => ?_⟩
  · split <;> exact hlt
  · by_contra hmay
    rw [if_neg hmay] at hleave
    exact nomatch hleave

/-- The callback that has been admitted is called. -/
theorem call (h : Initializing cfg s handle callbacks g index .call) :
    s.initializeNext.2 = none ∧ (s.initializeNext.1.groups g).state = (s.groups g).state ∧
      Initializing cfg s.initializeNext.1 handle callbacks g (index + 1) .check := by
  obtain ⟨⟨xs, hjoint⟩, hrun, hhandle, hcallbacks, hle, -⟩ := h
  have hstep : Step cfg True s s.initializeNext.1 := hjoint.step_initializeNext
  have hjoint' := hstep.joint
  have hnext : s.initializeNext = ({ s with
      initRun := some ⟨g, index + 1, callbacks.length, .check⟩
      history := { s.history with started := s.history.started ++ [(s.groups g).handle] } },
      none) := by
    unfold initializeNext
    rw [hrun]
    exact if_pos rfl
  rw [hnext] at hjoint' ⊢
  exact ⟨rfl, rfl, hjoint', rfl, hhandle, hcallbacks, hle, nofun⟩

/-- The transaction ends. -/
theorem finish (h : Initializing cfg s handle callbacks g index point) (hcall : point ≠ .call)
    (hend : ¬ (point = .check ∧ index < callbacks.length)) :
    s.initializeNext.2 = some (if .revoking ≤ (s.groups g).state then .badState else .ok) := by
  unfold initializeNext
  rw [h.run]
  dsimp only
  rw [if_neg hcall, if_neg hend]
  unfold initializeEnd
  dsimp only
  split <;> rfl

/-- Other calls leave the transaction where it is. -/
theorem exec (h : Initializing cfg s handle callbacks g index point) {action : Action}
    (hnext : action ≠ .initializeNext) :
    Initializing cfg (s.exec cfg action) handle callbacks g index point ∧
      (.revoking ≤ ((s.exec cfg action).groups g).state ↔
        .revoking ≤ (s.groups g).state ∨ action.Revokes handle) := by
  obtain ⟨⟨xs, hjoint⟩, hrun, hhandle, hcallbacks, hle, hleaving⟩ := h
  have hexec := hjoint.exec_sameRun hrun hnext
  dsimp only at hexec
  rw [hhandle] at hexec
  have hjoint' := (hjoint.exec action).joint
  rcases hexec with ⟨hsame, hnot⟩ | ⟨hrevokes, hrun', hcallbacks', hhandle', hrevoking⟩
  · refine ⟨⟨hjoint', hsame.initRun.trans hrun, hsame.handle.trans hhandle,
      hsame.init_callbacks.trans hcallbacks, hle, fun hpoint => ?_⟩, ?_⟩
    · rw [hsame.state]
      exact hleaving hpoint
    · rw [hsame.state]
      exact ⟨Or.inl, fun hor => hor.resolve_right hnot⟩
  · exact ⟨⟨hjoint', hrun'.trans hrun, hhandle', hcallbacks'.trans hcallbacks, hle,
      fun _ => hrevoking⟩, iff_of_true hrevoking (Or.inr hrevokes)⟩

end Initializing

theorem initialization_other {action : Action} (hnext : action ≠ .initializeNext)
    (actions : List Action) : initialization cfg s (action :: actions) =
      initialization cfg (s.exec cfg action) actions := by
  cases action with
  | initializeNext => exact absurd rfl hnext
  | _ => rfl

theorem initialization_call (hnext : s.initializeNext.2 = none) (actions : List Action) :
    initialization cfg s (.initializeNext :: actions) =
      (s.initCall.toList ++ (initialization cfg s.initializeNext.1 actions).1,
        (initialization cfg s.initializeNext.1 actions).2) := by
  cases hout : s.initializeNext with
  | mk s' result =>
    rw [hout] at hnext
    obtain rfl : result = none := hnext
    simp [initialization, hout]

theorem initialization_finish {result : Status} (hnext : s.initializeNext.2 = some result)
    (actions : List Action) :
    initialization cfg s (.initializeNext :: actions) = ([], some result) := by
  cases hout : s.initializeNext with
  | mk s' out =>
    rw [hout] at hnext
    obtain rfl : out = some result := hnext
    simp [initialization, hout]

/-- A transaction that still runs goes on where it is. -/
theorem initialization_append {before : List Action} (after : List Action)
    (hrunning : (initialization cfg s before).2 = none) :
    initialization cfg s (before ++ after) =
      ((initialization cfg s before).1 ++ (initialization cfg (before.foldl (exec cfg) s) after).1,
        (initialization cfg (before.foldl (exec cfg) s) after).2) := by
  induction before generalizing s with
  | nil => rfl
  | cons action before ih =>
    rw [List.cons_append, List.foldl_cons]
    by_cases hnext : action = .initializeNext
    · subst hnext
      cases hresult : s.initializeNext.2 with
      | none =>
        rw [initialization_call hresult] at hrunning ⊢
        rw [initialization_call hresult, ih hrunning, List.append_assoc]
        rfl
      | some result =>
        rw [initialization_finish hresult] at hrunning
        exact nomatch hrunning
    · rw [initialization_other hnext] at hrunning ⊢
      rw [initialization_other hnext, ih hrunning]

/-- What a transaction does from some point on. -/
structure Serves (cfg : Config) (s : State) (handle : Handle) (callbacks : List RegInit)
    (g index : ℕ) (point : InitPoint) (actions : List Action) : Prop where
  order : (initialization cfg s actions).1 <+: callbacks.drop index
  running : (initialization cfg s actions).2 = none → ∃ point',
    Initializing cfg (actions.foldl (State.exec cfg) s) handle callbacks g
      (index + (initialization cfg s actions).1.length) point' ∧
    actions.countP Action.isNext + pointSteps point =
      2 * (initialization cfg s actions).1.length + pointSteps point'
  revoked : .revoking ≤ (s.groups g).state →
    (initialization cfg s actions).1 <+: s.initCall.toList ∧
    ∀ result, (initialization cfg s actions).2 = some result → result = .badState
  complete : ¬ .revoking ≤ (s.groups g).state → (∀ action ∈ actions, ¬ action.Revokes handle) →
    ∀ result, (initialization cfg s actions).2 = some result →
      result = .ok ∧ (initialization cfg s actions).1 = callbacks.drop index

namespace Serves
variable {index : ℕ} {point : InitPoint} {actions : List Action}

/-- The look at the group comes first. -/
theorem of_check (h : Initializing cfg s handle callbacks g index .check)
    (hlt : index < callbacks.length)
    (hserves : Serves cfg s.initializeNext.1 handle callbacks g index
      (if .revoking ≤ (s.groups g).state then .leave else .call) actions) :
    Serves cfg s handle callbacks g index .check (.initializeNext :: actions) := by
  obtain ⟨hnone, hstate, hinit⟩ := h.check hlt
  obtain ⟨horder, hrunning, hrevoked, hcomplete⟩ := hserves
  have hcall : s.initCall = none := h.initCall_eq
  have heq : initialization cfg s (.initializeNext :: actions) =
      initialization cfg s.initializeNext.1 actions := by
    rw [initialization_call hnone, hcall]
    rfl
  have hcount : (Action.initializeNext :: actions).countP Action.isNext =
      actions.countP Action.isNext + 1 := List.countP_cons_of_pos rfl
  have hsteps : pointSteps (if .revoking ≤ (s.groups g).state then .leave else .call) = 1 := by
    split <;> rfl
  rw [hsteps] at hrunning
  refine ⟨by rwa [heq], fun hresult => ?_, fun hrevoking => ?_, fun hmay hacts => ?_⟩
  · rw [heq] at hresult ⊢
    rw [hcount]
    exact hrunning hresult
  · -- what has not been admitted is not called any more
    rw [heq, hcall]
    rw [hstate, hinit.initCall_eq, if_pos hrevoking, if_neg (by decide)] at hrevoked
    exact hrevoked hrevoking
  · rw [heq]
    exact hcomplete (by rwa [hstate]) fun action ha => hacts action (List.mem_cons_of_mem _ ha)

/-- The callback that has been admitted comes first. -/
theorem of_call (h : Initializing cfg s handle callbacks g index .call)
    (hserves : Serves cfg s.initializeNext.1 handle callbacks g (index + 1) .check actions) :
    Serves cfg s handle callbacks g index .call (.initializeNext :: actions) := by
  have hlt : index < callbacks.length := h.index_le
  obtain ⟨hnone, hstate, hinit⟩ := h.call
  obtain ⟨horder, hrunning, hrevoked, hcomplete⟩ := hserves
  have hcall : s.initCall = some callbacks[index] :=
    h.initCall_eq.trans (List.getElem?_eq_getElem hlt)
  have heq : initialization cfg s (.initializeNext :: actions) =
      (callbacks[index] :: (initialization cfg s.initializeNext.1 actions).1,
        (initialization cfg s.initializeNext.1 actions).2) := by
    rw [initialization_call hnone, hcall]
    rfl
  have hdrop : callbacks.drop index = callbacks[index] :: callbacks.drop (index + 1) :=
    List.drop_eq_getElem_cons hlt
  have hcount : (Action.initializeNext :: actions).countP Action.isNext =
      actions.countP Action.isNext + 1 := List.countP_cons_of_pos rfl
  refine ⟨?_, fun hresult => ?_, fun hrevoking => ?_, fun hmay hacts result hresult => ?_⟩
  · rw [heq, hdrop]
    exact List.cons_prefix_cons.mpr ⟨rfl, horder⟩
  · rw [heq] at hresult ⊢
    obtain ⟨point', hinit', hsteps⟩ := hrunning hresult
    refine ⟨point', ?_, ?_⟩
    · rw [List.length_cons, Nat.add_comm _ 1, ← Nat.add_assoc]
      exact hinit'
    · have hcheck : pointSteps .check = 0 := rfl
      have hcalled : pointSteps .call = 1 := rfl
      rw [hcount, List.length_cons]
      omega
  · -- the callback after it is not admitted any more
    rw [heq, hcall]
    rw [hstate, hinit.initCall_eq] at hrevoked
    obtain ⟨hsilent, hfails⟩ := hrevoked hrevoking
    exact ⟨List.cons_prefix_cons.mpr ⟨rfl, hsilent⟩, hfails⟩
  · rw [heq] at hresult ⊢
    obtain ⟨hok, hall⟩ := hcomplete (by rwa [hstate])
      (fun action ha => hacts action (List.mem_cons_of_mem _ ha)) result hresult
    exact ⟨hok, by rw [hdrop, hall]⟩

/-- The transaction returns. -/
theorem of_finish (h : Initializing cfg s handle callbacks g index point) (hcall : point ≠ .call)
    (hend : ¬ (point = .check ∧ index < callbacks.length)) :
    Serves cfg s handle callbacks g index point (.initializeNext :: actions) := by
  have heq : initialization cfg s (.initializeNext :: actions) =
      ([], some (if .revoking ≤ (s.groups g).state then .badState else .ok)) :=
    initialization_finish (h.finish hcall hend) actions
  refine ⟨by rw [heq]; exact List.nil_prefix, fun hresult => ?_, fun hrevoking => ?_,
    fun hmay _ result hresult => ?_⟩
  · rw [heq] at hresult
    exact nomatch hresult
  · rw [heq, if_pos hrevoking]
    exact ⟨List.nil_prefix, fun result hresult => (Option.some.inj hresult).symm⟩
  · rw [heq, if_neg hmay] at hresult
    have hcheck : point = .check := by
      cases point with
      | check => rfl
      | call => exact absurd rfl hcall
      | leave => exact absurd (h.leaving rfl) hmay
    rw [heq]
    refine ⟨(Option.some.inj hresult).symm, (List.drop_eq_nil_of_le ?_).symm⟩
    exact Nat.le_of_not_lt fun hlt => hend ⟨hcheck, hlt⟩

/-- Another call comes first. -/
theorem of_other (h : Initializing cfg s handle callbacks g index point) {action : Action}
    (hnext : action ≠ .initializeNext)
    (hserves : Serves cfg (s.exec cfg action) handle callbacks g index point actions) :
    Serves cfg s handle callbacks g index point (action :: actions) := by
  obtain ⟨hinit, hiff⟩ := h.exec hnext
  obtain ⟨horder, hrunning, hrevoked, hcomplete⟩ := hserves
  have heq : initialization cfg s (action :: actions) =
      initialization cfg (s.exec cfg action) actions := initialization_other hnext actions
  have hcount : (action :: actions).countP Action.isNext = actions.countP Action.isNext := by
    refine List.countP_cons_of_neg ?_
    cases action with
    | initializeNext => exact absurd rfl hnext
    | _ => exact Bool.false_ne_true
  refine ⟨by rwa [heq], ?_, fun hrevoking => ?_, fun hmay hacts => ?_⟩
  · rw [heq, hcount]
    exact hrunning
  · rw [heq, h.initCall_eq, ← hinit.initCall_eq]
    exact hrevoked (hiff.mpr (Or.inl hrevoking))
  · rw [heq]
    refine hcomplete (fun hrevoking => ?_) fun a ha => hacts a (List.mem_cons_of_mem _ ha)
    rcases hiff.mp hrevoking with hold | hrevokes
    · exact hmay hold
    · exact hacts action List.mem_cons_self hrevokes

end Serves

/-- **A run of the transaction.** -/
theorem Initializing.serves {index : ℕ} {point : InitPoint}
    (h : Initializing cfg s handle callbacks g index point) (actions : List Action) :
    Serves cfg s handle callbacks g index point actions := by
  induction actions generalizing s index point with
  | nil =>
    exact ⟨List.nil_prefix, fun _ => ⟨point, h, rfl⟩, fun _ => ⟨List.nil_prefix, nofun⟩,
      fun _ _ => nofun⟩
  | cons action actions ih =>
    by_cases hnext : action = .initializeNext
    · subst hnext
      by_cases hcall : point = .call
      · subst hcall
        exact .of_call h (ih h.call.2.2)
      · by_cases hgo : point = .check ∧ index < callbacks.length
        · obtain ⟨rfl, hlt⟩ := hgo
          exact .of_check h hlt (ih (h.check hlt).2.2)
        · exact .of_finish h hcall hgo
    · exact .of_other h hnext (ih (h.exec hnext).1)

/-- A call of `section_stl_group_initialize` that goes on has its callbacks sorted. -/
theorem initialize_start (h : (runs cfg).Reachable s) {p_entries : Option (ℕ → RegSection)}
    {count : ℕ}
    (hok : s.sectionStlGroupInitialize cfg port image handle p_entries count = (s', .ok)) :
    ∃ callbacks g, StableSort (fun init => init.priority.toInt)
        (initEntries image ((List.range count).filterMap fun i => p_entries.map (· i))) callbacks ∧
      Initializing cfg s' handle callbacks g 0 .check ∧ ¬ .revoking ≤ (s'.groups g).state := by
  obtain ⟨xs, hjoint⟩ := joint_of_reachable h
  have hstep : Step cfg True s s' := by
    have hstep : Step cfg True s
        (s.sectionStlGroupInitialize cfg port image handle p_entries count).1 :=
      hjoint.step_initialize port image handle p_entries count
    rwa [hok] at hstep
  unfold sectionStlGroupInitialize at hok
  split at hok
  · exact nomatch (Prod.mk.inj hok).2
  split at hok
  · exact nomatch (Prod.mk.inj hok).2
  split at hok
  · exact nomatch (Prod.mk.inj hok).2
  dsimp only at hok
  generalize (List.range count).filterMap (fun i => p_entries.map (· i)) = table at hok ⊢
  split at hok
  · next g hcheck hfind =>
    obtain ⟨hg, hhandle⟩ := groupFind_some hfind
    split at hok
    · exact nomatch (Prod.mk.inj hok).2
    · next callbacks hcollect =>
      obtain ⟨rfl, -⟩ := Prod.mk.inj hok
      have hself : (State.groups ({ s with
          init_callbacks := callbacks
          initRun := some ⟨g, 0, callbacks.length, .check⟩ }.modifyGroup g
            fun group => { group with init_busy := true }) g) =
          { s.groups g with init_busy := true } := modifyGroup_groups_self _ _ _
      refine ⟨callbacks, g, collectInits_sort .nil hcollect,
        ⟨hstep.joint, rfl, ?_, rfl, Nat.zero_le _, nofun⟩, ?_⟩
      · rw [hself]
        exact hhandle
      · obtain ⟨k, hk, hstate, -⟩ := initializeCheck_ok hcheck
        obtain rfl := Option.some.inj (hfind.symm.trans hk)
        rw [hself]
        show ¬ GroupState.revoking ≤ (s.groups g).state
        rw [hstate]
        decide
  · next hnone =>
    obtain ⟨-, hcheck⟩ := Prod.mk.inj hok
    obtain ⟨g, hfind, -⟩ := initializeCheck_ok hcheck
    exact absurd hfind (hnone g hcheck)

/-- **The order of initialization.** A call that is admitted calls the callbacks of its
table in the order of their priorities, those of one priority in the order of the table,
each at most once. When it returns without a revocation of its group it has called all of
them. From a revocation on it calls at most the one that it has admitted, where the revocation
has come between the lock of its check and the call, and it fails. It returns at its next step
behind the last of them. While it runs its callbacks and its group are kept, and every other
initialization is turned away without an effect. -/
theorem group_initialize_order (h : (runs cfg).Reachable s) {p_entries : Option (ℕ → RegSection)}
    {count : ℕ}
    (hok : s.sectionStlGroupInitialize cfg port image handle p_entries count = (s', .ok)) :
    ∃ callbacks, StableSort (fun init => init.priority.toInt)
        (initEntries image ((List.range count).filterMap fun i => p_entries.map (· i))) callbacks ∧
      ∀ actions,
        (initialization cfg s' actions).1 <+: callbacks ∧
        ((∀ action ∈ actions, ¬ action.Revokes handle) →
          ∀ result, (initialization cfg s' actions).2 = some result →
            result = .ok ∧ (initialization cfg s' actions).1 = callbacks) ∧
        (∀ (before : List Action) (revoke : Action) (after : List Action),
            actions = before ++ revoke :: after → revoke.Revokes handle →
          (initialization cfg s' before).2 = none →
          (∃ late, late <+: (before.foldl (exec cfg) s').initCall.toList ∧
            (initialization cfg s' actions).1 = (initialization cfg s' before).1 ++ late) ∧
            ∀ result, (initialization cfg s' actions).2 = some result → result = .badState) ∧
        (2 * callbacks.length < actions.countP Action.isNext →
          (initialization cfg s' actions).2 ≠ none) ∧
        ((initialization cfg s' actions).2 = none →
          (actions.foldl (exec cfg) s').init_callbacks = callbacks ∧
          (∃ run, (actions.foldl (exec cfg) s').initRun = some run ∧
            ((actions.foldl (exec cfg) s').groups run.group).handle = handle) ∧
          ∀ port image handle p_entries count, ∃ result, result ≠ .ok ∧
            (actions.foldl (exec cfg) s').sectionStlGroupInitialize cfg port image handle p_entries
              count = (actions.foldl (exec cfg) s', result)) := by
  obtain ⟨callbacks, g, hsort, hinit, hmay⟩ := initialize_start h hok
  refine ⟨callbacks, hsort, fun actions => ?_⟩
  obtain ⟨horder, hrunning, -, hcomplete⟩ := hinit.serves actions
  refine ⟨horder, hcomplete hmay, fun before revoke after hactions hrevokes hnone => ?_,
    fun hlt hnone => ?_, fun hnone => ?_⟩
  · -- from the revocation on the transaction serves a group that is being revoked
    obtain ⟨point, hhere, -⟩ := (hinit.serves before).running hnone
    have hnext : revoke ≠ .initializeNext := by
      rintro rfl
      exact hrevokes
    obtain ⟨hrevoked, hiff⟩ := hhere.exec hnext
    obtain ⟨hlate, hfails⟩ := (hrevoked.serves after).revoked (hiff.mpr (Or.inr hrevokes))
    rw [hrevoked.initCall_eq, ← hhere.initCall_eq] at hlate
    rw [hactions, initialization_append _ hnone, initialization_other hnext]
    exact ⟨⟨_, hlate, rfl⟩, hfails⟩
  · obtain ⟨point, hhere, hcount⟩ := hrunning hnone
    have hle := hhere.index_le
    have hsteps : pointSteps point ≤ 1 := by
      cases point <;> decide
    have hzero : pointSteps .check = 0 := rfl
    omega
  · obtain ⟨point, hhere, -⟩ := hrunning hnone
    obtain ⟨xs, hjoint⟩ := hhere.joint
    obtain ⟨hg, hbusy, -⟩ := hjoint.busy hhere.run
    exact ⟨hhere.callbacks_eq, ⟨_, hhere.run, hhere.handle_eq⟩,
      fun port image handle p_entries count => initialize_refused hg hbusy cfg port image handle
        p_entries count⟩

end State

/-- Two callbacks, the more urgent one behind the other. -/
def initImage : Image :=
  ⟨fun _ => none, fun p => some ⟨if p = 0x20000000 then 5 else -1, some p⟩⟩

def initTable : ℕ → RegSection := fun i => ⟨0, some (0x20000000 + UInt32.ofNat (4 * i))⟩

/-- The group is registered. -/
def registeredState : State :=
  [.init .native 0, .register .native initImage 7 none 0 true].foldl (State.exec demoConfig)
    (State.reset (fun _ => 0) (fun _ => 0))

/-- The initialization is admitted. -/
def initializingState : State :=
  (registeredState.sectionStlGroupInitialize demoConfig .native initImage demoHandle
    (some initTable) 2).1

def urgentInit : RegInit := ⟨-1, some 0x20000004⟩

def laterInit : RegInit := ⟨5, some 0x20000000⟩

/-- An interrupt that the port admits. -/
def Port.interrupt : Port := { Port.native with in_handler := true }

/-- The revocation comes between the two callbacks. -/
def revokedActions : List Action :=
  List.replicate 2 Action.initializeNext ++ Action.revoke .interrupt demoHandle ::
    List.replicate 2 Action.initializeNext

theorem registeredState_order :
    StableSort (fun init => init.priority.toInt) [laterInit, urgentInit] [urgentInit, laterInit] ∧
    State.initialization demoConfig initializingState (List.replicate 5 .initializeNext) =
      ([urgentInit, laterInit], some .ok) ∧
    State.initialization demoConfig initializingState revokedActions =
      ([urgentInit], some .badState) := by
  have hok : (registeredState.sectionStlGroupInitialize demoConfig .native initImage demoHandle
      (some initTable) 2).2 = .ok := by decide
  obtain ⟨callbacks, hsort, hrun⟩ :=
    State.group_initialize_order (reachable_foldl _ _ _) (Prod.ext rfl hok)
  have hreturns : (State.initialization demoConfig initializingState
      (List.replicate 5 .initializeNext)).2 = some .ok := by decide
  obtain ⟨-, hall⟩ := (hrun (List.replicate 5 .initializeNext)).2.1
    (fun action ha => by rw [List.eq_of_mem_replicate ha]; exact id) .ok hreturns
  have hcalls : (State.initialization demoConfig initializingState
      (List.replicate 5 .initializeNext)).1 = [urgentInit, laterInit] := by decide
  obtain rfl : callbacks = [urgentInit, laterInit] := hall.symm.trans hcalls
  have hrevoked := (hrun revokedActions).2.2.1 (List.replicate 2 .initializeNext)
    (.revoke .interrupt demoHandle) (List.replicate 2 .initializeNext) rfl ⟨rfl, rfl⟩ (by decide)
  obtain ⟨⟨late, hlate, hcalled⟩, hfails⟩ := hrevoked
  -- nothing has been admitted behind the first callback
  obtain rfl : late = [] := List.prefix_nil.mp hlate
  refine ⟨hsort, Prod.ext hcalls hreturns, Prod.ext (hcalled.trans (by decide)) ?_⟩
  obtain ⟨result, hresult⟩ : ∃ result,
      (State.initialization demoConfig initializingState revokedActions).2 = some result :=
    Option.isSome_iff_exists.mp (by decide)
  exact hresult.trans (congrArg some (hfails result hresult))

/-- The revocation comes behind the lock of the check, and the callback is called after it. -/
theorem init_called_after_revoke : (runs demoConfig).Reachable registeredState ∧
    (registeredState.sectionStlGroupInitialize demoConfig .native initImage demoHandle
      (some initTable) 2).2 = .ok ∧
    (Action.revoke .interrupt demoHandle).Revokes demoHandle ∧
    (State.initialization demoConfig initializingState [.initializeNext]).1 = [] ∧
    (State.initialization demoConfig initializingState
      [.initializeNext, .revoke .interrupt demoHandle, .initializeNext]).1 = [urgentInit] :=
  ⟨reachable_foldl _ _ _, by decide, ⟨rfl, rfl⟩, by decide, by decide⟩

end Atoman.SectionStl
