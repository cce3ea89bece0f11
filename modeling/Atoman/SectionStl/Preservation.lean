import Atoman.SectionStl.Completion

/-!
# What every call keeps

Each call keeps the tables in order. No incarnation of a group comes back, a group that is
revoked stays so, and only code of groups that are not revoked starts or goes on. A fault
has a cause outside the core.
-/

namespace Atoman.SectionStl

/-- The environment keeps its part: it hands over frames, leaves the guard words alone and
commits owners. -/
def Action.Sound (cfg : Config) (s : State) : Action → Prop
  | .switch port p_saved_sp => port.Commits ∧ s.RunningFrame cfg p_saved_sp
  | .complete port _ => port.Commits
  | .write i _ => stlGuardWords ≤ i
  | _ => True

namespace State
variable {cfg : Config} {s s' s'' : State} {xs ys : List ℕ} {g t : ℕ} {port : Port}
  {sound sound' : Prop} {handle : Handle}

/-- What one step of the core does. -/
structure Step (cfg : Config) (sound : Prop) (s s' : State) : Prop where
  joint : ∃ ys, s'.Joint cfg ys none
  generation : s.generation ≤ s'.generation
  /-- a handle that was given out is not given out again, and stays revoked -/
  old : ∀ g' ∈ s'.group_list, (s'.groups g').handle.generation ≤ s.generation →
    ∃ g ∈ s.group_list, (s.groups g).handle = (s'.groups g').handle ∧
      ((s.groups g).state = .revoked → (s'.groups g').state = .revoked)
  started : s'.history.started = s.history.started ∨
    ∃ g ∈ s.group_list, (s.groups g).state ≠ .revoked ∧
      s'.history.started = s.history.started ++ [(s.groups g).handle]
  restored : s'.history.restored = s.history.restored ∨
    ∃ g ∈ s.group_list, (s.groups g).state ≠ .revoked ∧ ∃ captured,
      s'.history.restored =
        s.history.restored ++ [Restoration.mk (s.groups g).handle captured captured]
  sound : sound → s.Armed → s.fault = .ok → s'.fault = .ok ∧ s'.Armed

/-- A step that registers and forgets no group. -/
theorem Step.of_groups (hjoint : s'.Joint cfg ys none) (hlist : s'.group_list = s.group_list)
    (hgeneration : s'.generation = s.generation)
    (hhandle : ∀ k, (s'.groups k).handle = (s.groups k).handle)
    (hrevoked : ∀ k ∈ s.group_list, (s.groups k).state = .revoked → (s'.groups k).state = .revoked)
    (hhistory : s'.history = s.history)
    (hsound : sound → s.Armed → s.fault = .ok → s'.fault = .ok ∧ s'.Armed) :
    Step cfg sound s s' := by
  refine ⟨⟨ys, hjoint⟩, ?_, fun k hk _ => ?_, Or.inl (by rw [hhistory]), Or.inl (by rw [hhistory]),
    hsound⟩
  · rw [hgeneration]
    exact Nat.le_refl _
  · rw [hlist] at hk
    exact ⟨k, hk, (hhandle k).symm, hrevoked k hk⟩

/-- A step that changes nothing that the tables depend on. -/
theorem Joint.step_same (h : s.Joint cfg xs none) (hs : Same s s')
    (hhistory : s'.history = s.history)
    (harmed : sound → s.Armed → s'.Armed) : Step cfg sound s s' :=
  .of_groups (h.same hs) hs.group_list hs.generation hs.handle
    (fun k _ hk => (hs.group_state k).trans hk) hhistory
    fun hsound ha hok => ⟨hs.fault.trans hok, harmed hsound ha⟩

theorem Joint.step_refl (h : s.Joint cfg xs none) : Step cfg sound s s :=
  h.step_same (.refl s) rfl fun _ ha => ha

/-- A switch or a completion is a step. -/
theorem Turn.step (h : Turn cfg sound s s' xs ys) : Step cfg sound s s' := by
  have hgeneration : s.generation ≤ s'.generation := by
    rw [h.evolves.generation]
    exact Nat.le_refl _
  refine ⟨⟨ys, h.joint⟩, hgeneration, fun k hk _ => ?_, Or.inl h.evolves.started, ?_, h.sound⟩
  · rw [h.evolves.group_list] at hk
    refine ⟨k, hk, (h.evolves.handle k).symm, fun hrevoked => ?_⟩
    rcases h.evolves.groups k with hsame | hclosed
    · rw [hsame]
      exact hrevoked
    · rw [hclosed]
  · rcases h.restored with hsame | ⟨k, hk, hmay, captured, hnew⟩
    · exact Or.inl hsame
    · refine Or.inr ⟨k, hk, fun heq => hmay ?_, captured, hnew⟩
      rw [heq]
      decide

/-- A step that changes one group. -/
theorem Step.of_update {group : Group} (hjoint : s'.Joint cfg ys none)
    (hlist : s'.group_list = s.group_list) (hgeneration : s'.generation = s.generation)
    (hgroups : s'.groups = Function.update s.groups g group)
    (hhandle : group.handle = (s.groups g).handle)
    (hrevoked : (s.groups g).state = .revoked → group.state = .revoked)
    (hhistory : s'.history = s.history)
    (hsound : sound → s.Armed → s.fault = .ok → s'.fault = .ok ∧ s'.Armed) :
    Step cfg sound s s' := by
  refine .of_groups hjoint hlist hgeneration (fun k => ?_) (fun k _ => ?_) hhistory hsound
  · rw [hgroups]
    by_cases hk : k = g
    · rw [hk, Function.update_self, hhandle]
    · rw [Function.update_of_ne hk]
  · rw [hgroups]
    by_cases hk : k = g
    · rw [hk, Function.update_self]
      exact hrevoked
    · rw [Function.update_of_ne hk]
      exact id

/-! ## Initialization and registration -/

theorem Joint.step_init (h : s.Joint cfg xs none) (port : Port) (now : UInt32) :
    Step cfg sound s (s.sectionStlInit port now).1 := by
  unfold sectionStlInit
  split
  · exact h.step_refl
  split
  · exact h.step_refl
  split
  · exact h.step_refl
  · have hlow : Function.update (Function.update s.stack 0 stlGuard) 1 (~~~stlGuard) 0 =
        stlGuard := by
      rw [Function.update_of_ne Nat.zero_ne_one, Function.update_self]
    have hhigh : Function.update (Function.update s.stack 0 stlGuard) 1 (~~~stlGuard) 1 =
        ~~~stlGuard := Function.update_self _ _ _
    exact h.step_same ⟨rfl, fun _ => rfl, rfl, fun _ => rfl, rfl, rfl, rfl, rfl, rfl, rfl⟩ rfl
      fun _ _ => ⟨fun _ => ⟨hlow, hhigh⟩, fun _ => rfl⟩

/-- The check of the table never improves a result. -/
theorem checkTasks_ok {image : Image} {prior table : List RegSection} {result : Status} {needed : ℕ}
    (h : (checkTasks image prior table result needed).1 = .ok) : result = .ok := by
  induction table generalizing prior result needed with
  | nil => exact h
  | cons entry rest ih =>
    unfold checkTasks at h
    split at h
    · split at h
      · exact nomatch h
      · split at h
        · exact nomatch h
        · have := ih h
          split at this
          · exact nomatch this
          · exact this
    · exact ih h

/-- What the checks of a registration establish. -/
theorem registerCheck_ok {image : Image} {group_id : UInt32} {table : List RegSection}
    (h : s.registerCheck cfg image group_id table = .ok) :
    (∀ k < cfg.max_groups, (s.groups k).handle.group_id ≠ group_id) ∧
    s.generation ≠ 0xFFFFFFFF := by
  unfold registerCheck at h
  dsimp only at h
  cases hcheck : checkTasks image [] table (if ((List.range cfg.max_groups).any fun g =>
      decide ((s.groups g).handle.group_id = group_id)) = true then .badState
      else if s.initialized = false ∨ s.fault ≠ .ok then .badState else .ok) 0 with
  | mk result needed =>
    rw [hcheck] at h
    dsimp only at h
    have hresult : result = .ok := by
      by_contra hne
      simp [hne] at h
    have hok := checkTasks_ok ((congrArg Prod.fst hcheck).trans hresult)
    split at hok
    · exact nomatch hok
    · next hany =>
      refine ⟨fun k hk heq => hany ?_, fun hmax => ?_⟩
      · rw [List.any_eq_true]
        exact ⟨k, List.mem_range.mpr hk, by simpa using heq⟩
      · rw [hresult] at h
        split at h
        · exact nomatch h
        · rw [if_pos ⟨rfl, hmax⟩] at h
          exact nomatch h

/-- What claiming tasks changes. -/
structure Claimed (s s' : State) : Prop where
  eq : s' = { s with tasks := s'.tasks, ready := s'.ready, groups := s'.groups }
  handle : ∀ k, (s'.groups k).handle = (s.groups k).handle
  state : ∀ k, (s'.groups k).state = (s.groups k).state

theorem Claimed.refl (s : State) : Claimed s s := ⟨rfl, fun _ => rfl, fun _ => rfl⟩

theorem Claimed.trans (h : Claimed s s') (h' : Claimed s' s'') : Claimed s s'' := by
  refine ⟨h'.eq.trans ?_, fun k => (h'.handle k).trans (h.handle k),
    fun k => (h'.state k).trans (h.state k)⟩
  rw [h.eq]

theorem claimed_task (cfg : Config) (g : ℕ) (s : State) (source : RegTask) :
    Claimed s (s.claimTask cfg g source) := by
  unfold claimTask
  split
  · exact .refl s
  · refine ⟨rfl, fun k => ?_, fun k => ?_⟩
    · by_cases hk : k = g
      · rw [hk, modifyGroup_groups_self]
        rfl
      · rw [modifyGroup_groups_of_ne _ _ hk]
        rfl
    · by_cases hk : k = g
      · rw [hk, modifyGroup_groups_self]
        rfl
      · rw [modifyGroup_groups_of_ne _ _ hk]
        rfl

theorem claimed_table (cfg : Config) (image : Image) (g : ℕ) (s : State) (table : List RegSection) :
    Claimed s (table.foldl (claimEntry cfg image g) s) := by
  induction table generalizing s with
  | nil => exact .refl s
  | cons entry table ih =>
    have hfirst : Claimed s (claimEntry cfg image g s entry) := by
      unfold claimEntry
      split
      · split
        · exact .refl s
        · exact claimed_task cfg g s _
      · exact .refl s
    exact hfirst.trans (ih _)

/-- A registration leaves the queue alone. -/
theorem Joint.register (h : s.Joint cfg xs none) (port : Port) (image : Image)
    (group_id : UInt32) (p_entries : Option (ℕ → RegSection)) (count : ℕ) (p_handle : Bool) :
    (s.sectionStlGroupRegister cfg port image group_id p_entries count p_handle).1.Joint
      cfg xs none := by
  unfold sectionStlGroupRegister
  split
  · exact h
  split
  · exact h
  split
  · exact h
  next harguments =>
  dsimp only
  split
  · next g hcheck hfree =>
    obtain ⟨hnew, hmax⟩ := registerCheck_ok hcheck
    have hg := List.mem_of_find?_eq_some hfree
    rw [List.mem_reverse, List.mem_range] at hg
    have hzero := List.find?_some hfree
    rw [decide_eq_true_eq] at hzero
    exact h.registerCommit hg hzero (not_or.mp harguments).1 hnew hmax image _
  · exact h

theorem Joint.step_register (h : s.Joint cfg xs none) (port : Port) (image : Image)
    (group_id : UInt32) (p_entries : Option (ℕ → RegSection)) (count : ℕ) (p_handle : Bool) :
    Step cfg sound s
      (s.sectionStlGroupRegister cfg port image group_id p_entries count p_handle).1 := by
  unfold sectionStlGroupRegister
  split
  · exact h.step_refl
  split
  · exact h.step_refl
  split
  · exact h.step_refl
  next harguments =>
  rw [not_or] at harguments
  dsimp only
  generalize (List.range count).filterMap (fun i => p_entries.map (· i)) = table
  split
  · next g hcheck hfree =>
    obtain ⟨hnew, hmax⟩ := registerCheck_ok hcheck
    have hg : g < cfg.max_groups := by
      have := List.mem_of_find?_eq_some hfree
      rwa [List.mem_reverse, List.mem_range] at this
    have hzero : (s.groups g).handle.group_id = 0 := by
      simpa using List.find?_some hfree
    have hjoint := h.registerCommit hg hzero harguments.1 hnew hmax image table
    have hclaimed := claimed_table cfg image g (s.openGroup g ⟨group_id, s.generation + 1⟩) table
    rw [← registerCommit_eq] at hclaimed
    dsimp only
    have hlt : s.generation < s.generation + 1 := UInt32.lt_add_one hmax
    refine ⟨⟨xs, hjoint⟩, ?_, fun k hk hold => ?_, Or.inl ?_, Or.inl ?_, fun _ harmed hok => ?_⟩
    · rw [hclaimed.eq]
      exact Nat.le_of_lt hlt
    · rw [hclaimed.eq] at hk
      rw [hclaimed.handle] at hold ⊢
      rw [hclaimed.state]
      by_cases hkg : k = g
      · subst hkg
        rw [openGroup_groups_self] at hold
        exact absurd hlt (Nat.not_lt.mpr hold)
      · rw [openGroup_groups_of_ne s _ hkg]
        exact ⟨k, (List.mem_cons.mp hk).resolve_left hkg, rfl, id⟩
    · rw [hclaimed.eq]
      rfl
    · rw [hclaimed.eq]
      rfl
    · rw [hclaimed.eq]
      exact ⟨hok, harmed⟩
  · exact h.step_refl

/-- What the checks that admit an initialization establish. -/
theorem initializeCheck_ok (h : s.initializeCheck handle = .ok) : ∃ g, s.groupFind handle = some g ∧
    (s.groups g).state = .disabled ∧ (s.groups g).initialized = false ∧
    ∀ k ∈ s.group_list, (s.groups k).init_busy = false := by
  unfold initializeCheck at h
  cases hfind : s.groupFind handle with
  | none =>
    simp only [hfind] at h
    split at h
    · exact nomatch h
    · split at h <;> exact nomatch h
  | some g =>
    simp only [hfind] at h
    split at h
    · exact nomatch h
    · next hany =>
      split at h
      · exact nomatch h
      · split at h
        · exact nomatch h
        · next hready =>
          rw [not_or, not_or, not_not] at hready
          exact ⟨g, rfl, hready.1, Bool.eq_false_iff.mpr hready.2.2, by simpa using hany⟩

theorem Joint.step_initialize (h : s.Joint cfg xs none) (port : Port) (image : Image)
    (handle : Handle) (p_entries : Option (ℕ → RegSection)) (count : ℕ) :
    Step cfg sound s (s.sectionStlGroupInitialize cfg port image handle p_entries count).1 := by
  unfold sectionStlGroupInitialize
  split
  · exact h.step_refl
  split
  · exact h.step_refl
  split
  · exact h.step_refl
  dsimp only
  generalize (List.range count).filterMap (fun i => p_entries.map (· i)) = table
  split
  · next g hcheck hfind =>
    obtain ⟨hg, -⟩ := groupFind_some hfind
    split
    · exact h.step_same ⟨rfl, fun _ => rfl, rfl, fun _ => rfl, rfl, rfl, rfl, rfl, rfl, rfl⟩ rfl
        fun _ ha => ha
    · next callbacks _ =>
      obtain ⟨k, hk, hstate, hinit, hbusy⟩ := initializeCheck_ok hcheck
      obtain rfl := Option.some.inj (hfind.symm.trans hk)
      have hjoint :=
        h.startInit hg hstate hinit hbusy callbacks ⟨g, 0, callbacks.length, .check⟩ rfl
      exact .of_update hjoint rfl rfl rfl rfl id rfl fun _ harmed hok => ⟨hok, harmed⟩
  · exact h.step_refl

/-- The initialization goes on, for the same group. -/
theorem Joint.moveInit (h : s.Joint cfg xs none) {run : InitRun} (hrun : s.initRun = some run)
    (run' : InitRun) (hgroup : run'.group = run.group) (started : List Handle) :
    Joint cfg { s with
      initRun := some run', history := { s.history with started := started } } xs none := by
  have hg := h.starting.listed run hrun
  refine ⟨⟨h.resident.nodup, h.resident.listed, h.resident.unlisted, h.resident.distinct,
    h.resident.tasks_nodup, h.resident.owned, h.resident.resident, h.resident.cleared⟩, h.ring,
    h.swept, ⟨h.queued.holds, h.queued.count, fun t ht => ?_, h.queued.saved, h.queued.owners,
    h.queued.record⟩, ⟨h.placed.current, h.placed.running, h.placed.settled⟩,
    ⟨fun k hk => ?_, fun other hother => ?_, h.starting.state, h.starting.enabled⟩⟩
  · rcases h.queued.waits t ht with ⟨hnew, hgroup⟩ | ⟨hold, hgroup, hrecord⟩
    · exact .new hnew hgroup
    · exact .old hold hgroup hrecord
  · refine (h.starting.busy k hk).trans ?_
    rw [hrun]
    constructor
    · rintro ⟨other, heq, hk⟩
      exact ⟨_, rfl, hgroup.trans ((congrArg InitRun.group (Option.some.inj heq)).trans hk)⟩
    · rintro ⟨other, heq, hk⟩
      exact ⟨run, rfl,
        hgroup.symm.trans ((congrArg InitRun.group (Option.some.inj heq)).trans hk)⟩
  · rw [← Option.some.inj hother, hgroup]
    exact hg

theorem Joint.step_initializeNext (h : s.Joint cfg xs none) :
    Step cfg sound s s.initializeNext.1 := by
  unfold initializeNext
  cases hrun : s.initRun with
  | none => exact h.step_refl
  | some run =>
    have hg := h.starting.listed run hrun
    have hbusy := (h.starting.busy _ hg).mpr ⟨run, hrun, rfl⟩
    have hstate : (s.groups run.group).state ≠ .revoked := by
      rcases (h.starting.state _ hg hbusy).2 with heq | heq <;> rw [heq] <;> exact nofun
    dsimp only
    split
    · -- a callback is called
      have hjoint := h.moveInit hrun { run with index := run.index + 1, point := .check } rfl
        (s.history.started ++ [(s.groups run.group).handle])
      exact ⟨⟨xs, hjoint⟩, Nat.le_refl _, fun k hk _ => ⟨k, hk, rfl, id⟩,
        Or.inr ⟨run.group, hg, hstate, rfl⟩, Or.inl rfl, fun _ harmed hok => ⟨hok, harmed⟩⟩
    split
    · -- the next one is admitted, or not
      have hjoint := h.moveInit hrun { run with
        point := if .revoking ≤ (s.groups run.group).state then .leave else .call } rfl
        s.history.started
      exact ⟨⟨xs, hjoint⟩, Nat.le_refl _, fun k hk _ => ⟨k, hk, rfl, id⟩, Or.inl rfl, Or.inl rfl,
        fun _ harmed hok => ⟨hok, harmed⟩⟩
    · -- the call returns
      unfold initializeEnd
      dsimp only
      split
      · next hrevoking =>
        have hjoint := h.endInit hrun ({ s.groups run.group with
          init_busy := false, state := .revoked }) rfl rfl rfl (Or.inr hrevoking) nofun []
        exact .of_update hjoint rfl rfl rfl rfl (fun _ => rfl) rfl fun _ harmed hok => ⟨hok, harmed⟩
      · have hjoint := h.endInit hrun ({ s.groups run.group with
          init_busy := false, initialized := true }) rfl rfl rfl (Or.inl rfl) (fun _ => rfl) []
        exact .of_update hjoint rfl rfl rfl rfl id rfl fun _ harmed hok => ⟨hok, harmed⟩

/-! ## The life of a group -/

/-- A call on a group is a step if its body is one for every resident group. -/
theorem Joint.step_onGroup (h : s.Joint cfg xs none) {body : ℕ → State × Status}
    (hbody : ∀ g ∈ s.group_list, (s.groups g).handle = handle → Step cfg sound s (body g).1) :
    Step cfg sound s (s.onGroup port handle body).1 := by
  unfold onGroup
  split
  · exact h.step_refl
  · split
    · exact h.step_refl
    · next g hfind =>
      obtain ⟨hg, hhandle⟩ := groupFind_some hfind
      exact hbody g hg hhandle

theorem not_revoked (h : ¬ .revoking ≤ (s.groups g).state) : (s.groups g).state ≠ .revoked := by
  intro heq
  rw [heq] at h
  exact h (by decide)

theorem Joint.step_enable (h : s.Joint cfg xs none) (port : Port) (handle : Handle) :
    Step cfg sound s (s.sectionStlGroupEnable port handle).1 := by
  unfold sectionStlGroupEnable
  refine h.step_onGroup fun g hg _ => ?_
  dsimp only
  split
  · next hready =>
    obtain ⟨hinit, hmay, -⟩ := hready
    -- the phases of the tasks do not matter for the tables
    obtain ⟨s₁, hs₁, hsame, hgroups, hhistory, hstack, hinitialized⟩ : ∃ s₁ : State, s₁ =
        (if (s.groups g).state ≠ .enabled then
          { s with tasks := fun t =>
              if t ∈ (s.groups g).tasks then { s.tasks t with last := s.tick_now } else s.tasks t }
        else s) ∧ Same s s₁ ∧ s₁.groups = s.groups ∧ s₁.history = s.history ∧ s₁.stack = s.stack ∧
          s₁.initialized = s.initialized := by
      refine ⟨_, rfl, ?_⟩
      split
      · refine ⟨⟨rfl, fun _ => rfl, rfl, fun t => ?_, rfl, rfl, rfl, rfl, rfl, rfl⟩, rfl, rfl,
          rfl, rfl⟩
        dsimp only
        split <;> rfl
      · exact ⟨.refl s, rfl, rfl, rfl, rfl⟩
    rw [← hs₁]
    have hjoint := (h.same hsame).setState (g := g) (by rw [hsame.group_list]; exact hg) .enabled
      (fun _ _ _ => Or.inl rfl) (fun _ _ _ => ⟨nofun, nofun⟩) (fun hbusy => ?_)
      (fun _ => by rw [hgroups]; exact hinit)
    · have hupdate : (s₁.modifyGroup g fun group => { group with state := .enabled }).groups =
          Function.update s.groups g { s.groups g with state := .enabled } := by
        show Function.update s₁.groups g _ = _
        rw [hgroups]
      refine .of_update hjoint hsame.group_list hsame.generation hupdate rfl
        (fun hrevoked => absurd hrevoked (not_revoked hmay)) hhistory fun _ harmed hok =>
          ⟨?_, ?_, ?_⟩
      · exact hsame.fault.trans hok
      · intro hi
        obtain ⟨h0, h1⟩ := harmed.1 (hinitialized.symm.trans hi)
        exact ⟨(congrFun hstack 0).trans h0, (congrFun hstack 1).trans h1⟩
      · intro hne
        exact hinitialized.trans (harmed.2 (hsame.current ▸ hne))
    · rw [hgroups] at hbusy
      exact nomatch (h.starting.state g hg hbusy).1.symm.trans hinit
  · exact h.step_refl

/-- The tasks of the group that wait behind `ready_remove` without the saved work. -/
theorem Joint.old_of_owns (h : s.Joint cfg xs none) :
    ∀ t ∈ xs.filter (fun t => !s.removable (s.groups g).handle false t), s.Owns g t →
      (s.tasks t).state = .old := by
  intro t ht howns
  obtain ⟨hin, hkeep⟩ := List.mem_filter.mp ht
  rcases (h.queued.waits t hin).state with hnew | hold
  · simp [removable, (h.resident.owned g t howns).2.2, hnew] at hkeep
  · exact hold

theorem Joint.step_disable (h : s.Joint cfg xs none) (port : Port) (handle : Handle) :
    Step cfg sound s (s.sectionStlGroupDisable cfg port handle).1 := by
  unfold sectionStlGroupDisable
  refine h.step_onGroup fun g hg hhandle => ?_
  split
  · next hmay =>
    obtain rfl := hhandle
    have hjoint := (h.readyRemove_new (s.groups g).handle).setState (g := g) hg .disabled
      (fun t ht howns => Or.inr ⟨?_, by decide⟩) (fun _ _ _ => ⟨nofun, nofun⟩)
        (fun _ => Or.inl rfl) nofun
    · exact .of_update hjoint rfl rfl rfl rfl
        (fun hrevoked => absurd hrevoked (not_revoked hmay)) rfl
        fun _ harmed hok => ⟨hok, harmed⟩
    · have hold := h.old_of_owns t ht howns
      obtain ⟨-, -, htasks⟩ := h.readyRemove (s.groups g).handle false
      rw [htasks, if_neg (by simp [removable, hold])]
      exact hold
  · exact h.step_refl

/-- A group without records has no saved work. -/
theorem groupRecords_eq_zero : s.ring.groupRecords cfg handle = 0 ↔
    ∀ r ∈ s.ring.live cfg, (s.ring.records r).owner ≠ handle := by
  unfold Ring.groupRecords
  rw [List.countP_eq_zero]
  simp

theorem Joint.step_pause (h : s.Joint cfg xs none) (port : Port) (handle : Handle) :
    Step cfg sound s (s.sectionStlGroupPause cfg port handle).1 := by
  unfold sectionStlGroupPause
  refine h.step_onGroup fun g hg hhandle => ?_
  split
  · next hmay =>
    split
    · next hready =>
      obtain rfl := hhandle
      obtain ⟨hbusy, hcurrent⟩ := groupExecuting_eq_false.mp hready.1
      have hrecords := groupRecords_eq_zero.mp hready.2.1
      have hjoint := (h.readyRemove_new (s.groups g).handle).setState (g := g) hg .paused
        (fun t ht howns => ?_) (fun t ht howns => ?_) (fun hb => nomatch hb.symm.trans hbusy) nofun
      · exact .of_update hjoint rfl rfl rfl rfl
          (fun hrevoked => absurd hrevoked (not_revoked hmay)) rfl
          fun _ harmed hok => ⟨hok, harmed⟩
      · -- a continuation that waits has a record
        exfalso
        have hold := h.old_of_owns t ht howns
        rcases h.queued.waits t (List.mem_filter.mp ht).1 with
          ⟨hnew, -⟩ | ⟨-, -, r, -, hsaved, -, howner⟩
        · exact nomatch hnew.symm.trans hold
        · exact hrecords r hsaved.1 (howner.trans (h.resident.owned g t howns).2.2)
      · exact absurd (h.resident.owned g t howns).2.2 (hcurrent t ht)
    · exact h.step_refl
  · exact h.step_refl

theorem owner_cancelTasks (h : s.ring.Valid cfg) (handle : Handle) (ts : List ℕ) (t : ℕ) :
    ((s.cancelTasks cfg handle ts).tasks t).owner = (s.tasks t).owner := by
  have hdiscard := (h.discard handle).valid
  have heq : (s.cancelTasks cfg handle ts).tasks t =
      if t ∈ ts then { (s.readyRemove cfg handle true).tasks t with record := none }
      else (s.readyRemove cfg handle true).tasks t := rfl
  have howner : ((s.readyRemove cfg handle true).tasks t).owner = (s.tasks t).owner := by
    unfold State.readyRemove
    dsimp only
    split <;> rfl
  rw [heq]
  split <;> exact howner

/-- Whether code of the group runs does not depend on the cancellation. -/
theorem groupExecuting_cancelled (h : s.ring.Valid cfg) (state : GroupState) :
    ((s.modifyGroup g fun group =>
      { group with state := state }).groupCancel cfg g).groupExecuting g = s.groupExecuting g := by
  set s₁ := s.modifyGroup g fun group => { group with state := state }
  have hframe : Cancelled s₁ (s₁.groupCancel cfg g) := cancelled (s := s₁) h g
  have hself : s₁.groups g = { s.groups g with state := state } := modifyGroup_groups_self _ _ _
  have howner (t : ℕ) : ((s₁.groupCancel cfg g).tasks t).owner = (s.tasks t).owner := by
    rw [groupCancel_eq]
    split
    · exact owner_cancelTasks (s := s₁) h _ _ t
    · exact owner_cancelTasks (s := s₁) h _ _ t
  have hcurrent : (s₁.groupCancel cfg g).current = s.current := by
    rw [hframe.eq]
    rfl
  have hgroup : ((s₁.groupCancel cfg g).groups g).init_busy = (s.groups g).init_busy ∧
      ((s₁.groupCancel cfg g).groups g).handle = (s.groups g).handle := by
    rcases hframe.groups g with hsame | hclosed
    · rw [hsame, hself]
      exact ⟨rfl, rfl⟩
    · rw [hclosed, hself]
      exact ⟨rfl, rfl⟩
  unfold groupExecuting
  rw [hgroup.1, hgroup.2, hcurrent]
  cases s.current with
  | none => rfl
  | some t =>
    dsimp only
    rw [howner]

/-- **Revocation** closes a group at once when no code of it runs. -/
theorem revoked_of_idle (h : s.ring.Valid cfg) (hidle : s.groupExecuting g = false) :
    (((s.modifyGroup g fun group => { group with state := .revoking }).groupCancel cfg g).groups
      g).state = .revoked := by
  have hexecuting := groupExecuting_cancelled h (g := g) .revoking
  rw [hidle, groupCancel_eq] at hexecuting
  rw [groupCancel_eq]
  split at hexecuting
  · next hbusy => exact absurd hbusy (Bool.eq_false_iff.mp hexecuting)
  · next hnot =>
    rw [if_neg hnot, modifyGroup_groups_self]

/-- No code of a revoked group runs. -/
theorem Joint.idle_of_revoked (h : s.Joint cfg xs none) (hg : g ∈ s.group_list)
    (hstate : (s.groups g).state = .revoked) : s.groupExecuting g = false := by
  refine groupExecuting_eq_false.mpr ⟨?_, fun t ht howner => ?_⟩
  · by_contra hbusy
    rcases (h.starting.state g hg (Bool.not_eq_false _ ▸ hbusy)).2 with heq | heq
    · exact nomatch hstate.symm.trans heq
    · exact nomatch hstate.symm.trans heq
  · obtain ⟨k, howns, -, -, hne⟩ := h.placed.current t ht
    obtain rfl := h.resident.eq_of_handle howns.1 hg
      ((h.resident.owned k t howns).2.2.symm.trans howner)
    exact hne hstate

theorem Joint.step_revoke (h : s.Joint cfg xs none) (port : Port) (handle : Handle) :
    Step cfg sound s (s.sectionStlGroupRevoke cfg port handle).1 := by
  unfold sectionStlGroupRevoke
  refine h.step_onGroup fun g hg hhandle => ?_
  dsimp only
  set s₁ := s.modifyGroup g fun group => { group with state := .revoking }
  have hframe : Cancelled s₁ (s₁.groupCancel cfg g) := cancelled (s := s₁) h.ring g
  have hself : s₁.groups g = { s.groups g with state := .revoking } := modifyGroup_groups_self _ _ _
  have hother {k : ℕ} (hk : k ≠ g) : s₁.groups k = s.groups k := modifyGroup_groups_of_ne _ _ hk
  refine .of_groups (h.revoke hg) ?_ ?_ (fun k => ?_) (fun k hk hrevoked => ?_) ?_
    fun _ harmed hok => ⟨?_, ?_⟩
  · rw [hframe.eq]
    rfl
  · rw [hframe.eq]
    rfl
  · refine (hframe.evolves.handle k).trans ?_
    by_cases hkg : k = g
    · rw [hkg, hself]
    · rw [hother hkg]
  · by_cases hkg : k = g
    · subst hkg
      exact revoked_of_idle h.ring (h.idle_of_revoked hk hrevoked)
    · rcases hframe.groups k with hsame | hclosed
      · rw [hsame, hother hkg]
        exact hrevoked
      · rw [hclosed]
  · rw [hframe.eq]
    rfl
  · rw [hframe.eq]
    exact hok
  · rw [hframe.eq]
    exact harmed

/-- A step that changes the leases of a group, or its attestation. -/
theorem Joint.step_modifyGroup (h : s.Joint cfg xs none) {f : Group → Group}
    (hf : (f (s.groups g)).view = (s.groups g).view) : Step cfg sound s (s.modifyGroup g f) :=
  h.step_same (same_modifyGroup s g hf) rfl fun _ ha => ha

theorem Joint.step_acquire (h : s.Joint cfg xs none) (port : Port) (handle : Handle) :
    Step cfg sound s (s.sectionStlGroupAcquire port handle).1 := by
  unfold sectionStlGroupAcquire
  refine h.step_onGroup fun g _ _ => ?_
  split
  · dsimp only
    exact h.step_modifyGroup rfl
  · exact h.step_refl

theorem Joint.step_release (h : s.Joint cfg xs none) (port : Port) (handle : Handle) :
    Step cfg sound s (s.sectionStlGroupRelease port handle).1 := by
  unfold sectionStlGroupRelease
  refine h.step_onGroup fun g _ _ => ?_
  split
  · dsimp only
    exact h.step_modifyGroup rfl
  · exact h.step_refl

/-- One step after another, where the first changes no group. -/
theorem Joint.step_reap (h : s.Joint cfg xs none) (hstep : Step cfg sound (s.recordsReap cfg) s') :
    Step cfg sound s s' := by
  have heq := recordsReap_eq h.ring
  obtain ⟨hjoint, hgeneration, hold, hstarted, hrestored, hsound⟩ := hstep
  rw [heq] at hgeneration hold hstarted hrestored hsound
  exact ⟨hjoint, hgeneration, hold, hstarted, hrestored, hsound⟩

theorem Joint.step_quiescent (h : s.Joint cfg xs none) (port : Port) (handle : Handle) :
    Step cfg sound s (s.sectionStlGroupQuiescent cfg port handle).1 := by
  unfold sectionStlGroupQuiescent
  split
  · exact h.step_refl
  split
  · exact h.step_refl
  dsimp only
  split
  · exact h.step_reap h.recordsReap.step_refl
  · split
    · dsimp only
      exact h.step_reap (h.recordsReap.step_modifyGroup rfl)
    · exact h.step_reap h.recordsReap.step_refl

/-- What a retired group is. -/
theorem groupRetired_iff : s.groupRetired cfg g = true ↔ (s.groups g).state = .revoked ∧
    s.groupExecuting g = false ∧ (s.groups g).references = 0 ∧
      s.ring.groupRecords cfg (s.groups g).handle = 0 := by
  unfold groupRetired
  simp [and_assoc]

theorem Joint.step_forget (h : s.Joint cfg xs none) (port : Port) (handle : Handle) :
    Step cfg sound s (s.sectionStlGroupForget cfg port handle).1 := by
  unfold sectionStlGroupForget
  split
  · exact h.step_refl
  split
  · exact h.step_refl
  split
  · exact h.step_refl
  next g hfind =>
  obtain ⟨hg, -⟩ := groupFind_some hfind
  split
  · next hready =>
    obtain ⟨hstate, hidle, -, hrecords⟩ := groupRetired_iff.mp hready.1
    have hjoint := h.forget hg hstate hidle (groupRecords_eq_zero.mp hrecords)
    have hnot (t : ℕ) (ht : t ∈ (s.groups g).tasks) : t ∉ xs := by
      intro hin
      obtain ⟨k, howns, hmay⟩ := (h.queued.waits t hin).owned
      rw [h.resident.owns_unique howns ⟨hg, ht⟩, hstate] at hmay
      exact hmay (by decide)
    obtain ⟨-, heq⟩ := clearTasks_spec h.queued.holds hnot
    dsimp only
    rw [heq] at hjoint ⊢
    refine ⟨⟨xs, hjoint⟩, Nat.le_refl _, fun k hk _ => ?_, Or.inl rfl, Or.inl rfl,
      fun _ harmed hok => ⟨hok, harmed⟩⟩
    obtain ⟨hkg, hk⟩ : k ≠ g ∧ k ∈ s.group_list := h.resident.nodup.mem_erase_iff.mp hk
    have hother : (State.groups ({ s with
        ready := (s.clearTasks (s.groups g).tasks).ready
        tasks := fun t => if t ∈ (s.groups g).tasks then .zero else s.tasks t
        group_list := s.group_list.erase g
        group_count := s.group_count - 1 }.modifyGroup g fun _ => .zero) k) = s.groups k :=
      modifyGroup_groups_of_ne _ _ hkg
    rw [hother]
    exact ⟨k, hk, rfl, id⟩
  · exact h.step_refl

/-! ## Time, switches and callbacks -/

theorem Joint.step_tick (h : s.Joint cfg xs none) (port : Port) (now : UInt32) :
    Step cfg sound s (s.sectionStlTick port now).1 := by
  unfold sectionStlTick
  split
  · exact h.step_refl
  split
  · split
    · have hsame : Same s { s with tick_now := now } :=
        ⟨rfl, fun _ => rfl, rfl, fun _ => rfl, rfl, rfl, rfl, rfl, rfl, rfl⟩
      dsimp only
      split
      · obtain ⟨ys, hjoint, hact⟩ := (h.same hsame).activateDue
        refine .of_groups hjoint ?_ ?_ (fun k => ?_) (fun k _ hk => ?_) ?_ fun _ harmed hok => ?_
        all_goals rw [hact.eq]
        · exact hk
        · exact ⟨hok, harmed⟩
      · exact h.step_same hsame rfl fun _ ha => ha
    · exact h.step_refl
  · exact h.step_refl

theorem Joint.step_requestNative (h : s.Joint cfg xs none) (port : Port) :
    Step cfg sound s (s.sectionStlRequestNative port).1 := by
  unfold sectionStlRequestNative
  split
  · exact h.step_refl
  split
  · exact h.step_refl
  split
  · exact h.step_refl
  split
  · exact h.step_same ⟨rfl, fun _ => rfl, rfl, fun _ => rfl, rfl, rfl, rfl, rfl, rfl, rfl⟩ rfl
      fun _ ha => ha
  · exact h.step_refl

theorem Joint.step_callback (h : s.Joint cfg xs none) : Step cfg sound s s.entryCall := by
  unfold entryCall
  cases htask : s.runningTask with
  | none => exact h.step_refl
  | some t =>
    obtain ⟨hcurrent, -⟩ := runningTask_eq_some.mp htask
    obtain ⟨g, howns, -, -, hne⟩ := h.placed.current t hcurrent
    have hsame : Same s { s with
        history := { s.history with started := s.history.started ++ [(s.tasks t).owner] } } :=
      ⟨rfl, fun _ => rfl, rfl, fun _ => rfl, rfl, rfl, rfl, rfl, rfl, rfl⟩
    refine ⟨⟨xs, h.same hsame⟩, Nat.le_refl _, fun k hk _ => ⟨k, hk, rfl, id⟩,
      Or.inr ⟨g, howns.1, hne, ?_⟩, Or.inl rfl, fun _ harmed hok => ⟨hok, harmed⟩⟩
    rw [← (h.resident.owned g t howns).2.2]

theorem Joint.step_write (h : s.Joint cfg xs none) (i : ℕ) (word : UInt32)
    (hsound : sound → stlGuardWords ≤ i) :
    Step cfg sound s { s with stack := Function.update s.stack i word } := by
  refine h.step_same ⟨rfl, fun _ => rfl, rfl, fun _ => rfl, rfl, rfl, rfl, rfl, rfl, rfl⟩ rfl
    fun hs harmed => ⟨fun hi => ?_, harmed.2⟩
  have hlow := hsound hs
  unfold stlGuardWords at hlow
  obtain ⟨h0, h1⟩ := harmed.1 hi
  exact ⟨(Function.update_of_ne (by omega) word s.stack).trans h0,
    (Function.update_of_ne (by omega) word s.stack).trans h1⟩

/-- **Every action** is a step. -/
theorem Joint.exec (h : s.Joint cfg xs none) (action : Action) :
    Step cfg (cfg.InitialFrame ∧ action.Sound cfg s) s (s.exec cfg action) := by
  cases action with
  | init port now => exact h.step_init port now
  | register port image group_id p_entries count p_handle =>
    exact h.step_register port image group_id p_entries count p_handle
  | initializeBegin port image handle p_entries count =>
    exact h.step_initialize port image handle p_entries count
  | initializeNext => exact h.step_initializeNext
  | enable port handle => exact h.step_enable port handle
  | disable port handle => exact h.step_disable port handle
  | pause port handle => exact h.step_pause port handle
  | revoke port handle => exact h.step_revoke port handle
  | acquire port handle => exact h.step_acquire port handle
  | release port handle => exact h.step_release port handle
  | quiescent port handle => exact h.step_quiescent port handle
  | forget port handle => exact h.step_forget port handle
  | tick port now => exact h.step_tick port now
  | requestNative port => exact h.step_requestNative port
  | switch port p_saved_sp =>
    obtain ⟨ys, hturn⟩ := h.switch port p_saved_sp
    exact (hturn.weaken fun hs _ _ => ⟨hs.2.1, hs.1, hs.2.2⟩).step
  | callback => exact h.step_callback
  | complete port outcome_running =>
    obtain ⟨ys, hturn⟩ := h.complete port outcome_running
    exact (hturn.weaken fun hs _ _ => hs.2).step
  | write i word => exact h.step_write i word fun hs => hs.2

/-- The tables are in order in every reachable state. -/
theorem joint_of_reachable (h : (runs cfg).Reachable s) : ∃ xs, s.Joint cfg xs none := by
  refine h.invariant (P := fun s => ∃ xs, s.Joint cfg xs none) ?_ ?_
  · rintro s ⟨pool, stack, rfl⟩
    exact ⟨[], joint_reset pool stack⟩
  · rintro s s' ⟨xs, hjoint⟩ ⟨action, rfl⟩
    exact (hjoint.exec action).joint

end State
end Atoman.SectionStl
