import Atoman.SectionStl.Registration
import Atoman.SectionStl.Steady

/-!
# What sets the reference of a task

The reference tick of a task in an enabled group changes when the call that enables the
group sets it, and when a scan releases the task. No other call touches it, and the period
is that of the table.
-/

namespace Atoman.SectionStl

/-- The calls that publish a tick. -/
def Action.publishes : Action → Bool
  | .init .. => true
  | .tick .. => true
  | _ => false

namespace State
variable {cfg : Config} {s s' s'' u : State} {xs : List ℕ} {out : Option ℕ} {renewed : List ℕ}
    {g t : ℕ}
  {port : Port} {handle : Handle} {action : Action}

/-- The tasks of the group that a call enables, if it was not enabled before. -/
def enabling (s : State) : Action → List ℕ
  | .enable port handle =>
    if port.api_allowed = false then []
    else
      match s.groupFind handle with
      | none => []
      | some g =>
        if ((s.groups g).initialized = true ∧ ¬ .revoking ≤ (s.groups g).state ∧ s.fault = .ok) ∧
            (s.groups g).state ≠ .enabled then
          (s.groups g).tasks
        else []
  | _ => []

/-- How the timing of a task of a group comes about. -/
inductive Follows (s s' : State) (renewed : List ℕ) (g t : ℕ) : Prop
  | same (owns : s.Owns g t)
    (enabled : (s'.groups g).state = .enabled → (s.groups g).state = .enabled)
      (notMem : t ∉ renewed) (period : (s'.tasks t).period = (s.tasks t).period)
      (last : (s'.tasks t).last = (s.tasks t).last)
  | renewed (owns : s.Owns g t) (mem : t ∈ renewed)
      (period : (s'.tasks t).period = (s.tasks t).period) (last : (s'.tasks t).last = s.tick_now)
  | registered (state : (s'.groups g).state ≠ .enabled) (period : (s'.tasks t).period ≠ 0)

/-- The timing of every task after a call. -/
structure Timing (s s' : State) (publishes : Bool) (renewed : List ℕ) : Prop where
  tick_now : publishes = false → s'.tick_now = s.tick_now
  tasks : ∀ g t, s'.Owns g t → Follows s s' renewed g t

/-- The timing of the tasks is kept, and no group is enabled. -/
structure Carries (s s' : State) : Prop where
  owns : ∀ g t, s'.Owns g t → s.Owns g t
  enabled : ∀ g, (s'.groups g).state = .enabled → (s.groups g).state = .enabled
  period : ∀ g t, s'.Owns g t → (s'.tasks t).period = (s.tasks t).period
  last : ∀ g t, s'.Owns g t → (s'.tasks t).last = (s.tasks t).last

namespace Carries

theorem refl (s : State) : Carries s s :=
  ⟨fun _ _ => id, fun _ => id, fun _ _ _ => rfl, fun _ _ _ => rfl⟩

theorem trans (h : Carries s s') (h' : Carries s' s'') : Carries s s'' :=
  ⟨fun g t howns => h.owns g t (h'.owns g t howns), fun g hg => h.enabled g (h'.enabled g hg),
    fun g t howns => (h'.period g t howns).trans (h.period g t (h'.owns g t howns)),
    fun g t howns => (h'.last g t howns).trans (h.last g t (h'.owns g t howns))⟩

/-- The groups and the tasks are kept as they are. -/
theorem of_eq (hlist : s'.group_list = s.group_list) (hgroups : s'.groups = s.groups)
    (htasks : s'.tasks = s.tasks) : Carries s s' := by
  refine ⟨fun g t => ?_, fun g => ?_, fun _ t _ => by rw [htasks], fun _ t _ => by rw [htasks]⟩
  · unfold Owns
    rw [hlist, hgroups]
    exact id
  · rw [hgroups]
    exact id

/-- Groups may close, and tasks change in other fields. -/
theorem of_evolves (hev : Evolves s s') (hperiod : ∀ t, (s'.tasks t).period = (s.tasks t).period)
    (hlast : ∀ t, (s'.tasks t).last = (s.tasks t).last) : Carries s s' := by
  refine ⟨fun g t howns => ?_, fun g hg => ?_, fun _ t _ => hperiod t, fun _ t _ => hlast t⟩
  · unfold Owns at howns ⊢
    rw [hev.group_list] at howns
    rcases hev.groups g with hsame | hclosed
    · rwa [hsame] at howns
    · rwa [hclosed] at howns
  · rcases hev.groups g with hsame | hclosed
    · rwa [hsame] at hg
    · rw [hclosed] at hg
      exact nomatch hg

/-- One group changes, and is not enabled by that. -/
theorem of_update {k : ℕ} {group : Group} (hlist : s'.group_list = s.group_list)
    (hgroups : s'.groups = Function.update s.groups k group)
    (htasks : group.tasks = (s.groups k).tasks)
    (hstate : group.state = .enabled → (s.groups k).state = .enabled)
    (hperiod : ∀ t, (s'.tasks t).period = (s.tasks t).period)
    (hlast : ∀ t, (s'.tasks t).last = (s.tasks t).last) : Carries s s' := by
  refine ⟨fun g t howns => ?_, fun g => ?_, fun _ t _ => hperiod t, fun _ t _ => hlast t⟩
  · unfold Owns at howns ⊢
    rw [hlist, hgroups] at howns
    by_cases hg : g = k
    · rwa [hg, Function.update_self, htasks, ← hg] at howns
    · rwa [Function.update_of_ne hg] at howns
  · rw [hgroups]
    by_cases hg : g = k
    · rw [hg, Function.update_self]
      exact hstate
    · rw [Function.update_of_ne hg]
      exact id

theorem follows (h : Carries s s') (howns : s'.Owns g t) : Follows s s' [] g t :=
  .same (h.owns g t howns) (h.enabled g) List.not_mem_nil (h.period g t howns) (h.last g t howns)

/-- A call that carries the timing over. -/
theorem timing {publishes : Bool} (h : Carries s s')
    (htick : publishes = false → s'.tick_now = s.tick_now) : Timing s s' publishes [] :=
  ⟨htick, fun _ _ => h.follows⟩

end Carries

/-! ## Registration and enabling -/

/-- A task is copied with the period of the table. -/
theorem Registered.timing {image : Image} {group_id : UInt32} {table : List RegSection}
    {slots order : List ℕ} (h : Registered cfg image group_id table s s' handle g slots order)
    (hjoint : s.Joint cfg xs none)
    (hperiod : ∀ source ∈ taskEntries image table, source.t_period ≠ 0) :
    Timing s s' false [] := by
  refine ⟨fun _ => by rw [h.other], fun k t howns => ?_⟩
  unfold Owns at howns
  rw [h.group_list] at howns
  obtain ⟨hk, ht⟩ := howns
  by_cases hkg : k = g
  · subst hkg
    rw [h.group] at ht
    have hslot : t ∈ slots := h.sorted.perm.mem_iff.mp ht
    have hcopy : s'.tasks t ∈ slots.map s'.tasks := List.mem_map_of_mem hslot
    rw [h.copies] at hcopy
    obtain ⟨source, hsource, heq⟩ := List.mem_map.mp hcopy
    refine .registered ?_ ?_
    · rw [h.group]
      exact nofun
    · rw [← heq]
      exact hperiod source hsource
  · rw [h.other_groups k hkg] at ht
    have howns : s.Owns k t := ⟨(List.mem_cons.mp hk).resolve_left hkg, ht⟩
    have hslot : t ∉ slots :=
      fun hslot => (hjoint.resident.owned k t howns).2.1 (h.slots_free t hslot)
    refine .same howns ?_ List.not_mem_nil ?_ ?_
    · rw [h.other_groups k hkg]
      exact id
    · rw [h.other_tasks t hslot]
    · rw [h.other_tasks t hslot]

/-- Enabling a group sets the references of its tasks. -/
theorem Joint.timing_enable (h : s.Joint cfg xs none) (port : Port) (handle : Handle) :
    Timing s (s.sectionStlGroupEnable port handle).1 false (s.enabling (.enable port handle)) := by
  unfold sectionStlGroupEnable onGroup enabling
  by_cases hallowed : port.api_allowed = false
  · simp only [if_pos hallowed]
    exact (Carries.refl s).timing fun _ => rfl
  simp only [if_neg hallowed]
  cases hfind : s.groupFind handle with
  | none => exact (Carries.refl s).timing fun _ => rfl
  | some k =>
    obtain ⟨hk, -⟩ := groupFind_some hfind
    dsimp only
    by_cases hready : (s.groups k).initialized = true ∧ ¬ .revoking ≤ (s.groups k).state ∧
      s.fault = .ok
    · rw [if_pos hready]
      by_cases hstate : (s.groups k).state ≠ .enabled
      · rw [if_pos hstate, if_pos ⟨hready, hstate⟩]
        refine ⟨fun _ => rfl, fun g t howns => ?_⟩
        have howns' : s.Owns g t := by
          by_cases hg : g = k
          · subst hg
            obtain ⟨hlist, ht⟩ := howns
            exact ⟨hlist, by simpa using ht⟩
          · obtain ⟨hlist, ht⟩ := howns
            exact ⟨hlist, by rwa [modifyGroup_groups_of_ne _ _ hg] at ht⟩
        by_cases hg : g = k
        · subst hg
          have hset : (if t ∈ (s.groups g).tasks then { s.tasks t with last := s.tick_now }
              else s.tasks t) = { s.tasks t with last := s.tick_now } := if_pos howns'.2
          have hperiod := congrArg Task.period hset
          have hlast := congrArg Task.last hset
          exact .renewed howns' howns'.2 hperiod hlast
        · have ht : t ∉ (s.groups k).tasks := fun ht => hg (h.resident.owns_unique howns' ⟨hk, ht⟩)
          refine .same howns' ?_ ht (congrArg Task.period (if_neg ht))
            (congrArg Task.last (if_neg ht))
          rw [modifyGroup_groups_of_ne _ _ hg]
          exact id
      · rw [if_neg hstate, if_neg fun hboth => hstate hboth.2]
        rw [not_not] at hstate
        have hcarries : Carries s (s.modifyGroup k fun group => { group with state := .enabled }) :=
          .of_update (k := k) rfl rfl rfl (fun _ => hstate) (fun _ => rfl) fun _ => rfl
        exact hcarries.timing fun _ => rfl
    · rw [if_neg hready, if_neg fun hboth => hready hboth.1]
      exact (Carries.refl s).timing fun _ => rfl

/-! ## The other calls -/

/-- A call on a group whose body carries the timing over. -/
theorem carries_onGroup {body : ℕ → State × Status}
    (hbody : ∀ g, s.groupFind handle = some g →
      Carries s (body g).1 ∧ (body g).1.tick_now = s.tick_now) :
    Timing s (s.onGroup port handle body).1 false [] :=
  onGroup_elim (P := fun s' => Timing s s' false []) ((Carries.refl s).timing fun _ => rfl)
    fun g hfind => (hbody g hfind).1.timing fun _ => (hbody g hfind).2

theorem timing_disable (cfg : Config) (port : Port) (s : State) (handle : Handle) :
    Timing s (s.sectionStlGroupDisable cfg port handle).1 false [] := by
  refine carries_onGroup fun g _ => ?_
  split
  · set s₁ := s.modifyGroup g fun group => { group with state := .disabled }
    have hsteady : Steady s₁ (s₁.readyRemove cfg handle false) :=
      steady_readyRemove cfg s₁ handle false
    exact ⟨.of_update (k := g) rfl rfl rfl nofun hsteady.period hsteady.last, rfl⟩
  · exact ⟨.refl s, rfl⟩

theorem timing_pause (cfg : Config) (port : Port) (s : State) (handle : Handle) :
    Timing s (s.sectionStlGroupPause cfg port handle).1 false [] := by
  refine carries_onGroup fun g _ => ?_
  split
  · split
    · set s₁ := s.modifyGroup g fun group => { group with state := .paused }
      have hsteady : Steady s₁ (s₁.readyRemove cfg handle false) :=
        steady_readyRemove cfg s₁ handle false
      exact ⟨.of_update (k := g) rfl rfl rfl nofun hsteady.period hsteady.last, rfl⟩
    · exact ⟨.refl s, rfl⟩
  · exact ⟨.refl s, rfl⟩

theorem Joint.timing_revoke (h : s.Joint cfg xs none) (port : Port) (handle : Handle) :
    Timing s (s.sectionStlGroupRevoke cfg port handle).1 false [] := by
  refine carries_onGroup fun g _ => ?_
  dsimp only
  set s₁ := s.modifyGroup g fun group => { group with state := .revoking }
  have hmark : Carries s s₁ := .of_update (k := g) rfl rfl rfl nofun (fun _ => rfl) fun _ => rfl
  have hframe : Cancelled s₁ (s₁.groupCancel cfg g) := cancelled (s := s₁) h.ring g
  have hsteady : Steady s₁ (s₁.groupCancel cfg g) := steady_groupCancel cfg s₁ g
  exact ⟨hmark.trans (.of_evolves hframe.evolves hsteady.period hsteady.last), hsteady.tick_now⟩

/-- A change of the leases or of the attestation of a group. -/
theorem carries_modifyGroup (s : State) (g : ℕ) {f : Group → Group}
    (htasks : (f (s.groups g)).tasks = (s.groups g).tasks)
    (hstate : (f (s.groups g)).state = (s.groups g).state) : Carries s (s.modifyGroup g f) :=
  .of_update (k := g) rfl rfl htasks (fun h => hstate.symm.trans h) (fun _ => rfl) fun _ => rfl

theorem timing_acquire (port : Port) (s : State) (handle : Handle) :
    Timing s (s.sectionStlGroupAcquire port handle).1 false [] := by
  refine carries_onGroup fun g _ => ?_
  split
  · dsimp only
    exact ⟨carries_modifyGroup s g rfl rfl, rfl⟩
  · exact ⟨.refl s, rfl⟩

theorem timing_release (port : Port) (s : State) (handle : Handle) :
    Timing s (s.sectionStlGroupRelease port handle).1 false [] := by
  refine carries_onGroup fun g _ => ?_
  split
  · dsimp only
    exact ⟨carries_modifyGroup s g rfl rfl, rfl⟩
  · exact ⟨.refl s, rfl⟩

theorem timing_quiescent (cfg : Config) (port : Port) (s : State) (handle : Handle) :
    Timing s (s.sectionStlGroupQuiescent cfg port handle).1 false [] := by
  have hreap : Carries s (s.recordsReap cfg) := .of_eq rfl rfl rfl
  unfold sectionStlGroupQuiescent
  split
  · exact (Carries.refl s).timing fun _ => rfl
  split
  · exact (Carries.refl s).timing fun _ => rfl
  dsimp only
  split
  · exact hreap.timing fun _ => rfl
  · split
    · dsimp only
      exact (hreap.trans (carries_modifyGroup _ _ rfl rfl)).timing fun _ => rfl
    · exact hreap.timing fun _ => rfl

/-- The tasks that are cleared belonged to the group that is forgotten. -/
theorem Joint.timing_forget (h : s.Joint cfg xs none) (port : Port) (handle : Handle) :
    Timing s (s.sectionStlGroupForget cfg port handle).1 false [] := by
  unfold sectionStlGroupForget
  split
  · exact (Carries.refl s).timing fun _ => rfl
  split
  · exact (Carries.refl s).timing fun _ => rfl
  split
  · exact (Carries.refl s).timing fun _ => rfl
  next k hfind =>
  obtain ⟨hk, -⟩ := groupFind_some hfind
  split
  · next hready =>
    have hstate := (groupRetired_iff.mp hready.1).1
    have hnot (t : ℕ) (ht : t ∈ (s.groups k).tasks) : t ∉ xs := by
      intro hin
      obtain ⟨g, howns, hmay⟩ := (h.queued.waits t hin).owned
      rw [h.resident.owns_unique howns ⟨hk, ht⟩, hstate] at hmay
      exact hmay (by decide)
    obtain ⟨-, heq⟩ := clearTasks_spec h.queued.holds hnot
    dsimp only
    rw [heq]
    refine ⟨fun _ => rfl, fun g t howns => ?_⟩
    obtain ⟨hlist, ht⟩ := howns
    obtain ⟨hg, hlist⟩ : g ≠ k ∧ g ∈ s.group_list := h.resident.nodup.mem_erase_iff.mp hlist
    rw [modifyGroup_groups_of_ne _ _ hg] at ht
    have hkept : t ∉ (s.groups k).tasks :=
      fun hin => hg (h.resident.owns_unique ⟨hlist, ht⟩ ⟨hk, hin⟩)
    refine .same ⟨hlist, ht⟩ ?_ List.not_mem_nil (congrArg Task.period (if_neg hkept))
      (congrArg Task.last (if_neg hkept))
    rw [modifyGroup_groups_of_ne _ _ hg]
    exact id
  · exact (Carries.refl s).timing fun _ => rfl

theorem timing_initialize (port : Port) (s : State) (image : Image) (handle : Handle)
    (p_entries : Option (ℕ → RegSection)) (count : ℕ) :
    Timing s (s.sectionStlGroupInitialize cfg port image handle p_entries count).1 false [] := by
  unfold sectionStlGroupInitialize
  split
  · exact (Carries.refl s).timing fun _ => rfl
  split
  · exact (Carries.refl s).timing fun _ => rfl
  split
  · exact (Carries.refl s).timing fun _ => rfl
  dsimp only
  split
  · next g _ _ =>
    split
    · dsimp only
      exact Carries.timing (.of_eq rfl rfl rfl) fun _ => rfl
    · dsimp only
      exact Carries.timing (.of_update (k := g) rfl rfl rfl id (fun _ => rfl) fun _ => rfl)
        fun _ => rfl
  · exact (Carries.refl s).timing fun _ => rfl

theorem timing_initializeNext (s : State) : Timing s s.initializeNext.1 false [] := by
  unfold initializeNext
  split
  · exact (Carries.refl s).timing fun _ => rfl
  · next run _ =>
    split
    · exact Carries.timing (.of_eq rfl rfl rfl) fun _ => rfl
    split
    · exact Carries.timing (.of_eq rfl rfl rfl) fun _ => rfl
    · unfold initializeEnd
      dsimp only
      split
      · have hend : Carries s
          ({ s with init_callbacks := [], initRun := none }.modifyGroup run.group
            fun group => { group with init_busy := false, state := .revoked }) :=
          .of_update (k := run.group) rfl rfl rfl nofun (fun _ => rfl) fun _ => rfl
        exact hend.timing fun _ => rfl
      · have hend : Carries s
          ({ s with init_callbacks := [], initRun := none }.modifyGroup run.group
            fun group => { group with init_busy := false, initialized := true }) :=
          .of_update (k := run.group) rfl rfl rfl id (fun _ => rfl) fun _ => rfl
        exact hend.timing fun _ => rfl

/-- **A call without a scan.** -/
theorem Joint.timing (h : s.Joint cfg xs none) (action : Action)
    (hscan : scanned cfg s action = none) :
    Timing s (s.exec cfg action) action.publishes (s.enabling action) := by
  cases action with
  | init port now =>
    show Timing s (s.sectionStlInit port now).1 true []
    unfold sectionStlInit
    split
    · exact (Carries.refl s).timing nofun
    split
    · exact (Carries.refl s).timing nofun
    split
    · exact (Carries.refl s).timing nofun
    · exact Carries.timing (.of_eq rfl rfl rfl) nofun
  | register port image group_id p_entries count p_handle =>
    show Timing s
      (s.sectionStlGroupRegister cfg port image group_id p_entries count p_handle).1 false []
    rcases register_cases cfg port s image group_id p_entries count p_handle with
      ⟨result, -, hrefused⟩ | ⟨s', handle, g, slots, order, hcommit, hregistered, hperiod⟩
    · rw [hrefused]
      exact (Carries.refl s).timing fun _ => rfl
    · rw [hcommit]
      exact hregistered.timing h hperiod
  | initializeBegin port image handle p_entries count =>
    exact timing_initialize port s image handle p_entries count
  | initializeNext => exact timing_initializeNext s
  | enable port handle => exact h.timing_enable port handle
  | disable port handle => exact timing_disable cfg port s handle
  | pause port handle => exact timing_pause cfg port s handle
  | revoke port handle => exact h.timing_revoke port handle
  | acquire port handle => exact timing_acquire port s handle
  | release port handle => exact timing_release port s handle
  | quiescent port handle => exact timing_quiescent cfg port s handle
  | forget port handle => exact h.timing_forget port handle
  | tick port now =>
    show Timing s (s.sectionStlTick port now).1 true []
    have hcases := tick_cases port s now
    rw [show s.tickScan port now = none from hscan] at hcases
    rcases hcases with hsame | ⟨-, htick⟩
    · rw [hsame]
      exact (Carries.refl s).timing nofun
    · rw [htick]
      exact Carries.timing (.of_eq rfl rfl rfl) nofun
  | requestNative port =>
    show Timing s (s.sectionStlRequestNative port).1 false []
    unfold sectionStlRequestNative
    split
    · exact (Carries.refl s).timing fun _ => rfl
    split
    · exact (Carries.refl s).timing fun _ => rfl
    split
    · exact (Carries.refl s).timing fun _ => rfl
    split
    · exact Carries.timing (.of_eq rfl rfl rfl) fun _ => rfl
    · exact (Carries.refl s).timing fun _ => rfl
  | switch port p_saved_sp =>
    have hsteady := steady_switch cfg port s p_saved_sp
    rw [show s.switchScan cfg port p_saved_sp = none from hscan] at hsteady
    obtain ⟨ys, hturn⟩ := h.switch port p_saved_sp
    exact (Carries.of_evolves hturn.evolves hsteady.period hsteady.last).timing
      fun _ => hsteady.tick_now
  | callback =>
    show Timing s s.entryCall false []
    unfold entryCall
    split
    · exact (Carries.refl s).timing fun _ => rfl
    · exact Carries.timing (.of_eq rfl rfl rfl) fun _ => rfl
  | complete port outcome_running =>
    have hcomplete := steady_complete cfg port s outcome_running
    rw [show s.completeScan outcome_running = none from hscan] at hcomplete
    show Timing s (s.entryComplete cfg port outcome_running) false []
    rw [hcomplete]
    exact (Carries.refl s).timing fun _ => rfl
  | write i word => exact Carries.timing (.of_eq rfl rfl rfl) fun _ => rfl

/-! ## Scans -/

/-- Releases happen in an action that scans, and nothing else changes the timing. -/
structure Scanning (cfg : Config) (s u s' : State) (publishes : Bool) : Prop where
  joint : ∃ ys, u.Joint cfg ys none
  fault : u.fault = .ok
  before : Carries s u
  behind : Carries u.activateDue s'
  last : ∀ t, (s'.tasks t).last = (u.activateDue.tasks t).last
  now : u.tick_now = s'.tick_now
  tick_now : publishes = false → s'.tick_now = s.tick_now

/-- What a switch or a completion does behind its scan. -/
theorem Carries.of_scan (hsteady : Steady u.activateDue s') (hev : Evolves u s') :
    Carries u.activateDue s' := by
  have hact := activated_due u
  refine .of_evolves ⟨?_, ?_, ?_, ?_, ?_, ?_⟩ hsteady.period hsteady.last
  · rw [hact.eq]
    exact hev.group_list
  · rw [hact.eq]
    exact hev.generation
  · rw [hact.eq]
    exact hev.initRun
  · rw [hact.eq]
    exact hev.initialized
  · rw [hact.eq]
    exact hev.started
  · rw [hact.eq]
    exact hev.groups

/-- **A call with a scan.** -/
theorem Joint.scanning (h : s.Joint cfg xs none) (action : Action)
    (hscan : scanned cfg s action = some u) :
    Scanning cfg s u (s.exec cfg action) action.publishes ∧ s.enabling action = [] := by
  cases action with
  | tick port now =>
    refine ⟨?_, rfl⟩
    show Scanning cfg s u (s.sectionStlTick port now).1 true
    have hcases := tick_cases port s now
    rw [show s.tickScan port now = some u from hscan] at hcases
    obtain ⟨-, rfl, hdue⟩ := hcases
    have hok : s.fault = .ok := by
      have hready : s.tickScan port now = some { s with tick_now := now } := hscan
      unfold tickScan at hready
      split at hready
      · next hgo => exact hgo.2.2.1
      · exact nomatch hready
    have hsame : Same s { s with tick_now := now } :=
      ⟨rfl, fun _ => rfl, rfl, fun _ => rfl, rfl, rfl, rfl, rfl, rfl, rfl⟩
    rw [hdue]
    refine ⟨⟨xs, h.same hsame⟩, hok, .of_eq rfl rfl rfl, .refl _, fun _ => rfl, ?_, nofun⟩
    rw [(activated_due _).eq]
  | switch port p_saved_sp =>
    refine ⟨?_, rfl⟩
    show Scanning cfg s u (s.sectionStlSwitch cfg port p_saved_sp).1 false
    have hsteady := steady_switch cfg port s p_saved_sp
    rw [show s.switchScan cfg port p_saved_sp = some u from hscan] at hsteady
    obtain ⟨hbefore, hbehind⟩ := hsteady
    have hscan : s.switchScan cfg port p_saved_sp = some u := hscan
    unfold switchScan at hscan
    split at hscan
    · exact nomatch hscan
    next hready =>
    rw [not_or, not_not] at hready
    have hout := h.switchOut hready.1 port p_saved_sp
    unfold sectionStlSwitch at hbehind ⊢
    rw [if_neg (not_not_intro hready.1), if_neg hready.2] at hbehind ⊢
    split at hscan
    · next v hresult =>
      split at hscan
      · obtain rfl := Option.some.inj hscan
        rw [hresult] at hout hbehind ⊢
        obtain ⟨ys, hturn, -, hidle, hok⟩ := hout
        obtain ⟨zs, hin⟩ := hturn.joint.switchIn hidle port
        have hnow : (v.switchIn cfg port).1.tick_now = v.tick_now := by
          refine hbehind.tick_now.trans ?_
          rw [(activated_due v).eq]
        exact ⟨⟨ys, hturn.joint⟩, hok, .of_evolves hturn.evolves hbefore.period hbefore.last,
          .of_scan hbehind hin.evolves, hbehind.last, hnow.symm, fun _ =>
            hnow.trans hbefore.tick_now⟩
      · exact nomatch hscan
    · exact nomatch hscan
  | complete port outcome_running =>
    refine ⟨?_, rfl⟩
    show Scanning cfg s u (s.entryComplete cfg port outcome_running) false
    have hsteady := steady_complete cfg port s outcome_running
    rw [show s.completeScan outcome_running = some u from hscan] at hsteady
    obtain ⟨hbefore, hbehind⟩ := hsteady
    obtain ⟨t, htask, rfl⟩ := Option.map_eq_some_iff.mp hscan
    obtain ⟨ys, hjoint, hact⟩ := h.completed htask outcome_running
    obtain ⟨zs, hturn⟩ := h.complete port outcome_running
    -- the groups are those from before the callback was over
    have hev : Evolves (s.completed t outcome_running)
        (s.entryComplete cfg port outcome_running) := by
      refine ⟨?_, ?_, ?_, ?_, ?_, ?_⟩
      · rw [hact.eq]
        exact hturn.evolves.group_list
      · rw [hact.eq]
        exact hturn.evolves.generation
      · rw [hact.eq]
        exact hturn.evolves.initRun
      · rw [hact.eq]
        exact hturn.evolves.initialized
      · rw [hact.eq]
        exact hturn.evolves.started
      · rw [hact.eq]
        exact hturn.evolves.groups
    have hnow : (s.entryComplete cfg port outcome_running).tick_now =
        (s.completed t outcome_running).tick_now := by
      refine hbehind.tick_now.trans ?_
      rw [(activated_due _).eq]
    have hok : (s.completed t outcome_running).fault = .ok := by
      rw [hact.eq]
      obtain ⟨hcurrent, hrunning⟩ := runningTask_eq_some.mp htask
      exact h.placed.running t hcurrent hrunning
    refine ⟨⟨xs ++ ys, hjoint⟩, hok, .of_evolves (.of_groups ?_ ?_ ?_) hbefore.period hbefore.last,
      .of_scan hbehind hev, hbehind.last, hnow.symm, fun _ => hnow.trans hbefore.tick_now⟩
    · constructor <;> rw [hact.eq] <;> rfl
    · rw [hact.eq]
      rfl
    · rw [hact.eq]
      rfl
  | _ => exact nomatch hscan

/-! ## Releases -/

/-- A task after a scan that visits it. -/
def released (s : State) (t : ℕ) : Task :=
  let task := s.tasks t
  let elapsed := s.tick_now - task.last
  if task.state = .sleeping ∧ task.period ≤ elapsed then
    { task with last := task.last + elapsed / task.period * task.period, state := .new }
  else task

theorem released_period (s : State) (t : ℕ) : (s.released t).period = (s.tasks t).period := by
  unfold released
  dsimp only
  split <;> rfl

/-- The scan visits the task. -/
def Visits (s : State) (t : ℕ) : Prop :=
  ∃ g ∈ s.group_list, (s.groups g).state = .enabled ∧ t ∈ (s.groups g).tasks

instance (s : State) (t : ℕ) : Decidable (s.Visits t) :=
  inferInstanceAs
    (Decidable (∃ g ∈ s.group_list, (s.groups g).state = .enabled ∧ t ∈ (s.groups g).tasks))

theorem activateTask_tasks (s : State) (t u : ℕ) :
    (s.activateTask t).tasks u = if u = t then s.released t else s.tasks u := by
  unfold activateTask released
  dsimp only
  by_cases hut : u = t
  · subst hut
    rw [if_pos rfl]
    split
    · rw [readyPush_tasks, modify_tasks_self]
    · rfl
  · rw [if_neg hut]
    split
    · rw [readyPush_tasks, modify_tasks_of_ne _ _ hut]
    · rfl

theorem released_congr (htick : s'.tick_now = s.tick_now) (htask : s'.tasks t = s.tasks t) :
    s'.released t = s.released t := by
  unfold released
  rw [htick, htask]

theorem activateTasks_tasks {ts : List ℕ} (hts : ts.Nodup) (s : State) (u : ℕ) :
    (ts.foldl activateTask s).tasks u = if u ∈ ts then s.released u else s.tasks u := by
  induction ts generalizing s with
  | nil => rfl
  | cons t ts ih =>
    obtain ⟨ht, hts⟩ := List.nodup_cons.mp hts
    have htick : (s.activateTask t).tick_now = s.tick_now := by rw [(activated_task s t).eq]
    rw [List.foldl_cons, ih hts]
    by_cases hut : u = t
    · subst hut
      rw [if_neg ht, if_pos List.mem_cons_self, activateTask_tasks, if_pos rfl]
    · have hkept : (s.activateTask t).tasks u = s.tasks u := by
        rw [activateTask_tasks, if_neg hut]
      rw [released_congr htick hkept, hkept]
      simp [hut]

/-- The groups have no task in common. -/
theorem Joint.disjoint (h : s.Joint cfg xs out) : s.group_list.Pairwise fun g k =>
    ∀ t ∈ (s.groups g).tasks, t ∉ (s.groups k).tasks := by
  refine h.resident.nodup.imp_of_mem fun hg hk hne t ht hin => ?_
  exact hne (h.resident.owns_unique ⟨hg, ht⟩ ⟨hk, hin⟩)

theorem activateGroups_tasks {gs : List ℕ} (hlists : ∀ g ∈ gs, (s.groups g).tasks.Nodup)
    (hdisjoint : gs.Pairwise fun g k => ∀ t ∈ (s.groups g).tasks, t ∉ (s.groups k).tasks) (t : ℕ) :
    (gs.foldl (fun s g =>
      if (s.groups g).state ≠ .enabled then s else (s.groups g).tasks.foldl activateTask s)
        s).tasks t =
      if ∃ g ∈ gs, (s.groups g).state = .enabled ∧ t ∈ (s.groups g).tasks then s.released t
      else s.tasks t := by
  induction gs generalizing s with
  | nil => simp
  | cons g gs ih =>
    obtain ⟨hfirst, hrest⟩ := List.pairwise_cons.mp hdisjoint
    rw [List.foldl_cons]
    by_cases hstate : (s.groups g).state = .enabled
    · rw [if_neg (not_not_intro hstate)]
      have hact := activated_tasks (s.groups g).tasks s
      have hgroups := hact.groups.groups
      have htick : ((s.groups g).tasks.foldl activateTask s).tick_now = s.tick_now := by
        rw [hact.eq]
      have htasks := activateTasks_tasks (hlists g List.mem_cons_self) s
      generalize (s.groups g).tasks.foldl activateTask s = v at hact hgroups htick htasks
      have hnext :=
        ih (s := v) (by rw [hgroups]; exact fun k hk => hlists k (List.mem_cons_of_mem _ hk))
        (by rw [hgroups]; exact hrest)
      rw [hnext, hgroups]
      by_cases ht : t ∈ (s.groups g).tasks
      · have hnot : ¬ ∃ k ∈ gs, (s.groups k).state = .enabled ∧ t ∈ (s.groups k).tasks :=
          fun ⟨k, hk, _, hin⟩ => hfirst k hk t ht hin
        rw [if_neg hnot, htasks t, if_pos ht, if_pos ⟨g, List.mem_cons_self, hstate, ht⟩]
      · have hkept : v.tasks t = s.tasks t := by rw [htasks t, if_neg ht]
        rw [released_congr htick hkept, hkept]
        simp [ht]
    · rw [if_pos hstate, ih (fun k hk => hlists k (List.mem_cons_of_mem _ hk)) hrest]
      simp [hstate]

/-- **A scan** visits the tasks of the enabled groups, each of them once. -/
theorem Joint.activateDue_tasks (h : s.Joint cfg xs out) (t : ℕ) :
    s.activateDue.tasks t = if s.Visits t then s.released t else s.tasks t :=
  activateGroups_tasks h.resident.tasks_nodup h.disjoint t

end State
end Atoman.SectionStl
