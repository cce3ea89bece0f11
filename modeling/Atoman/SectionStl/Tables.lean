import Atoman.SectionStl.Turns

/-!
# What the group table keeps

The calls that change a group: its state, its initialization, its registration and its
end.
-/

namespace Atoman.SectionStl
namespace State
variable {cfg : Config} {s s' : State} {xs : List ℕ} {out : Option ℕ} {g t r : ℕ}

/-! ## One group changes -/

/-- The group `g` becomes `group`: its state or its initialization changes, and beside it at
most the record of the initialization that runs. -/
structure GroupSet (s s' : State) (g : ℕ) (group : Group) : Prop where
  rest : s' = { s with
    groups := s'.groups, init_callbacks := s'.init_callbacks, initRun := s'.initRun }
  groups : s'.groups = Function.update s.groups g group
  handle : group.handle = (s.groups g).handle
  tasks : group.tasks = (s.groups g).tasks

namespace GroupSet
variable {group : Group} (h : GroupSet s s' g group)
include h

theorem groups_self : s'.groups g = group := by rw [h.groups, Function.update_self]

theorem groups_of_ne {k : ℕ} (hk : k ≠ g) : s'.groups k = s.groups k := by
  rw [h.groups, Function.update_of_ne hk]

theorem table : s'.tasks = s.tasks := by rw [h.rest]

theorem group_list : s'.group_list = s.group_list := by rw [h.rest]

theorem ring : s'.ring = s.ring := by rw [h.rest]

theorem current : s'.current = s.current := by rw [h.rest]

theorem group_handle (k : ℕ) : (s'.groups k).handle = (s.groups k).handle := by
  by_cases hk : k = g
  · rw [hk, h.groups_self, h.handle]
  · rw [h.groups_of_ne hk]

theorem group_tasks (k : ℕ) : (s'.groups k).tasks = (s.groups k).tasks := by
  by_cases hk : k = g
  · rw [hk, h.groups_self, h.tasks]
  · rw [h.groups_of_ne hk]

theorem owns (k t : ℕ) : s'.Owns k t ↔ s.Owns k t := by
  unfold Owns
  rw [h.group_list, h.group_tasks]

theorem saved (r : ℕ) : s'.Saved cfg r ↔ s.Saved cfg r := by
  unfold Saved
  rw [h.ring]

theorem resident (hr : s.Resident cfg) : s'.Resident cfg where
  nodup := h.group_list ▸ hr.nodup
  listed := fun k hk => by
    rw [h.group_list] at hk
    rw [h.group_handle, h.rest]
    exact hr.listed k hk
  unlisted := fun k hk => by
    rw [h.group_list] at hk
    rw [h.group_handle]
    exact hr.unlisted k hk
  distinct := fun k hk k' hk' => by
    rw [h.group_list] at hk hk'
    rw [h.group_handle, h.group_handle]
    exact hr.distinct k hk k' hk'
  tasks_nodup := fun k hk => by
    rw [h.group_list] at hk
    rw [h.group_tasks]
    exact hr.tasks_nodup k hk
  owned := fun k t hk => by
    rw [h.table, h.group_handle]
    exact hr.owned k t ((h.owns k t).mp hk)
  resident := fun t ht => by
    rw [h.table] at ht
    obtain ⟨k, hk⟩ := hr.resident t ht
    exact ⟨k, (h.owns k t).mpr hk⟩
  cleared := h.table ▸ hr.cleared

/-- The tasks of the group may still wait by what is given, the others as before. -/
theorem waits (hq : s.Queued cfg xs)
    (hinit : (s.groups g).initialized = true → group.initialized = true)
    (hwaits : ∀ t ∈ xs, s.Owns g t → group.state = .enabled ∨
      (s.tasks t).state = .old ∧ ¬ .paused ≤ group.state) {t : ℕ} (ht : t ∈ xs) :
    s'.Waits cfg t := by
  rcases hq.waits t ht with ⟨hnew, k, hk, hmay⟩ | ⟨hold, ⟨k, hk, hmay⟩, r, hrecord, hsaved, hsource⟩
  · refine .new (h.table ▸ hnew) ⟨k, (h.owns k t).mpr hk, ?_⟩
    by_cases hkg : k = g
    · subst hkg
      rw [h.groups_self]
      refine (hwaits t ht hk).resolve_right fun hother => ?_
      rw [hnew] at hother
      exact absurd hother.1 (by decide)
    · rw [h.groups_of_ne hkg]
      exact hmay
  · refine .old (h.table ▸ hold) ⟨k, (h.owns k t).mpr hk, ?_⟩
      ⟨r, h.table ▸ hrecord, (h.saved r).mpr hsaved, by rw [h.ring, h.table]; exact hsource⟩
    by_cases hkg : k = g
    · subst hkg
      rw [h.groups_self]
      refine ⟨?_, hinit hmay.2⟩
      rcases hwaits t ht hk with henabled | ⟨-, hresume⟩
      · rw [henabled]
        decide
      · exact hresume
    · rw [h.groups_of_ne hkg]
      exact hmay

theorem queued (hq : s.Queued cfg xs) (hwaits : ∀ t ∈ xs, s'.Waits cfg t) :
    s'.Queued cfg xs where
  holds := by
    rw [h.rest]
    exact hq.holds
  count := by
    rw [h.rest]
    exact hq.count
  waits := hwaits
  saved := fun r hr => by
    rw [h.ring, h.table]
    exact hq.saved r ((h.saved r).mp hr)
  owners := fun r hr => by
    rw [h.ring] at hr ⊢
    obtain ⟨k, hk, howner⟩ := hq.owners r hr
    exact ⟨k, h.group_list ▸ hk, howner.trans (h.group_handle k).symm⟩
  record := h.table ▸ hq.record

theorem placed (hp : s.Placed xs out)
    (hrun : ∀ t, s.current = some t → s.Owns g t →
      group.initialized = true ∧ group.state ≠ .paused ∧ group.state ≠ .revoked) :
    s'.Placed xs out where
  current := fun t ht => by
    rw [h.current] at ht
    obtain ⟨k, hk, hmay⟩ := hp.current t ht
    refine ⟨k, (h.owns k t).mpr hk, ?_⟩
    by_cases hkg : k = g
    · subst hkg
      rw [h.groups_self]
      exact hrun t ht hk
    · rw [h.groups_of_ne hkg]
      exact hmay
  running := by
    rw [h.rest]
    exact hp.running
  settled := by
    rw [h.rest]
    exact hp.settled

/-- A group changes its state or its initialization. -/
theorem joint (hj : s.Joint cfg xs out)
    (hinit : (s.groups g).initialized = true → group.initialized = true)
    (hwaits : ∀ t ∈ xs, s.Owns g t → group.state = .enabled ∨
      (s.tasks t).state = .old ∧ ¬ .paused ≤ group.state)
    (hrun : ∀ t, s.current = some t → s.Owns g t →
      group.initialized = true ∧ group.state ≠ .paused ∧ group.state ≠ .revoked)
    (hstarting : s'.Starting) : s'.Joint cfg xs out where
  resident := h.resident hj.resident
  ring := h.ring ▸ hj.ring
  swept := h.ring ▸ hj.swept
  queued := h.queued hj.queued fun _ ht => h.waits hj.queued hinit hwaits ht
  placed := h.placed hj.placed hrun
  starting := hstarting

end GroupSet

/-- A group changes its state alone. -/
theorem Joint.setState (h : s.Joint cfg xs out) (hg : g ∈ s.group_list) (state : GroupState)
    (hwaits : ∀ t ∈ xs, s.Owns g t → state = .enabled ∨
      (s.tasks t).state = .old ∧ ¬ .paused ≤ state)
    (hrun : ∀ t, s.current = some t → s.Owns g t → state ≠ .paused ∧ state ≠ .revoked)
    (hbusy : (s.groups g).init_busy = true → state = .disabled ∨ state = .revoking)
    (henabled : state = .enabled → (s.groups g).initialized = true) :
    (s.modifyGroup g fun group => { group with state := state }).Joint cfg xs out := by
  have hset : GroupSet s (s.modifyGroup g fun group => { group with state := state }) g
      { s.groups g with state := state } := ⟨rfl, rfl, rfl, rfl⟩
  have hst := h.starting
  refine hset.joint h id hwaits (fun t ht howns => ⟨?_, hrun t ht howns⟩)
    ⟨fun k hk => ?_, hst.listed, fun k hk => ?_, fun k hk => ?_⟩
  · obtain ⟨k, hk, hinit, -⟩ := h.placed.current t ht
    rw [h.resident.owns_unique howns hk]
    exact hinit
  · by_cases hkg : k = g
    · rw [hkg, hset.groups_self]
      exact hst.busy g hg
    · rw [hset.groups_of_ne hkg]
      exact hst.busy k hk
  · by_cases hkg : k = g
    · rw [hkg, hset.groups_self]
      exact fun hb => ⟨(hst.state g hg hb).1, hbusy hb⟩
    · rw [hset.groups_of_ne hkg]
      exact hst.state k hk
  · by_cases hkg : k = g
    · rw [hkg, hset.groups_self]
      exact henabled
    · rw [hset.groups_of_ne hkg]
      exact hst.enabled k hk

theorem groupExecuting_eq_false : s.groupExecuting g = false ↔ (s.groups g).init_busy = false ∧
    ∀ t, s.current = some t → (s.tasks t).owner ≠ (s.groups g).handle := by
  unfold groupExecuting
  rw [Bool.or_eq_false_iff]
  cases s.current with
  | none => simp
  | some u => simp

/-- No code of the group runs: it may be closed for good. -/
theorem Joint.setRevoked (h : s.Joint cfg xs out) (hg : g ∈ s.group_list)
    (hnone : ∀ t ∈ xs, ¬ s.Owns g t) (hidle : s.groupExecuting g = false) :
    (s.modifyGroup g fun group => { group with state := .revoked }).Joint cfg xs out := by
  obtain ⟨hbusy, hcurrent⟩ := groupExecuting_eq_false.mp hidle
  refine h.setState hg .revoked (fun t ht howns => absurd howns (hnone t ht)) (fun t ht howns => ?_)
    (fun hb => nomatch hb.symm.trans hbusy) nofun
  exact absurd (h.resident.owned g t howns).2.2 (hcurrent t ht)

/-- No task of a cancelled group waits. -/
theorem Joint.none_waits (h : s.Joint cfg xs out) :
    ∀ t ∈ xs.filter (fun t => !s.removable (s.groups g).handle true t), ¬ s.Owns g t := by
  intro t ht howns
  have := (List.mem_filter.mp ht).2
  simp [removable, (h.resident.owned g t howns).2.2] at this

theorem Joint.groupCancel (h : s.Joint cfg xs out) (hg : g ∈ s.group_list) :
    (s.groupCancel cfg g).Joint cfg
      (xs.filter fun t => !s.removable (s.groups g).handle true t) out := by
  have hcancel := h.cancelTasks hg
  rw [groupCancel_eq]
  split
  · exact hcancel
  · next hidle => exact hcancel.setRevoked hg h.none_waits (Bool.eq_false_iff.mpr hidle)

/-- `section_stl_group_revoke` -/
theorem Joint.revoke (h : s.Joint cfg xs out) (hg : g ∈ s.group_list) :
    ((s.modifyGroup g fun group => { group with state := .revoking }).groupCancel cfg g).Joint cfg
      (xs.filter fun t => !s.removable (s.groups g).handle true t) out := by
  have hclosed := (h.cancelTasks hg).setState hg .revoking
    (fun t ht howns => absurd howns (h.none_waits t ht)) (fun _ _ _ => ⟨nofun, nofun⟩)
    (fun _ => Or.inr rfl) nofun
  rw [groupCancel_eq, modifyGroup_groups_self, cancelTasks_modifyGroup]
  split
  · exact hclosed
  · next hidle =>
    refine hclosed.setRevoked hg (fun t ht howns => h.none_waits t ht ⟨hg, ?_⟩)
      (Bool.eq_false_iff.mpr hidle)
    have hin := howns.2
    rw [modifyGroup_groups_self] at hin
    exact hin

/-! ## Initialization -/

/-- `section_stl_group_initialize` is admitted. -/
theorem Joint.startInit (h : s.Joint cfg xs out) (hg : g ∈ s.group_list)
    (hstate : (s.groups g).state = .disabled) (hinit : (s.groups g).initialized = false)
    (hbusy : ∀ k ∈ s.group_list, (s.groups k).init_busy = false) (callbacks : List RegInit)
    (run : InitRun) (hrun : run.group = g) :
    Joint cfg ({ s with init_callbacks := callbacks, initRun := some run }.modifyGroup g
      fun group => { group with init_busy := true }) xs out := by
  have hset : GroupSet s
      ({ s with init_callbacks := callbacks, initRun := some run }.modifyGroup g
        fun group => { group with init_busy := true }) g
      { s.groups g with init_busy := true } := ⟨rfl, rfl, rfl, rfl⟩
  refine hset.joint h id (fun t ht howns => ?_) (fun t ht howns => ?_)
    ⟨fun k hk => ?_, fun run' hrun' => ?_, fun k hk => ?_, fun k hk => ?_⟩
  · rcases h.queued.waits t ht with ⟨-, k, hk, hgroup⟩ | ⟨hold, ⟨k, hk, hgroup, -⟩, -⟩
    · rw [h.resident.owns_unique howns hk]
      exact Or.inl hgroup
    · rw [h.resident.owns_unique howns hk]
      exact Or.inr ⟨hold, hgroup⟩
  · obtain ⟨k, hk, hgroup⟩ := h.placed.current t ht
    rw [h.resident.owns_unique howns hk]
    exact hgroup
  · by_cases hkg : k = g
    · rw [hkg, hset.groups_self]
      exact iff_of_true rfl ⟨run, rfl, hrun⟩
    · rw [hset.groups_of_ne hkg, hbusy k hk]
      refine iff_of_false nofun ?_
      rintro ⟨run', heq, rfl⟩
      obtain rfl := Option.some.inj heq
      exact hkg hrun
  · obtain rfl := Option.some.inj hrun'
    rw [hrun]
    exact hg
  · by_cases hkg : k = g
    · rw [hkg, hset.groups_self]
      exact fun _ => ⟨hinit, Or.inl hstate⟩
    · rw [hset.groups_of_ne hkg]
      exact h.starting.state k hk
  · by_cases hkg : k = g
    · rw [hkg, hset.groups_self]
      exact fun henabled => nomatch hstate.symm.trans henabled
    · rw [hset.groups_of_ne hkg]
      exact h.starting.enabled k hk

/-- The end of an initialization, for either outcome. -/
theorem Joint.endInit (h : s.Joint cfg xs out) {run : InitRun} (hrun : s.initRun = some run)
    (group : Group) (hhandle : group.handle = (s.groups run.group).handle)
    (htasks : group.tasks = (s.groups run.group).tasks) (hbusy : group.init_busy = false)
    (hstate : group.state = (s.groups run.group).state ∨ .revoking ≤ (s.groups run.group).state)
    (henabled : group.state = .enabled → group.initialized = true) (callbacks : List RegInit) :
    Joint cfg { s with
      init_callbacks := callbacks
      initRun := none
      groups := Function.update s.groups run.group group } xs out := by
  have hg := h.starting.listed run hrun
  have hrunning := (h.starting.busy _ hg).mpr ⟨run, hrun, rfl⟩
  obtain ⟨hinit, -⟩ := h.starting.state _ hg hrunning
  have hset : GroupSet s { s with
      init_callbacks := callbacks
      initRun := none
      groups := Function.update s.groups run.group group } run.group group :=
    ⟨rfl, rfl, hhandle, htasks⟩
  refine hset.joint h
    (fun hdone => nomatch hinit.symm.trans hdone) (fun t ht howns => ?_) (fun t ht howns => ?_)
    ⟨fun k hk => ?_, nofun, fun k hk => ?_, fun k hk => ?_⟩
  · obtain ⟨k, hk, hmay⟩ := (h.queued.waits t ht).owned
    rw [← h.resident.owns_unique howns hk] at hmay
    rcases hstate with hsame | hrevoking
    · rw [hsame]
      rcases h.queued.waits t ht with ⟨-, k, hk, hgroup⟩ | ⟨hold, -, -⟩
      · rw [h.resident.owns_unique howns hk]
        exact Or.inl hgroup
      · exact Or.inr ⟨hold, hmay⟩
    · exact absurd (Nat.le_trans (by decide : GroupState.paused.val ≤ GroupState.revoking.val)
        hrevoking) hmay
  · obtain ⟨k, hk, hdone, -⟩ := h.placed.current t ht
    rw [← h.resident.owns_unique howns hk, hinit] at hdone
    exact nomatch hdone
  · by_cases hkg : k = run.group
    · subst hkg
      rw [hset.groups_self, hbusy]
      exact iff_of_false nofun (by rintro ⟨_, heq, -⟩; exact nomatch heq)
    · dsimp only
      rw [Function.update_of_ne hkg]
      refine iff_of_false (fun hk' => ?_) (by rintro ⟨_, heq, -⟩; exact nomatch heq)
      obtain ⟨run', heq, hgroup⟩ := (h.starting.busy k hk).mp hk'
      obtain rfl := Option.some.inj (hrun.symm.trans heq)
      exact hkg hgroup.symm
  · by_cases hkg : k = run.group
    · subst hkg
      rw [hset.groups_self, hbusy]
      exact nofun
    · dsimp only
      rw [Function.update_of_ne hkg]
      exact h.starting.state k hk
  · by_cases hkg : k = run.group
    · subst hkg
      rw [hset.groups_self]
      exact henabled
    · dsimp only
      rw [Function.update_of_ne hkg]
      exact h.starting.enabled k hk

/-! ## Registration -/

/-- The group slot of a registration. -/
def openGroup (s : State) (g : ℕ) (handle : Handle) : State :=
  { s with
    generation := handle.generation
    group_list := g :: s.group_list
    group_count := s.group_count + 1 }.modifyGroup g fun _ => { Group.zero with handle := handle }

/-- The tasks of a registration may be claimed behind its publication. -/
theorem registerCommit_eq (cfg : Config) (s : State) (image : Image) (group_id : UInt32)
    (table : List RegSection) (g : ℕ) : (s.registerCommit cfg image group_id table g).1 =
      table.foldl (claimEntry cfg image g) (s.openGroup g ⟨group_id, s.generation + 1⟩) := by
  have hcommute (u : State) (entry : RegSection) : claimEntry cfg image g
      { u with group_list := g :: u.group_list, group_count := u.group_count + 1 } entry =
        { claimEntry cfg image g u entry with
          group_list := g :: (claimEntry cfg image g u entry).group_list
          group_count := (claimEntry cfg image g u entry).group_count + 1 } := by
    unfold claimEntry
    split
    · split
      · rfl
      · unfold claimTask
        cases hfree : u.freeTask cfg with
        | none =>
          have hsame : freeTask cfg { u with
              group_list := g :: u.group_list, group_count := u.group_count + 1 } = none := hfree
          rw [hsame]
        | some t =>
          have hsame : freeTask cfg { u with
              group_list := g :: u.group_list, group_count := u.group_count + 1 } = some t := hfree
          rw [hsame]
          rfl
    · rfl
  exact (List.foldl_hom (fun u : State =>
    { u with group_list := g :: u.group_list, group_count := u.group_count + 1 }) hcommute).symm

section openGroup
variable (s : State) (g : ℕ) (handle : Handle)

theorem openGroup_groups_self :
    (s.openGroup g handle).groups g = { Group.zero with handle := handle } :=
  modifyGroup_groups_self _ _ _

variable {g}

theorem openGroup_groups_of_ne {k : ℕ} (hk : k ≠ g) :
    (s.openGroup g handle).groups k = s.groups k :=
  modifyGroup_groups_of_ne _ _ hk

variable {s}

/-- A resident group is where it was. -/
theorem openGroup_groups_of_mem (hnot : g ∉ s.group_list) {k : ℕ} (hk : k ∈ s.group_list) :
    (s.openGroup g handle).groups k = s.groups k :=
  openGroup_groups_of_ne s handle fun heq => hnot (heq ▸ hk)

theorem mem_openGroup {k : ℕ} :
    k ∈ (s.openGroup g handle).group_list ↔ k = g ∨ k ∈ s.group_list :=
  List.mem_cons

theorem openGroup_owns (hnot : g ∉ s.group_list) (k t : ℕ) :
    (s.openGroup g handle).Owns k t ↔ s.Owns k t := by
  unfold Owns
  rw [mem_openGroup]
  by_cases hk : k = g
  · subst hk
    rw [openGroup_groups_self]
    exact iff_of_false (fun hin => absurd hin.2 List.not_mem_nil) fun hin => hnot hin.1
  · rw [openGroup_groups_of_ne s handle hk]
    simp [hk]

variable {handle}

theorem Resident.openGroup (hr : s.Resident cfg) (hnot : g ∉ s.group_list)
    (hg : g < cfg.max_groups) (hid : handle.group_id ≠ 0)
    (hnew : ∀ k < cfg.max_groups, (s.groups k).handle.group_id ≠ handle.group_id)
    (hgeneration : s.generation ≤ handle.generation) : (s.openGroup g handle).Resident cfg where
  nodup := List.nodup_cons.mpr ⟨hnot, hr.nodup⟩
  listed := fun k hk => by
    rcases (mem_openGroup handle).mp hk with rfl | hk
    · rw [openGroup_groups_self]
      exact ⟨hg, hid, Nat.le_refl _⟩
    · obtain ⟨hlt, hid', hgen⟩ := hr.listed k hk
      rw [openGroup_groups_of_mem handle hnot hk]
      exact ⟨hlt, hid', Nat.le_trans hgen hgeneration⟩
  unlisted := fun k hk => by
    rw [mem_openGroup, not_or] at hk
    rw [openGroup_groups_of_ne s handle hk.1]
    exact hr.unlisted k hk.2
  distinct := fun k hk k' hk' heq => by
    -- no other group has the identity
    have hdistinct {k : ℕ} (hk : k ∈ s.group_list) :
        (s.groups k).handle.group_id ≠ handle.group_id := hnew k (hr.listed k hk).1
    rcases (mem_openGroup handle).mp hk with hin | hin <;>
      rcases (mem_openGroup handle).mp hk' with hin' | hin'
    · rw [hin, hin']
    · rw [hin, openGroup_groups_self, openGroup_groups_of_mem handle hnot hin'] at heq
      exact absurd heq.symm (hdistinct hin')
    · rw [hin', openGroup_groups_self, openGroup_groups_of_mem handle hnot hin] at heq
      exact absurd heq (hdistinct hin)
    · rw [openGroup_groups_of_mem handle hnot hin, openGroup_groups_of_mem handle hnot hin'] at heq
      exact hr.distinct k hin k' hin' heq
  tasks_nodup := fun k hk => by
    rcases (mem_openGroup handle).mp hk with rfl | hk
    · rw [openGroup_groups_self]
      exact List.nodup_nil
    · rw [openGroup_groups_of_mem handle hnot hk]
      exact hr.tasks_nodup k hk
  owned := fun k t hk => by
    have hk := (openGroup_owns handle hnot k t).mp hk
    rw [openGroup_groups_of_mem handle hnot hk.1]
    exact hr.owned k t hk
  resident := fun t ht => by
    obtain ⟨k, hk⟩ := hr.resident t ht
    exact ⟨k, (openGroup_owns handle hnot k t).mpr hk⟩
  cleared := hr.cleared

theorem Queued.openGroup (hq : s.Queued cfg xs) (hnot : g ∉ s.group_list) :
    (s.openGroup g handle).Queued cfg xs where
  holds := hq.holds
  count := hq.count
  waits := fun t ht => by
    rcases hq.waits t ht with ⟨hstate, k, hk, hgroup⟩ | ⟨hstate, ⟨k, hk, hgroup⟩, hrecord⟩
    · rw [← openGroup_groups_of_mem handle hnot hk.1] at hgroup
      exact .new hstate ⟨k, (openGroup_owns handle hnot k t).mpr hk, hgroup⟩
    · rw [← openGroup_groups_of_mem handle hnot hk.1] at hgroup
      exact .old hstate ⟨k, (openGroup_owns handle hnot k t).mpr hk, hgroup⟩ hrecord
  saved := hq.saved
  owners := fun r hr => by
    obtain ⟨k, hk, howner⟩ := hq.owners r hr
    rw [← openGroup_groups_of_mem handle hnot hk] at howner
    exact ⟨k, (mem_openGroup handle).mpr (Or.inr hk), howner⟩
  record := hq.record

theorem Placed.openGroup (hp : s.Placed xs out) (hnot : g ∉ s.group_list) :
    (s.openGroup g handle).Placed xs out where
  current := fun t ht => by
    obtain ⟨k, hk, hgroup⟩ := hp.current t ht
    rw [← openGroup_groups_of_mem handle hnot hk.1] at hgroup
    exact ⟨k, (openGroup_owns handle hnot k t).mpr hk, hgroup⟩
  running := hp.running
  settled := hp.settled

theorem Starting.openGroup (hst : s.Starting) (hnot : g ∉ s.group_list) :
    (s.openGroup g handle).Starting where
  busy := fun k hk => by
    rcases (mem_openGroup handle).mp hk with rfl | hk
    · rw [openGroup_groups_self]
      refine iff_of_false Bool.false_ne_true ?_
      rintro ⟨run, hrun, rfl⟩
      exact hnot (hst.listed run hrun)
    · rw [openGroup_groups_of_mem handle hnot hk]
      exact hst.busy k hk
  listed := fun run hrun => (mem_openGroup handle).mpr (Or.inr (hst.listed run hrun))
  state := fun k hk => by
    rcases (mem_openGroup handle).mp hk with rfl | hk
    · rw [openGroup_groups_self]
      intro hstate
      cases hstate
    · rw [openGroup_groups_of_mem handle hnot hk]
      exact hst.state k hk
  enabled := fun k hk => by
    rcases (mem_openGroup handle).mp hk with rfl | hk
    · rw [openGroup_groups_self]
      intro hstate
      cases hstate
    · rw [openGroup_groups_of_mem handle hnot hk]
      exact hst.enabled k hk

end openGroup

/-- A group slot is taken. -/
theorem Joint.openGroup (h : s.Joint cfg xs out) (hg : g < cfg.max_groups)
    (hfree : (s.groups g).handle.group_id = 0) {group_id : UInt32} (hid : group_id ≠ 0)
    (hnew : ∀ k < cfg.max_groups, (s.groups k).handle.group_id ≠ group_id)
    (hgeneration : s.generation ≠ 0xFFFFFFFF) :
    (s.openGroup g ⟨group_id, s.generation + 1⟩).Joint cfg xs out := by
  have hnot : g ∉ s.group_list := fun hin => (h.resident.listed g hin).2.1 hfree
  have hle : s.generation ≤ s.generation + 1 := UInt32.le_of_lt (UInt32.lt_add_one hgeneration)
  exact
    { resident := h.resident.openGroup hnot hg hid hnew hle
      ring := h.ring
      swept := h.swept
      queued := h.queued.openGroup hnot
      placed := h.placed.openGroup hnot
      starting := h.starting.openGroup hnot }

theorem mem_insertByPeriod {period : ℕ → UInt32} {u : ℕ} {us : List ℕ} :
    u ∈ insertByPeriod period t us ↔ u = t ∨ u ∈ us := by
  induction us with
  | nil => simp [insertByPeriod]
  | cons v us ih =>
    unfold insertByPeriod
    split
    · simp
    · rw [List.mem_cons, ih, List.mem_cons]
      exact or_left_comm

theorem nodup_insertByPeriod {period : ℕ → UInt32} {us : List ℕ} (hus : us.Nodup) (ht : t ∉ us) :
    (insertByPeriod period t us).Nodup := by
  induction us with
  | nil => simp [insertByPeriod]
  | cons v us ih =>
    obtain ⟨hv, hus⟩ := List.nodup_cons.mp hus
    rw [List.mem_cons, not_or] at ht
    unfold insertByPeriod
    split
    · simp [ht, hv, hus]
    · refine List.nodup_cons.mpr ⟨fun hin => ?_, ih hus ht.2⟩
      rcases mem_insertByPeriod.mp hin with heq | hin
      · exact ht.1 heq.symm
      · exact hv hin

/-- Nothing changes but the groups, the tasks and the links of the queue. -/
structure InTables (s s' : State) : Prop where
  rest : s' = { s with
    tasks := s'.tasks, ready := s'.ready, groups := s'.groups, group_list := s'.group_list
    group_count := s'.group_count }

namespace InTables
variable (h : InTables s s')
include h

theorem generation : s'.generation = s.generation := by rw [h.rest]

theorem ready_count : s'.ready_count = s.ready_count := by rw [h.rest]

theorem ring : s'.ring = s.ring := by rw [h.rest]

theorem current : s'.current = s.current := by rw [h.rest]

theorem fault : s'.fault = s.fault := by rw [h.rest]

theorem initRun : s'.initRun = s.initRun := by rw [h.rest]

theorem saved (r : ℕ) : s'.Saved cfg r ↔ s.Saved cfg r := by
  unfold Saved
  rw [h.ring]

end InTables

/-- The free task slot `t` is taken by the resident group `g`. -/
structure Taken (s s' : State) (g t : ℕ) : Prop extends InTables s s' where
  listed : g ∈ s.group_list
  group_list : s'.group_list = s.group_list
  free : (s.tasks t).state = .free
  owner : (s'.tasks t).owner = (s.groups g).handle
  sleeping : (s'.tasks t).state = .sleeping
  record : (s'.tasks t).record = none
  other : ∀ u, u ≠ t → s'.tasks u = s.tasks u
  inserted : ∃ period, (s'.groups g).tasks = insertByPeriod period t (s.groups g).tasks
  others : ∀ k, k ≠ g → (s'.groups k).tasks = (s.groups k).tasks
  handle : ∀ k, (s'.groups k).handle = (s.groups k).handle
  state : ∀ k, (s'.groups k).state = (s.groups k).state
  init_busy : ∀ k, (s'.groups k).init_busy = (s.groups k).init_busy
  initialized : ∀ k, (s'.groups k).initialized = (s.groups k).initialized

namespace Taken
variable (h : Taken s s' g t)
include h

theorem owns (k u : ℕ) : s'.Owns k u ↔ s.Owns k u ∨ k = g ∧ u = t := by
  unfold Owns
  rw [h.group_list]
  by_cases hk : k = g
  · obtain ⟨period, hperiod⟩ := h.inserted
    rw [hk, hperiod]
    simp only [mem_insertByPeriod, h.listed, true_and]
    exact or_comm
  · rw [h.others k hk]
    simp [hk]

theorem ne_of_waits (hq : s.Queued cfg xs) {u : ℕ} (hu : u ∈ xs) : u ≠ t := by
  rintro rfl
  rcases (hq.waits u hu).state with hstate | hstate
  · exact nomatch h.free.symm.trans hstate
  · exact nomatch h.free.symm.trans hstate

theorem ne_of_owns (hr : s.Resident cfg) {k u : ℕ} (hu : s.Owns k u) : u ≠ t := by
  rintro rfl
  exact (hr.owned k u hu).2.1 h.free

theorem resident (hr : s.Resident cfg) (hlt : t < cfg.max_tasks) : s'.Resident cfg where
  nodup := h.group_list ▸ hr.nodup
  listed := fun k hk => by
    rw [h.group_list] at hk
    rw [h.handle k, h.generation]
    exact hr.listed k hk
  unlisted := fun k hk => by
    rw [h.group_list] at hk
    rw [h.handle k]
    exact hr.unlisted k hk
  distinct := fun k hk k' hk' => by
    rw [h.group_list] at hk hk'
    rw [h.handle k, h.handle k']
    exact hr.distinct k hk k' hk'
  tasks_nodup := fun k hk => by
    rw [h.group_list] at hk
    by_cases hkg : k = g
    · obtain ⟨period, hperiod⟩ := h.inserted
      rw [hkg, hperiod]
      refine nodup_insertByPeriod (hr.tasks_nodup g h.listed) fun hin => ?_
      exact h.ne_of_owns hr ⟨h.listed, hin⟩ rfl
    · rw [h.others k hkg]
      exact hr.tasks_nodup k hk
  owned := fun k u hu => by
    rw [h.handle k]
    rcases (h.owns k u).mp hu with hold | ⟨rfl, rfl⟩
    · rw [h.other u (h.ne_of_owns hr hold)]
      exact hr.owned k u hold
    · rw [h.sleeping]
      exact ⟨hlt, nofun, h.owner⟩
  resident := fun u hu => by
    by_cases hut : u = t
    · exact ⟨g, (h.owns g u).mpr (Or.inr ⟨rfl, hut⟩)⟩
    · rw [h.other u hut] at hu
      obtain ⟨k, hk⟩ := hr.resident u hu
      exact ⟨k, (h.owns k u).mpr (Or.inl hk)⟩
  cleared := fun u hu => by
    by_cases hut : u = t
    · rw [hut, h.sleeping] at hu
      exact nomatch hu
    · rw [h.other u hut] at hu ⊢
      exact hr.cleared u hu

theorem waits (hq : s.Queued cfg xs) {u : ℕ} (hu : u ∈ xs) : s'.Waits cfg u := by
  have htask := h.other u (h.ne_of_waits hq hu)
  rcases hq.waits u hu with ⟨hstate, k, hk, hmay⟩ | ⟨hstate, ⟨k, hk, hmay⟩, r,
    hrecord, hsaved, hsource⟩
  · refine .new (htask ▸ hstate) ⟨k, (h.owns k u).mpr (Or.inl hk), ?_⟩
    rw [h.state k]
    exact hmay
  · refine .old (htask ▸ hstate) ⟨k, (h.owns k u).mpr (Or.inl hk), ?_⟩
      ⟨r, htask ▸ hrecord, (h.saved r).mpr hsaved, ?_⟩
    · rw [h.state k, h.initialized k]
      exact hmay
    · rw [h.ring, htask]
      exact hsource

theorem queued (hq : s.Queued cfg xs) (hholds : s'.ready.Holds xs) : s'.Queued cfg xs where
  holds := hholds
  count := h.ready_count.trans hq.count
  waits := fun u hu => h.waits hq hu
  saved := fun r hr => by
    obtain ⟨hin, hrecord⟩ := hq.saved r ((h.saved r).mp hr)
    rw [h.ring, h.other _ (h.ne_of_waits hq hin)]
    exact ⟨hin, hrecord⟩
  owners := fun r hr => by
    rw [h.ring] at hr ⊢
    obtain ⟨k, hk, howner⟩ := hq.owners r hr
    exact ⟨k, h.group_list ▸ hk, howner.trans (h.handle k).symm⟩
  record := fun u hu => by
    by_cases hut : u = t
    · rw [hut, h.record] at hu
      exact absurd rfl hu
    · rw [h.other u hut] at hu ⊢
      exact hq.record u hu

theorem placed (hp : s.Placed xs out) : s'.Placed xs out where
  current := fun u hu => by
    rw [h.current] at hu
    obtain ⟨k, hk, hmay⟩ := hp.current u hu
    refine ⟨k, (h.owns k u).mpr (Or.inl hk), ?_⟩
    rw [h.initialized k, h.state k]
    exact hmay
  running := fun u hu hrunning => by
    rw [h.current] at hu
    rw [h.fault]
    by_cases hut : u = t
    · rw [hut, h.sleeping] at hrunning
      exact nomatch hrunning
    · rw [h.other u hut] at hrunning
      exact hp.running u hu hrunning
  settled := fun hok u hout => by
    rw [h.fault] at hok
    rw [h.current]
    by_cases hut : u = t
    · rw [hut, h.sleeping]
      refine ⟨fun hready => ?_, nofun⟩
      rcases hready with hready | hready <;> exact nomatch hready
    · rw [h.other u hut]
      exact hp.settled hok u hout

theorem starting (hst : s.Starting) : s'.Starting where
  busy := fun k hk => by
    rw [h.group_list] at hk
    rw [h.init_busy k, h.initRun]
    exact hst.busy k hk
  listed := fun run hrun => by
    rw [h.initRun] at hrun
    rw [h.group_list]
    exact hst.listed run hrun
  state := fun k hk => by
    rw [h.group_list] at hk
    rw [h.init_busy k, h.initialized k, h.state k]
    exact hst.state k hk
  enabled := fun k hk => by
    rw [h.group_list] at hk
    rw [h.state k, h.initialized k]
    exact hst.enabled k hk

end Taken

/-- What `claimTask` does with the slot that it finds. -/
theorem taken_claimTask (hg : g ∈ s.group_list) {source : RegTask}
    (hfind : s.freeTask cfg = some t) :
    Taken s (s.claimTask cfg g source) g t ∧
      (s.claimTask cfg g source).ready = s.ready.clear t := by
  have hfree : (s.tasks t).state = .free := by
    unfold freeTask at hfind
    simpa using List.find?_some hfind
  unfold State.claimTask
  rw [hfind]
  dsimp only
  set task : Task :=
    { owner := (s.groups g).handle
      quantum_left := 0
      period := source.t_period
      last := s.tick_now
      p_func := source.p_func
      p_step_func := source.p_step_func
      p_ctx := source.p_ctx
      record := none
      state := .sleeping }
  set s₁ := { s with ready := s.ready.clear t }.modify t fun _ => task
  set s' := s₁.modifyGroup g fun group =>
    { group with
      tasks := insertByPeriod (fun u => (s₁.tasks u).period) t group.tasks
      task_count := group.task_count + 1 }
  have hself : s'.tasks t = task := Function.update_self t _ _
  have hgroup : s'.groups g = { s.groups g with
      tasks := insertByPeriod (fun u => (s₁.tasks u).period) t (s.groups g).tasks
      task_count := (s.groups g).task_count + 1 } := Function.update_self g _ _
  have hgroups {k : ℕ} (hk : k ≠ g) : s'.groups k = s.groups k := Function.update_of_ne hk _ _
  have hview (k : ℕ) : (s'.groups k).handle = (s.groups k).handle ∧
      (s'.groups k).state = (s.groups k).state ∧
      (s'.groups k).init_busy = (s.groups k).init_busy ∧
      (s'.groups k).initialized = (s.groups k).initialized := by
    by_cases hk : k = g
    · rw [hk, hgroup]
      exact ⟨rfl, rfl, rfl, rfl⟩
    · rw [hgroups hk]
      exact ⟨rfl, rfl, rfl, rfl⟩
  exact ⟨{
    rest := rfl
    listed := hg
    group_list := rfl
    free := hfree
    owner := congrArg Task.owner hself
    sleeping := congrArg Task.state hself
    record := congrArg Task.record hself
    other := fun u hu => Function.update_of_ne hu _ _
    inserted := ⟨_, congrArg Group.tasks hgroup⟩
    others := fun k hk => congrArg Group.tasks (hgroups hk)
    handle := fun k => (hview k).1
    state := fun k => (hview k).2.1
    init_busy := fun k => (hview k).2.2.1
    initialized := fun k => (hview k).2.2.2 }, rfl⟩

/-- A free task slot is taken by a resident group. -/
theorem Joint.claimTask (h : s.Joint cfg xs out) (hg : g ∈ s.group_list) (source : RegTask) :
    (s.claimTask cfg g source).Joint cfg xs out := by
  cases hfind : s.freeTask cfg with
  | none =>
    unfold State.claimTask
    rw [hfind]
    exact h
  | some t =>
    have hlt : t < cfg.max_tasks := List.mem_range.mp (List.mem_of_find?_eq_some hfind)
    obtain ⟨htaken, hready⟩ := taken_claimTask hg hfind
    have hnot : t ∉ xs := fun ht => htaken.ne_of_waits h.queued ht rfl
    exact
      { resident := htaken.resident h.resident hlt
        ring := htaken.ring ▸ h.ring
        swept := htaken.ring ▸ h.swept
        queued := htaken.queued h.queued (hready ▸ h.queued.holds.clear hnot)
        placed := htaken.placed h.placed
        starting := htaken.starting h.starting }

/-- `section_stl_group_register`, for a table that passes the checks. -/
theorem Joint.registerCommit (h : s.Joint cfg xs out) (hg : g < cfg.max_groups)
    (hfree : (s.groups g).handle.group_id = 0) {group_id : UInt32} (hid : group_id ≠ 0)
    (hnew : ∀ k < cfg.max_groups, (s.groups k).handle.group_id ≠ group_id)
    (hgeneration : s.generation ≠ 0xFFFFFFFF) (image : Image) (table : List RegSection) :
    (s.registerCommit cfg image group_id table g).1.Joint cfg xs out := by
  rw [registerCommit_eq]
  have hopen := h.openGroup hg hfree hid hnew hgeneration
  have hlist : g ∈ (s.openGroup g ⟨group_id, s.generation + 1⟩).group_list := List.mem_cons_self
  generalize s.openGroup g ⟨group_id, s.generation + 1⟩ = s₁ at hopen hlist
  induction table generalizing s₁ with
  | nil => exact hopen
  | cons entry table ih =>
    rw [List.foldl_cons]
    unfold claimEntry
    split
    · split
      · exact ih _ hopen hlist
      · refine ih _ (hopen.claimTask hlist _) ?_
        unfold State.claimTask
        split <;> exact hlist
    · exact ih _ hopen hlist

/-! ## The end of a group -/

/-- What clearing the slots of tasks outside the queue does. -/
theorem clearTasks_spec {ts : List ℕ} (hholds : s.ready.Holds xs) (hts : ∀ t ∈ ts, t ∉ xs) :
    (s.clearTasks ts).ready.Holds xs ∧
      s.clearTasks ts = { s with
        ready := (s.clearTasks ts).ready
        tasks := fun t => if t ∈ ts then .zero else s.tasks t } := by
  induction ts generalizing s with
  | nil => exact ⟨hholds, by simp [clearTasks]⟩
  | cons t ts ih =>
    obtain ⟨hready, heq⟩ := ih (s := { s with ready := s.ready.clear t }.modify t fun _ => .zero)
      (hholds.clear (hts t List.mem_cons_self)) fun u hu => hts u (List.mem_cons_of_mem _ hu)
    refine ⟨hready, ?_⟩
    show clearTasks ({ s with ready := s.ready.clear t }.modify t fun _ => .zero) ts = _
    rw [heq]
    refine congrArg (fun tasks => { s with
      ready := (clearTasks ({ s with ready := s.ready.clear t }.modify t fun _ => .zero) ts).ready
      tasks := tasks }) (funext fun u => ?_)
    show (if u ∈ ts then Task.zero else Function.update s.tasks t .zero u) = _
    by_cases hu : u = t
    · subst hu
      simp
    · simp [hu]

/-- The group `g` and its tasks are dropped. -/
structure Dropped (s s' : State) (g : ℕ) : Prop extends InTables s s' where
  listed : g ∈ s.group_list
  nodup : s.group_list.Nodup
  group_list : s'.group_list = s.group_list.erase g
  zero : s'.groups g = .zero
  others : ∀ k, k ≠ g → s'.groups k = s.groups k
  cleared : ∀ t ∈ (s.groups g).tasks, s'.tasks t = .zero
  other : ∀ t, t ∉ (s.groups g).tasks → s'.tasks t = s.tasks t

namespace Dropped
variable (h : Dropped s s' g)
include h

theorem mem {k : ℕ} : k ∈ s'.group_list ↔ k ≠ g ∧ k ∈ s.group_list := by
  rw [h.group_list]
  exact h.nodup.mem_erase_iff

theorem owns (k t : ℕ) : s'.Owns k t ↔ k ≠ g ∧ s.Owns k t := by
  unfold Owns
  rw [h.mem, and_assoc]
  refine and_congr_right fun hk => ?_
  rw [h.others k hk]

/-- The tasks of the other groups are not cleared. -/
theorem apart (hr : s.Resident cfg) {k t : ℕ} (hk : k ≠ g) (hkt : s.Owns k t) :
    t ∉ (s.groups g).tasks :=
  fun ht => hk (hr.owns_unique hkt ⟨h.listed, ht⟩)

theorem resident (hr : s.Resident cfg) : s'.Resident cfg where
  nodup := h.group_list ▸ hr.nodup.erase g
  listed := fun k hk => by
    obtain ⟨hkg, hk⟩ := h.mem.mp hk
    rw [h.others k hkg, h.generation]
    exact hr.listed k hk
  unlisted := fun k hk => by
    by_cases hkg : k = g
    · rw [hkg, h.zero]
      rfl
    · rw [h.others k hkg]
      exact hr.unlisted k fun hin => hk (h.mem.mpr ⟨hkg, hin⟩)
  distinct := fun k hk k' hk' => by
    obtain ⟨hkg, hk⟩ := h.mem.mp hk
    obtain ⟨hkg', hk'⟩ := h.mem.mp hk'
    rw [h.others k hkg, h.others k' hkg']
    exact hr.distinct k hk k' hk'
  tasks_nodup := fun k hk => by
    obtain ⟨hkg, hk⟩ := h.mem.mp hk
    rw [h.others k hkg]
    exact hr.tasks_nodup k hk
  owned := fun k t hk => by
    obtain ⟨hkg, hk⟩ := (h.owns k t).mp hk
    rw [h.others k hkg, h.other t (h.apart hr hkg hk)]
    exact hr.owned k t hk
  resident := fun t ht => by
    by_cases hin : t ∈ (s.groups g).tasks
    · rw [h.cleared t hin] at ht
      exact absurd rfl ht
    · rw [h.other t hin] at ht
      obtain ⟨k, hk⟩ := hr.resident t ht
      exact ⟨k, (h.owns k t).mpr ⟨fun heq => hin (heq ▸ hk.2), hk⟩⟩
  cleared := fun t ht => by
    by_cases hin : t ∈ (s.groups g).tasks
    · rw [h.cleared t hin]
      rfl
    · rw [h.other t hin] at ht ⊢
      exact hr.cleared t ht

/-- None of its tasks waits, so the tasks that do are not touched. -/
theorem waits (hq : s.Queued cfg xs) (hwaiting : ∀ t ∈ xs, ¬s.Owns g t) {t : ℕ} (ht : t ∈ xs) :
    s'.Waits cfg t := by
  have htask := h.other t fun hin => hwaiting t ht ⟨h.listed, hin⟩
  have hne {k : ℕ} (hk : s.Owns k t) : k ≠ g := fun heq => hwaiting t ht (heq ▸ hk)
  rcases hq.waits t ht with ⟨hnew, k, hk, hmay⟩ | ⟨hold, ⟨k, hk, hmay⟩, r, hrecord, hsaved, hsource⟩
  · refine .new (htask ▸ hnew) ⟨k, (h.owns k t).mpr ⟨hne hk, hk⟩, ?_⟩
    rw [h.others k (hne hk)]
    exact hmay
  · refine .old (htask ▸ hold) ⟨k, (h.owns k t).mpr ⟨hne hk, hk⟩, ?_⟩
      ⟨r, htask ▸ hrecord, (h.saved r).mpr hsaved, ?_⟩
    · rw [h.others k (hne hk)]
      exact hmay
    · rw [h.ring, htask]
      exact hsource

theorem queued (hq : s.Queued cfg xs) (hholds : s'.ready.Holds xs)
    (hwaiting : ∀ t ∈ xs, ¬s.Owns g t)
    (hrecords : ∀ r ∈ s.ring.live cfg, (s.ring.records r).owner ≠ (s.groups g).handle) :
    s'.Queued cfg xs where
  holds := hholds
  count := h.ready_count.trans hq.count
  waits := fun t ht => h.waits hq hwaiting ht
  saved := fun r hr => by
    obtain ⟨hin, hrecord⟩ := hq.saved r ((h.saved r).mp hr)
    rw [h.ring, h.other _ fun howned => hwaiting _ hin ⟨h.listed, howned⟩]
    exact ⟨hin, hrecord⟩
  owners := fun r hr => by
    rw [h.ring] at hr ⊢
    obtain ⟨k, hk, howner⟩ := hq.owners r hr
    have hkg : k ≠ g := fun heq => hrecords r hr (heq ▸ howner)
    exact ⟨k, h.mem.mpr ⟨hkg, hk⟩, howner.trans (congrArg Group.handle (h.others k hkg)).symm⟩
  record := fun t ht => by
    by_cases hin : t ∈ (s.groups g).tasks
    · rw [h.cleared t hin]
      exact Or.inr rfl
    · rw [h.other t hin] at ht ⊢
      exact hq.record t ht

theorem placed (hp : s.Placed xs out) (hcurrent : ∀ t, s.current = some t → ¬s.Owns g t) :
    s'.Placed xs out where
  current := fun t ht => by
    rw [h.current] at ht
    obtain ⟨k, hk, hmay⟩ := hp.current t ht
    have hkg : k ≠ g := fun heq => hcurrent t ht (heq ▸ hk)
    refine ⟨k, (h.owns k t).mpr ⟨hkg, hk⟩, ?_⟩
    rw [h.others k hkg]
    exact hmay
  running := fun t ht hrunning => by
    rw [h.current] at ht
    rw [h.fault]
    by_cases hin : t ∈ (s.groups g).tasks
    · rw [h.cleared t hin] at hrunning
      exact nomatch hrunning
    · rw [h.other t hin] at hrunning
      exact hp.running t ht hrunning
  settled := fun hok t hout => by
    rw [h.fault] at hok
    rw [h.current]
    by_cases hin : t ∈ (s.groups g).tasks
    · rw [h.cleared t hin]
      refine ⟨fun hready => ?_, nofun⟩
      rcases hready with hready | hready <;> exact nomatch hready
    · rw [h.other t hin]
      exact hp.settled hok t hout

theorem starting (hst : s.Starting) (hbusy : (s.groups g).init_busy = false) : s'.Starting where
  busy := fun k hk => by
    obtain ⟨hkg, hk⟩ := h.mem.mp hk
    rw [h.others k hkg, h.initRun]
    exact hst.busy k hk
  listed := fun run hrun => by
    rw [h.initRun] at hrun
    refine h.mem.mpr ⟨fun heq => ?_, hst.listed run hrun⟩
    exact nomatch ((hst.busy g h.listed).mpr ⟨run, hrun, heq⟩).symm.trans hbusy
  state := fun k hk => by
    obtain ⟨hkg, hk⟩ := h.mem.mp hk
    rw [h.others k hkg]
    exact hst.state k hk
  enabled := fun k hk => by
    obtain ⟨hkg, hk⟩ := h.mem.mp hk
    rw [h.others k hkg]
    exact hst.enabled k hk

end Dropped

/-- `section_stl_group_forget`, for a group that is retired. -/
theorem Joint.forget (h : s.Joint cfg xs out) (hg : g ∈ s.group_list)
    (hstate : (s.groups g).state = .revoked) (hidle : s.groupExecuting g = false)
    (hrecords : ∀ r ∈ s.ring.live cfg, (s.ring.records r).owner ≠ (s.groups g).handle) :
    Joint cfg ({ s.clearTasks (s.groups g).tasks with
      group_list := (s.clearTasks (s.groups g).tasks).group_list.erase g
      group_count := (s.clearTasks (s.groups g).tasks).group_count - 1 }.modifyGroup g
        fun _ => .zero) xs out := by
  obtain ⟨hbusy, hcurrent⟩ := groupExecuting_eq_false.mp hidle
  have hwaiting : ∀ t ∈ xs, ¬s.Owns g t := by
    intro t ht howns
    obtain ⟨k, hk, hmay⟩ := (h.queued.waits t ht).owned
    rw [← h.resident.owns_unique howns hk, hstate] at hmay
    exact hmay (by decide)
  obtain ⟨hready, heq⟩ := clearTasks_spec h.queued.holds fun t ht hin => hwaiting t hin ⟨hg, ht⟩
  rw [heq]
  set s' := { s with
    ready := (s.clearTasks (s.groups g).tasks).ready
    tasks := fun t => if t ∈ (s.groups g).tasks then .zero else s.tasks t
    group_list := s.group_list.erase g
    group_count := s.group_count - 1 }.modifyGroup g fun _ => .zero
  have hdropped : Dropped s s' g :=
    { rest := rfl
      listed := hg
      nodup := h.resident.nodup
      group_list := rfl
      zero := Function.update_self g _ _
      others := fun k hk => Function.update_of_ne hk _ _
      cleared := fun t ht => if_pos ht
      other := fun t ht => if_neg ht }
  have hleft (t : ℕ) (ht : s.current = some t) : ¬s.Owns g t := fun howns =>
    hcurrent t ht (h.resident.owned g t howns).2.2
  exact
    { resident := hdropped.resident h.resident
      ring := h.ring
      swept := h.swept
      queued := hdropped.queued h.queued hready hwaiting hrecords
      placed := hdropped.placed h.placed hleft
      starting := hdropped.starting h.starting hbusy }

end State
end Atoman.SectionStl
