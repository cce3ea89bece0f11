import Atoman.SectionStl.Conservation

/-!
# Revocation is final

A generation is given out once. So a group that is revoked stays so, and one that is
forgotten leaves nothing that any later state of the tables could take for it.
-/

namespace Atoman.SectionStl
open Lib (Transition)
namespace State
variable {cfg : Config} {s s' : State} {xs : List ℕ} {g : ℕ} {handle : Handle} {sound : Prop}

/-- The callbacks of the incarnation that were started. -/
def starts (s : State) (handle : Handle) : ℕ := s.history.started.count handle

/-- The snapshots of the incarnation that were restored. -/
def restores (s : State) (handle : Handle) : ℕ :=
  s.history.restored.countP fun restoration => restoration.owner = handle

/-- The handle was given out, and its group is revoked if it is still there. -/
structure Closed (s : State) (handle : Handle) : Prop where
  generation : handle.generation ≤ s.generation
  revoked : ∀ g ∈ s.group_list, (s.groups g).handle = handle → (s.groups g).state = .revoked

/-- The handle was given out, and its group is not there. -/
structure Gone (s : State) (handle : Handle) : Prop where
  group_id : handle.group_id ≠ 0
  generation : handle.generation ≤ s.generation
  unlisted : ∀ g ∈ s.group_list, (s.groups g).handle ≠ handle

/-- Nothing holds the group: no lease, no record, no code that runs. -/
structure Idle (cfg : Config) (s : State) (handle : Handle) : Prop where
  references : ∀ g ∈ s.group_list, (s.groups g).handle = handle → (s.groups g).references = 0
  records : ∀ r ∈ s.ring.live cfg, (s.ring.records r).owner ≠ handle
  executing : ∀ g ∈ s.group_list, (s.groups g).handle = handle → s.groupExecuting g = false

/-- Nothing of the incarnation is left. -/
structure Absent (cfg : Config) (s : State) (handle : Handle) : Prop where
  groups : ∀ g, (s.groups g).handle ≠ handle
  tasks : ∀ t, (s.tasks t).owner ≠ handle
  records : ∀ r ∈ s.ring.live cfg, (s.ring.records r).owner ≠ handle
  ready : ∀ t, s.ready.linked t = true → (s.tasks t).owner ≠ handle
  current : ∀ t, s.current = some t → (s.tasks t).owner ≠ handle
  initRun : ∀ run, s.initRun = some run → (s.groups run.group).handle ≠ handle

/-- What the calls answer to a handle without a group once their checks of the context and
of the other arguments pass. `section_stl_group_initialize` looks the handle up first, and what
it has found is overridden while a fault is latched or an initialization runs. -/
structure AnswersStale (cfg : Config) (s : State) (handle : Handle) : Prop where
  initializeBegin : ∀ port image p_entries count, port.api_allowed = true →
    port.nativeContext = true →
    ¬ (cfg.max_registrations < count ∨ (0 < count ∧ p_entries.isNone)) → s.fault = .ok →
    (∀ g ∈ s.group_list, (s.groups g).init_busy = false) →
    (s.sectionStlGroupInitialize cfg port image handle p_entries count).2 = .stale
  enable : ∀ port, port.api_allowed = true → (s.sectionStlGroupEnable port handle).2 = .stale
  disable : ∀ port, port.api_allowed = true → (s.sectionStlGroupDisable cfg port handle).2 = .stale
  pause : ∀ port, port.api_allowed = true → (s.sectionStlGroupPause cfg port handle).2 = .stale
  revoke : ∀ port, port.api_allowed = true → (s.sectionStlGroupRevoke cfg port handle).2 = .stale
  acquire : ∀ port, port.api_allowed = true → (s.sectionStlGroupAcquire port handle).2 = .stale
  release : ∀ port, port.api_allowed = true → (s.sectionStlGroupRelease port handle).2 = .stale
  quiescent : ∀ port, port.api_allowed = true → port.nativeContext = true →
    (s.sectionStlGroupQuiescent cfg port handle).2 = .stale
  forget : ∀ port, port.api_allowed = true → port.nativeContext = true →
    (s.sectionStlGroupForget cfg port handle).2 = .stale
  query : ∀ port, port.api_allowed = true → (s.sectionStlGroupQuery cfg port handle true).1 = .stale

/-! ## Closed and forgotten groups -/

/-- A step keeps a group closed. -/
theorem Step.closed (h : Step cfg sound s s') (hclosed : s.Closed handle) : s'.Closed handle := by
  refine ⟨UInt32.le_trans hclosed.generation h.generation, fun g' hg' heq => ?_⟩
  obtain ⟨g, hg, hsame, hrevoked⟩ := h.old g' hg' (by rw [heq]; exact hclosed.generation)
  exact hrevoked (hclosed.revoked g hg (hsame.trans heq))

/-- A step does not bring a group back. -/
theorem Step.gone (h : Step cfg sound s s') (hgone : s.Gone handle) : s'.Gone handle := by
  refine ⟨hgone.group_id, UInt32.le_trans hgone.generation h.generation, fun g' hg' heq => ?_⟩
  obtain ⟨g, hg, hsame, -⟩ := h.old g' hg' (by rw [heq]; exact hgone.generation)
  exact hgone.unlisted g hg (hsame.trans heq)

/-- A step starts no callback of a closed group. -/
theorem Step.starts (h : Step cfg sound s s') (hclosed : s.Closed handle) :
    s'.starts handle = s.starts handle := by
  unfold State.starts
  rcases h.started with hsame | ⟨g, hg, hopen, hnew⟩
  · rw [hsame]
  · have hne : (s.groups g).handle ≠ handle := fun heq => hopen (hclosed.revoked g hg heq)
    rw [hnew, List.count_append, List.count_singleton, beq_false_of_ne hne]
    rfl

/-- A step restores no snapshot of a closed group. -/
theorem Step.restores (h : Step cfg sound s s') (hclosed : s.Closed handle) :
    s'.restores handle = s.restores handle := by
  unfold State.restores
  rcases h.restored with hsame | ⟨g, hg, hopen, captured, hnew⟩
  · rw [hsame]
  · have hne : (s.groups g).handle ≠ handle := fun heq => hopen (hclosed.revoked g hg heq)
    rw [hnew, List.countP_append, List.countP_singleton, if_neg (by simpa using hne)]
    rfl

/-- From a closed group on, a run starts and restores nothing of it. -/
theorem Closed.silent (hclosed : s.Closed handle) (h : (runs cfg).Reachable s) {u : State}
    (hu : (runs cfg).Steps s u) : u.starts handle = s.starts handle ∧
      u.restores handle = s.restores handle := by
  have hinv := hu.invariant (P := fun u => (∃ xs, u.Joint cfg xs none) ∧ u.Closed handle ∧
    u.starts handle = s.starts handle ∧ u.restores handle = s.restores handle)
    ⟨joint_of_reachable h, hclosed, rfl, rfl⟩ ?_
  · exact hinv.2.2
  · rintro u u' ⟨⟨xs, hjoint⟩, hclosed, hstarts, hrestores⟩ ⟨action, rfl⟩
    have hstep := hjoint.exec action
    exact ⟨hstep.joint, hstep.closed hclosed, (hstep.starts hclosed).trans hstarts,
      (hstep.restores hclosed).trans hrestores⟩

/-- A group that is gone stays so. -/
theorem Gone.steps (hgone : s.Gone handle) (h : (runs cfg).Reachable s) {u : State}
    (hu : (runs cfg).Steps s u) : u.Gone handle := by
  have hinv := hu.invariant (P := fun u => (∃ xs, u.Joint cfg xs none) ∧ u.Gone handle)
    ⟨joint_of_reachable h, hgone⟩ ?_
  · exact hinv.2
  · rintro u u' ⟨⟨xs, hjoint⟩, hgone⟩ ⟨action, rfl⟩
    have hstep := hjoint.exec action
    exact ⟨hstep.joint, hstep.gone hgone⟩

/-- The tables refer to listed groups only. -/
theorem Joint.absent (h : s.Joint cfg xs none) (hgone : s.Gone handle) : s.Absent cfg handle := by
  have hzero : Handle.zero ≠ handle := fun heq => hgone.group_id (heq ▸ rfl)
  have hgroups (g : ℕ) : (s.groups g).handle ≠ handle := by
    by_cases hg : g ∈ s.group_list
    · exact hgone.unlisted g hg
    · rw [h.resident.unlisted g hg]
      exact hzero
  have htasks (t : ℕ) : (s.tasks t).owner ≠ handle := by
    by_cases hfree : (s.tasks t).state = .free
    · rw [h.resident.cleared t hfree]
      exact hzero
    · obtain ⟨g, howns⟩ := h.resident.resident t hfree
      rw [(h.resident.owned g t howns).2.2]
      exact hgroups g
  refine ⟨hgroups, htasks, fun r hr => ?_, fun t _ => htasks t, fun t _ => htasks t,
    fun run _ => hgroups run.group⟩
  obtain ⟨g, -, howner⟩ := h.queued.owners r hr
  rw [howner]
  exact hgroups g

theorem Gone.groupFind (h : s.Gone handle) : s.groupFind handle = none := by
  unfold State.groupFind
  simpa using h.unlisted

theorem onGroup_none {port : Port} {body : ℕ → State × Status} (hfind : s.groupFind handle = none)
    (hallowed : port.api_allowed = true) : (s.onGroup port handle body).2 = .stale := by
  unfold onGroup
  rw [if_neg (by rw [hallowed]; exact nofun), hfind]

theorem recordsReap_groupFind (h : s.ring.Valid cfg) :
    (s.recordsReap cfg).groupFind handle = s.groupFind handle := by
  rw [recordsReap_eq h]
  rfl

/-- **Stale handles** are turned away. -/
theorem Joint.answersStale (h : s.Joint cfg xs none) (hgone : s.Gone handle) :
    s.AnswersStale cfg handle := by
  have hfind := hgone.groupFind
  refine ⟨fun port image p_entries count hallowed hnative hargs hok hfree => ?_,
    fun _ hallowed => onGroup_none hfind hallowed, fun _ hallowed => onGroup_none hfind hallowed,
    fun _ hallowed => onGroup_none hfind hallowed, fun _ hallowed => onGroup_none hfind hallowed,
    fun _ hallowed => onGroup_none hfind hallowed, fun _ hallowed => onGroup_none hfind hallowed,
    fun port hallowed hnative => ?_, fun port hallowed hnative => ?_, fun port hallowed => ?_⟩
  · have hcheck : s.initializeCheck handle = .stale := by
      have hidle : (s.group_list.any fun g => (s.groups g).init_busy) = false := by
        simpa using hfree
      unfold initializeCheck
      rw [hfind, hidle, hok]
      rfl
    unfold sectionStlGroupInitialize
    rw [if_neg (by rw [hallowed]; exact nofun), if_neg (by rw [hnative]; exact nofun), if_neg hargs,
      hcheck]
  · unfold sectionStlGroupQuiescent
    rw [if_neg (by rw [hallowed]; exact nofun), if_neg (by rw [hnative]; exact nofun)]
    dsimp only
    rw [recordsReap_groupFind h.ring, hfind]
  · unfold sectionStlGroupForget
    rw [if_neg (by rw [hallowed]; exact nofun), if_neg (by rw [hnative]; exact nofun), hfind]
  · unfold sectionStlGroupQuery
    rw [if_neg (by rw [hallowed]; exact nofun), if_neg nofun, hfind]

/-! ## What the calls that succeed have checked -/

/-- A call that succeeds has found the group. -/
theorem onGroup_ok {port : Port} {body : ℕ → State × Status}
    (hok : s.onGroup port handle body = (s', .ok)) : ∃ g ∈ s.group_list,
      (s.groups g).handle = handle ∧ body g = (s', .ok) := by
  unfold onGroup at hok
  split at hok
  · cases (Prod.mk.inj hok).2
  · split at hok
    · cases (Prod.mk.inj hok).2
    · next g hfind => exact ⟨g, (groupFind_some hfind).1, (groupFind_some hfind).2, hok⟩

/-- What holds of one listed group with the handle holds of all. -/
theorem Joint.idle (h : s.Joint cfg xs none) (hg : g ∈ s.group_list)
    (hhandle : (s.groups g).handle = handle) (hreferences : (s.groups g).references = 0)
    (hrecords : ∀ r ∈ s.ring.live cfg, (s.ring.records r).owner ≠ handle)
    (hidle : s.groupExecuting g = false) : s.Idle cfg handle := by
  have heq {k : ℕ} (hk : k ∈ s.group_list) (hsame : (s.groups k).handle = handle) : k = g :=
    h.resident.eq_of_handle hk hg (hsame.trans hhandle.symm)
  exact ⟨fun k hk hsame => heq hk hsame ▸ hreferences, hrecords,
    fun k hk hsame => heq hk hsame ▸ hidle⟩

theorem Joint.pause_ok (h : s.Joint cfg xs none) {port : Port}
    (hok : s.sectionStlGroupPause cfg port handle = (s', .ok)) : s.Idle cfg handle := by
  unfold sectionStlGroupPause at hok
  obtain ⟨g, hg, hhandle, hbody⟩ := onGroup_ok hok
  split at hbody
  · split at hbody
    · next hready =>
      exact h.idle hg hhandle hready.2.2 (groupRecords_eq_zero.mp hready.2.1) hready.1
    · exact nomatch (Prod.mk.inj hbody).2
  · exact nomatch (Prod.mk.inj hbody).2

theorem Joint.forget_ok (h : s.Joint cfg xs none) {port : Port}
    (hok : s.sectionStlGroupForget cfg port handle = (s', .ok)) :
    s.Idle cfg handle ∧ s'.Gone handle := by
  unfold sectionStlGroupForget at hok
  split at hok
  · cases (Prod.mk.inj hok).2
  split at hok
  · cases (Prod.mk.inj hok).2
  split at hok
  · cases (Prod.mk.inj hok).2
  next g hfind =>
  obtain ⟨hg, hhandle⟩ := groupFind_some hfind
  split at hok
  · next hready =>
    obtain ⟨hstate, hidle, hreferences, hrecords⟩ := groupRetired_iff.mp hready.1
    rw [hhandle] at hrecords
    obtain ⟨-, hgroup_id, hgeneration⟩ := h.resident.listed g hg
    have hnot (t : ℕ) (ht : t ∈ (s.groups g).tasks) : t ∉ xs := by
      intro hin
      obtain ⟨k, howns, hmay⟩ := (h.queued.waits t hin).owned
      rw [h.resident.owns_unique howns ⟨hg, ht⟩, hstate] at hmay
      exact hmay (by decide)
    obtain ⟨-, heq⟩ := clearTasks_spec h.queued.holds hnot
    dsimp only at hok
    rw [heq] at hok
    obtain ⟨rfl, -⟩ := Prod.mk.inj hok
    refine ⟨h.idle hg hhandle hreferences (groupRecords_eq_zero.mp hrecords) hidle,
      ⟨hhandle ▸ hgroup_id, hhandle ▸ hgeneration, fun k hk hsame => ?_⟩⟩
    obtain ⟨hkg, hk⟩ : k ≠ g ∧ k ∈ s.group_list := h.resident.nodup.mem_erase_iff.mp hk
    rw [modifyGroup_groups_of_ne _ _ hkg] at hsame
    exact hkg (h.resident.eq_of_handle hk hg (hsame.trans hhandle.symm))
  · cases (Prod.mk.inj hok).2

/-- Reclaiming finds nothing to take between two calls. -/
theorem Joint.live_reap (h : s.Joint cfg xs none) :
    (s.ring.reap cfg).1.live cfg = s.ring.live cfg := by
  obtain ⟨gone, hlive, hgone⟩ := h.ring.reap.2.live
  cases gone with
  | nil => exact hlive.symm
  | cons r rest =>
    have hhead : (s.ring.live cfg).head? = some r := by
      rw [hlive]
      rfl
    exact nomatch (hgone r List.mem_cons_self).symm.trans (h.swept r hhead)

theorem Joint.quiescent_ok (h : s.Joint cfg xs none) {port : Port}
    (hok : s.sectionStlGroupQuiescent cfg port handle = (s', .ok)) : s.Idle cfg handle := by
  unfold sectionStlGroupQuiescent at hok
  split at hok
  · cases (Prod.mk.inj hok).2
  split at hok
  · cases (Prod.mk.inj hok).2
  dsimp only at hok
  rw [recordsReap_eq h.ring] at hok
  split at hok
  · cases (Prod.mk.inj hok).2
  next g hfind =>
  obtain ⟨hg, hhandle⟩ : g ∈ s.group_list ∧ (s.groups g).handle = handle := groupFind_some hfind
  split at hok
  · next hready =>
    obtain ⟨-, hidle, hreferences, hrecords⟩ := groupRetired_iff.mp hready.1
    have hkept := groupRecords_eq_zero.mp hrecords
    refine h.idle hg hhandle hreferences (fun r hr => ?_) hidle
    have hr' : r ∈ (s.ring.reap cfg).1.live cfg := h.live_reap ▸ hr
    have howner := hkept r hr'
    rw [h.ring.reap.2.records r hr'] at howner
    exact hhandle ▸ howner
  · cases (Prod.mk.inj hok).2

theorem Joint.revoke_ok (h : s.Joint cfg xs none) {port : Port}
    (hok : s.sectionStlGroupRevoke cfg port handle = (s', .ok)) : s'.Closed handle := by
  unfold sectionStlGroupRevoke at hok
  obtain ⟨g, hg, hhandle, hbody⟩ := onGroup_ok hok
  obtain ⟨rfl, hstatus⟩ := Prod.mk.inj hbody
  have hidle : s.groupExecuting g = false := by
    rw [← groupExecuting_cancelled h.ring .revoking]
    by_contra hbusy
    rw [if_pos (by simpa using hbusy)] at hstatus
    exact nomatch hstatus
  have hring : (s.modifyGroup g fun group => { group with state := .revoking }).ring.Valid cfg :=
    h.ring
  have hframe := cancelled hring g
  have hlist := hframe.evolves.group_list
  have hgeneration := hframe.evolves.generation
  refine ⟨?_, fun k hk hsame => ?_⟩
  · rw [hgeneration, ← hhandle]
    exact (h.resident.listed g hg).2.2
  · rw [hlist] at hk
    rw [hframe.evolves.handle] at hsame
    have hkeep :
        ((s.modifyGroup g fun group => { group with state := .revoking }).groups k).handle =
        (s.groups k).handle := by
      by_cases hkg : k = g
      · rw [hkg, modifyGroup_groups_self]
      · rw [modifyGroup_groups_of_ne _ _ hkg]
    rw [hkeep] at hsame
    obtain rfl := h.resident.eq_of_handle hk hg (hsame.trans hhandle.symm)
    exact revoked_of_idle h.ring hidle

/-- **Finality**: a revoked incarnation does nothing more, a forgotten one has left nothing,
and neither a lease, nor a record, nor running code is passed over on the way. -/
theorem revocation_is_final (h : (runs cfg).Reachable s) (handle : Handle) :
    (∀ port s' u, s.sectionStlGroupRevoke cfg port handle = (s', .ok) → (runs cfg).Steps s' u →
      u.starts handle = s'.starts handle ∧ u.restores handle = s'.restores handle) ∧
    (∀ port s', s.sectionStlGroupPause cfg port handle = (s', .ok) ∨
      s.sectionStlGroupQuiescent cfg port handle = (s', .ok) ∨
      s.sectionStlGroupForget cfg port handle = (s', .ok) → s.Idle cfg handle) ∧
    ∀ port s' u, s.sectionStlGroupForget cfg port handle = (s', .ok) → (runs cfg).Steps s' u →
      u.Absent cfg handle ∧ u.AnswersStale cfg handle := by
  obtain ⟨xs, hjoint⟩ := joint_of_reachable h
  refine ⟨fun port s' u hok hu => ?_, fun port s' hok => ?_, fun port s' u hok hu => ?_⟩
  · have hreach : (runs cfg).Reachable s' :=
      .step h ⟨.revoke port handle, congrArg Prod.fst hok.symm⟩
    exact (hjoint.revoke_ok hok).silent hreach hu
  · rcases hok with hok | hok | hok
    · exact hjoint.pause_ok hok
    · exact hjoint.quiescent_ok hok
    · exact (hjoint.forget_ok hok).1
  · have hreach : (runs cfg).Reachable s' :=
      .step h ⟨.forget port handle, congrArg Prod.fst hok.symm⟩
    have hgone := (hjoint.forget_ok hok).2.steps hreach hu
    obtain ⟨ys, hjoint'⟩ := joint_of_reachable (hreach.steps hu)
    exact ⟨hjoint'.absent hgone, hjoint'.answersStale hgone⟩

end State

/-! ## A run

A group is revoked, attested and forgotten; another is registered and initialized.
-/

/-- The group is ready to be forgotten. -/
def retiredActions : List Action :=
  [.init .native 0, .register .native demoImage 7 (some demoTable) 1 true,
    .revoke .native demoHandle, .quiescent .native demoHandle]

def retiredState : State :=
  retiredActions.foldl (State.exec demoConfig) (State.reset (fun _ => 0) (fun _ => 0))

def forgottenState : State := (retiredState.sectionStlGroupForget demoConfig .native demoHandle).1

/-- A table of one callback for the initialization. -/
def callbackImage : Image := ⟨fun _ => none, fun p => some ⟨0, some p⟩⟩

def nextActions : List Action :=
  [.register .native demoImage 8 (some demoTable) 1 true,
    .initializeBegin .native callbackImage ⟨8, 2⟩ (some fun _ => ⟨0, some 0x20000000⟩) 1,
    .initializeNext, .initializeNext]

/-- The callback of the next group has been called and runs. -/
def nextState : State := nextActions.foldl (State.exec demoConfig) forgottenState

theorem nextState_steps : (runs demoConfig).Steps forgottenState nextState :=
  .tail (.tail (.tail (.tail .refl ⟨nextActions[0], rfl⟩) ⟨nextActions[1], rfl⟩)
    ⟨nextActions[2], rfl⟩) ⟨nextActions[3], rfl⟩

theorem nextState_absent : nextState.Absent demoConfig demoHandle := by
  have hok : (retiredState.sectionStlGroupForget demoConfig .native demoHandle).2 = .ok := by decide
  exact ((State.revocation_is_final (reachable_foldl retiredActions _ _) demoHandle).2.2 .native _ _
    (Prod.ext rfl hok) nextState_steps).1

/-- The callback hands the old handle to `section_stl_group_initialize`, and the answer is not
that it is stale. -/
theorem nextState_initialize : (runs demoConfig).Reachable retiredState ∧
    (retiredState.sectionStlGroupForget demoConfig .native demoHandle).2 = .ok ∧
    (runs demoConfig).Steps forgottenState nextState ∧
    (nextState.sectionStlGroupInitialize demoConfig .native demoImage demoHandle none 0).2 =
      .badState :=
  ⟨reachable_foldl retiredActions _ _, by decide, nextState_steps, by decide⟩

end Atoman.SectionStl
