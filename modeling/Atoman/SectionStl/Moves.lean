import Atoman.SectionStl.Invariant

/-!
# What the internal functions keep

One lemma for each way a task moves between the tables: it is released, taken from the
queue, run, completed, suspended or cancelled. None of them says which call makes the
move.
-/

namespace Atoman.SectionStl
open Lib (Memory)

namespace State
variable {cfg : Config} {s s' : State} {xs ys : List ℕ} {out : Option ℕ} {g t r : ℕ}

/-! ## The group table stays -/

/-- The two states have the same groups. -/
structure SameGroups (s s' : State) : Prop where
  group_list : s'.group_list = s.group_list
  groups : s'.groups = s.groups
  generation : s'.generation = s.generation
  initRun : s'.initRun = s.initRun

namespace SameGroups

theorem refl (s : State) : SameGroups s s := ⟨rfl, rfl, rfl, rfl⟩

variable (h : SameGroups s s')
include h

theorem owns (g t : ℕ) : s'.Owns g t ↔ s.Owns g t := by
  unfold Owns
  rw [h.group_list, h.groups]

theorem starting (hst : s.Starting) : s'.Starting := by
  obtain ⟨hlist, hgroups, -, hrun⟩ := h
  constructor
  · rw [hlist, hgroups, hrun]
    exact hst.busy
  · rw [hlist, hrun]
    exact hst.listed
  · rw [hlist, hgroups]
    exact hst.state
  · rw [hlist, hgroups]
    exact hst.enabled

/-- The groups do not depend on the states of the tasks that are in use. -/
theorem resident (hr : s.Resident cfg) (howner : ∀ t, (s'.tasks t).owner = (s.tasks t).owner)
    (hfree : ∀ t, (s'.tasks t).state = .free ↔ (s.tasks t).state = .free) : s'.Resident cfg := by
  constructor
  · rw [h.group_list]
    exact hr.nodup
  · rw [h.group_list, h.groups, h.generation]
    exact hr.listed
  · rw [h.group_list, h.groups]
    exact hr.unlisted
  · rw [h.group_list, h.groups]
    exact hr.distinct
  · rw [h.group_list, h.groups]
    exact hr.tasks_nodup
  · intro g t
    rw [h.owns, ne_eq, hfree, howner, h.groups]
    exact hr.owned g t
  · intro t
    rw [ne_eq, hfree]
    intro ht
    obtain ⟨g, hg⟩ := hr.resident t ht
    exact ⟨g, (h.owns g t).mpr hg⟩
  · intro t
    rw [hfree, howner]
    exact hr.cleared t

/-- A task that keeps its owner, its state and its record waits as before, if the record
stays. -/
theorem waits (hw : s.Waits cfg t) (ht : (s'.tasks t).view = (s.tasks t).view)
    (hrecord : ∀ r, (s.tasks t).record = some r → (s.ring.records r).task_index = t →
      s.Saved cfg r → s'.Saved cfg r ∧ s'.ring.records r = s.ring.records r) : s'.Waits cfg t := by
  have howner : (s'.tasks t).owner = (s.tasks t).owner := congrArg (fun view => view.1) ht
  have hstate' : (s'.tasks t).state = (s.tasks t).state := congrArg (fun view => view.2.1) ht
  have hrecord' : (s'.tasks t).record = (s.tasks t).record := congrArg (fun view => view.2.2) ht
  rcases hw with ⟨hstate, g, hg, hgroup⟩ | ⟨hstate, ⟨g, hg, hgroup⟩, r, hr, hsaved, hindex, hown⟩
  · exact .new (hstate'.trans hstate) ⟨g, (h.owns g t).mpr hg, by rw [h.groups]; exact hgroup⟩
  · obtain ⟨hsaved', hsame⟩ := hrecord r hr hindex hsaved
    refine .old (hstate'.trans hstate) ⟨g, (h.owns g t).mpr hg, by rw [h.groups]; exact hgroup⟩
      ⟨r, hrecord'.trans hr, hsaved', ?_, ?_⟩
    · rw [hsame]
      exact hindex
    · rw [hsame, howner]
      exact hown

/-- The current task stays with its group. -/
theorem current (hp : s.Placed xs out) (hcurrent : s'.current = s.current) (t : ℕ)
    (ht : s'.current = some t) : ∃ g, s'.Owns g t ∧ (s'.groups g).initialized = true ∧
      (s'.groups g).state ≠ .paused ∧ (s'.groups g).state ≠ .revoked := by
  rw [hcurrent] at ht
  obtain ⟨g, howns, hgroup⟩ := hp.current t ht
  refine ⟨g, (h.owns g t).mpr howns, ?_⟩
  rw [h.groups]
  exact hgroup

end SameGroups

/-! ## Records -/

theorem Joint.setRing (h : s.Joint cfg xs out) {ring : Ring} (hvalid : ring.Valid cfg)
    (hswept : ring.Swept cfg) (hkeeps : s.ring.Keeps cfg ring) :
    Joint cfg { s with ring := ring } xs out := by
  have hgroups : SameGroups s { s with ring := ring } := ⟨rfl, rfl, rfl, rfl⟩
  have hsaved {r : ℕ} (hr : Saved cfg { s with ring := ring } r) :
      s.Saved cfg r ∧ ring.records r = s.ring.records r := by
    obtain ⟨hlive, hsame⟩ := hkeeps.live r hr.1
    exact ⟨⟨hlive, hsame ▸ hr.2⟩, hsame⟩
  refine ⟨hgroups.resident h.resident (fun _ => rfl) fun _ => Iff.rfl, hvalid, hswept, ?_,
    ⟨h.placed.current, h.placed.running, h.placed.settled⟩, hgroups.starting h.starting⟩
  refine ⟨h.queued.holds, h.queued.count, fun t ht => ?_, fun r hr => ?_, fun r hr => ?_,
    h.queued.record⟩
  · refine hgroups.waits (h.queued.waits t ht) rfl fun r _ _ hr => ?_
    have hlive := hkeeps.saved r hr.1 hr.2
    have hsame := (hkeeps.live r hlive).2
    exact ⟨⟨hlive, hsame.symm ▸ hr.2⟩, hsame⟩
  · obtain ⟨hr, hsame⟩ := hsaved hr
    have := h.queued.saved r hr
    rwa [← hsame] at this
  · obtain ⟨hlive, hsame⟩ := hkeeps.live r hr
    obtain ⟨g, hg, howner⟩ := h.queued.owners r hlive
    exact ⟨g, hg, (congrArg Record.owner hsame).trans howner⟩

/-- Reclaiming finds no fault. -/
theorem recordsReap_eq (h : s.ring.Valid cfg) :
    s.recordsReap cfg = { s with ring := (s.ring.reap cfg).1 } := by
  unfold recordsReap
  cases hreap : s.ring.reap cfg with
  | mk ring corrupt =>
    have hok := h.reap.1
    rw [hreap] at hok
    obtain rfl : corrupt = false := hok
    rfl

theorem Joint.recordsReap (h : s.Joint cfg xs out) : (s.recordsReap cfg).Joint cfg xs out := by
  rw [recordsReap_eq h.ring]
  exact h.setRing h.ring.reap.2.valid h.ring.reap.2.swept h.ring.reap.2.keeps

/-! ## Tasks that are dismissed -/

/-- Some of the tasks that wait are put to sleep, and their records are consumed. -/
structure Dismissed (cfg : Config) (s s' : State) (xs : List ℕ) (p : ℕ → Bool) : Prop where
  groups : SameGroups s s'
  current : s'.current = s.current
  fault : s'.fault = s.fault
  holds : s'.ready.Holds (xs.filter fun t => !p t)
  count : s'.ready_count = (xs.filter fun t => !p t).length
  owner : ∀ t, (s'.tasks t).owner = (s.tasks t).owner
  kept : ∀ t ∈ xs, p t = false → (s'.tasks t).view = (s.tasks t).view
  gone : ∀ t ∈ xs, p t = true → (s'.tasks t).state = .sleeping ∧ (s'.tasks t).record = none
  other : ∀ t, t ∉ xs → (s'.tasks t).state = (s.tasks t).state ∧
    ((s'.tasks t).record ≠ none → (s'.tasks t).record = (s.tasks t).record)
  valid : s'.ring.Valid cfg
  swept : s'.ring.Swept cfg
  live : ∀ r ∈ s'.ring.live cfg,
    r ∈ s.ring.live cfg ∧ (s'.ring.records r).owner = (s.ring.records r).owner
  saved : ∀ r, s'.Saved cfg r → s.Saved cfg r ∧ s'.ring.records r = s.ring.records r ∧
    p (s.ring.records r).task_index = false
  stay : ∀ r, s.Saved cfg r → p (s.ring.records r).task_index = false → s'.Saved cfg r

/-- **Dismissal** leaves the other tasks in their places. -/
theorem Joint.dismiss {p : ℕ → Bool} (h : s.Joint cfg xs out) (hd : Dismissed cfg s s' xs p) :
    s'.Joint cfg (xs.filter fun t => !p t) out := by
  have hmem {t : ℕ} : t ∈ xs.filter (fun t => !p t) ↔ t ∈ xs ∧ p t = false := by
    rw [List.mem_filter, Bool.not_eq_true']
  -- where the states of the tasks come from
  have hstate (t : ℕ) : (t ∈ xs ∧ p t = true) ∧ (s'.tasks t).state = .sleeping ∨
      ¬ (t ∈ xs ∧ p t = true) ∧ (s'.tasks t).state = (s.tasks t).state := by
    by_cases ht : t ∈ xs
    · cases hp : p t with
      | false => exact Or.inr ⟨by simp, congrArg (fun view => view.2.1) (hd.kept t ht hp)⟩
      | true => exact Or.inl ⟨⟨ht, rfl⟩, (hd.gone t ht hp).1⟩
    · exact Or.inr ⟨fun hboth => ht hboth.1, (hd.other t ht).1⟩
  have hfree (t : ℕ) : (s'.tasks t).state = .free ↔ (s.tasks t).state = .free := by
    rcases hstate t with ⟨⟨ht, -⟩, hsleep⟩ | ⟨-, hsame⟩
    · refine iff_of_false (by rw [hsleep]; exact nofun) fun hfree => ?_
      rcases (h.queued.waits t ht).state with hnew | hold
      · exact nomatch hnew.symm.trans hfree
      · exact nomatch hold.symm.trans hfree
    · rw [hsame]
  refine ⟨hd.groups.resident h.resident hd.owner hfree, hd.valid, hd.swept, ?_, ?_,
    hd.groups.starting h.starting⟩
  · refine ⟨hd.holds, hd.count, fun t ht => ?_, fun r hr => ?_, fun r hr => ?_, fun t ht => ?_⟩
    · obtain ⟨ht, hp⟩ := hmem.mp ht
      refine hd.groups.waits (h.queued.waits t ht) (hd.kept t ht hp) fun r _ hindex hr => ?_
      have hr' := hd.stay r hr (by rw [hindex]; exact hp)
      exact ⟨hr', (hd.saved r hr').2.1⟩
    · obtain ⟨hr, hsame, hp⟩ := hd.saved r hr
      obtain ⟨ht, hrecord⟩ := h.queued.saved r hr
      rw [hsame]
      refine ⟨hmem.mpr ⟨ht, hp⟩, ?_⟩
      exact (congrArg (fun view => view.2.2) (hd.kept _ ht hp)).trans hrecord
    · obtain ⟨hr, hsame⟩ := hd.live r hr
      obtain ⟨g, hg, heq⟩ := h.queued.owners r hr
      refine ⟨g, hd.groups.group_list ▸ hg, ?_⟩
      rw [hsame, hd.groups.groups]
      exact heq
    · by_cases hin : t ∈ xs
      · cases hp : p t with
        | false =>
          have hview := hd.kept t hin hp
          have hstate : (s'.tasks t).state = (s.tasks t).state :=
            congrArg (fun view => view.2.1) hview
          have hrecord : (s'.tasks t).record = (s.tasks t).record :=
            congrArg (fun view => view.2.2) hview
          rw [hrecord] at ht
          rw [hstate]
          exact h.queued.record t ht
        | true => exact absurd (hd.gone t hin hp).2 ht
      · rw [(hd.other t hin).2 ht] at ht
        rw [(hd.other t hin).1]
        exact h.queued.record t ht
  · refine ⟨hd.groups.current h.placed hd.current, fun t ht hrunning => ?_, fun hok t hout => ?_⟩
    · rw [hd.current] at ht
      rw [hd.fault]
      rcases hstate t with ⟨-, hsleep⟩ | ⟨-, hsame⟩
      · exact nomatch hsleep.symm.trans hrunning
      · exact h.placed.running t ht (hsame ▸ hrunning)
    · rw [hd.fault] at hok
      rw [hd.current]
      obtain ⟨hready, hrunning⟩ := h.placed.settled hok t hout
      rcases hstate t with ⟨-, hsleep⟩ | ⟨hnot, hsame⟩
      · rw [hsleep]
        exact ⟨nofun, nofun⟩
      · rw [hsame]
        refine ⟨fun hstate => hmem.mpr ⟨hready hstate, ?_⟩, hrunning⟩
        by_contra hp
        exact hnot ⟨hready hstate, Bool.not_eq_false _ ▸ hp⟩

/-- No more tasks wait than there are slots. -/
theorem Joint.length_le (h : s.Joint cfg xs out) : xs.length ≤ cfg.max_tasks := by
  have hsub : xs ⊆ List.range cfg.max_tasks := by
    intro t ht
    obtain ⟨g, howns, -⟩ := (h.queued.waits t ht).owned
    exact List.mem_range.mpr (h.resident.owned g t howns).1
  simpa using h.queued.holds.nodup.length_le_of_subset hsub

/-- The test of `ready_remove`. -/
def removable (s : State) (handle : Handle) (old_too : Bool) (t : ℕ) : Bool :=
  decide ((s.tasks t).owner = handle ∧ (old_too = true ∨ (s.tasks t).state = .new))

/-- What `ready_remove` does. -/
theorem Joint.readyRemove (h : s.Joint cfg xs out) (handle : Handle) (old_too : Bool) :
    (s.readyRemove cfg handle old_too).ready.Holds
        (xs.filter fun t => !s.removable handle old_too t) ∧
      (s.readyRemove cfg handle old_too).ready_count =
        (xs.filter fun t => !s.removable handle old_too t).length ∧
      ∀ t, (s.readyRemove cfg handle old_too).tasks t =
        if t ∈ xs ∧ s.removable handle old_too t = true then { s.tasks t with state := .sleeping }
        else s.tasks t := by
  obtain ⟨hholds, hremoved⟩ :=
    Lib.LinkedQueue.Holds.remove (s.removable handle old_too) h.length_le h.queued.holds
  refine ⟨hholds, ?_, fun t => ?_⟩
  · have hsplit := List.length_eq_length_filter_add (l := xs) (s.removable handle old_too)
    show s.ready_count - (s.ready.remove (s.removable handle old_too) cfg.max_tasks).2.length = _
    rw [hremoved, h.queued.count]
    omega
  · show (if t ∈ (s.ready.remove (s.removable handle old_too) cfg.max_tasks).2 then
      { s.tasks t with state := .sleeping } else s.tasks t) = _
    simp only [hremoved, List.mem_filter]

/-- A record that is to be restored belongs to the task that it names. -/
theorem Joint.saved_owner (h : s.Joint cfg xs out) (hr : s.Saved cfg r) :
    (s.tasks (s.ring.records r).task_index).state = .old ∧
      (s.ring.records r).owner = (s.tasks (s.ring.records r).task_index).owner := by
  obtain ⟨ht, hrecord⟩ := h.queued.saved r hr
  rcases h.queued.waits _ ht with ⟨hstate, -⟩ | ⟨hstate, -, r', hrecord', -, -, howner⟩
  · have := h.queued.record _ (by rw [hrecord]; exact nofun)
    rw [hstate] at this
    rcases this with h | h <;> exact nomatch h
  · obtain rfl := Option.some.inj (hrecord.symm.trans hrecord')
    exact ⟨hstate, howner⟩

/-- `ready_remove` without the saved work. -/
theorem Joint.readyRemove_new (h : s.Joint cfg xs out) (handle : Handle) :
    (s.readyRemove cfg handle false).Joint cfg
      (xs.filter fun t => !s.removable handle false t) out := by
  obtain ⟨hholds, hcount, htasks⟩ := h.readyRemove handle false
  have hview {t : ℕ} (ht : ¬ (t ∈ xs ∧ s.removable handle false t = true)) :
      (s.readyRemove cfg handle false).tasks t = s.tasks t := by rw [htasks, if_neg ht]
  refine h.dismiss ⟨⟨rfl, rfl, rfl, rfl⟩, rfl, rfl, hholds, hcount, fun t => ?_, fun t _ hp => ?_,
    fun t ht hp => ?_, fun t ht => ?_, h.ring, h.swept, fun r hr => ⟨hr, rfl⟩,
    fun r hr => ⟨hr, rfl, ?_⟩, fun r hr _ => hr⟩
  · rw [htasks]
    split <;> rfl
  · rw [hview (by simp [hp])]
  · have hnew : (s.tasks t).state = .new := by
      simpa using (of_decide_eq_true hp).2
    rw [htasks, if_pos ⟨ht, hp⟩]
    refine ⟨rfl, ?_⟩
    by_contra hrecord
    have := h.queued.record t hrecord
    rw [hnew] at this
    rcases this with h | h <;> exact nomatch h
  · rw [hview (fun hboth => ht hboth.1)]
    exact ⟨rfl, fun _ => rfl⟩
  · have hold := (h.saved_owner hr).1
    simp [removable, hold]

/-- `group_cancel` up to the state of the group. -/
def cancelTasks (cfg : Config) (s : State) (handle : Handle) (ts : List ℕ) : State :=
  let s := s.readyRemove cfg handle true
  let s := { s with ring := s.ring.discard cfg handle }
  let s :=
    { s with tasks := fun t => if t ∈ ts then { s.tasks t with record := none } else s.tasks t }
  s.recordsReap cfg

theorem groupCancel_eq (cfg : Config) (s : State) (g : ℕ) : s.groupCancel cfg g =
    if (s.cancelTasks cfg (s.groups g).handle (s.groups g).tasks).groupExecuting g then
      s.cancelTasks cfg (s.groups g).handle (s.groups g).tasks
    else
      (s.cancelTasks cfg (s.groups g).handle (s.groups g).tasks).modifyGroup g
        fun group => { group with state := .revoked } := rfl

theorem cancelTasks_modifyGroup (cfg : Config) (s : State) (g : ℕ) (f : Group → Group)
    (handle : Handle) (ts : List ℕ) : (s.modifyGroup g f).cancelTasks cfg handle ts =
      (s.cancelTasks cfg handle ts).modifyGroup g f := rfl

/-- Cancelling the tasks of a group. -/
theorem Joint.cancelTasks (h : s.Joint cfg xs out) (hg : g ∈ s.group_list) :
    (s.cancelTasks cfg (s.groups g).handle (s.groups g).tasks).Joint cfg
      (xs.filter fun t => !s.removable (s.groups g).handle true t) out := by
  obtain ⟨hholds, hcount, htasks⟩ := h.readyRemove (s.groups g).handle true
  have hdiscard := h.ring.discard (s.groups g).handle
  obtain ⟨hok, hreap⟩ := hdiscard.valid.reap
  have hp {t : ℕ} : s.removable (s.groups g).handle true t = true ↔
      (s.tasks t).owner = (s.groups g).handle := by simp [removable]
  -- the tasks and the records behind the loops
  have hring : (s.cancelTasks cfg (s.groups g).handle (s.groups g).tasks).ring =
      ((s.ring.discard cfg (s.groups g).handle).reap cfg).1 := rfl
  have hfault : (s.cancelTasks cfg (s.groups g).handle (s.groups g).tasks).fault = s.fault := by
    show (if ((s.ring.discard cfg (s.groups g).handle).reap cfg).2 = true then _ else s.fault) = _
    rw [hok]
    rfl
  have htask (t : ℕ) : (s.cancelTasks cfg (s.groups g).handle (s.groups g).tasks).tasks t =
      if t ∈ (s.groups g).tasks then
        { (s.readyRemove cfg (s.groups g).handle true).tasks t with record := none }
      else (s.readyRemove cfg (s.groups g).handle true).tasks t := rfl
  have hmember {t : ℕ} (ht : t ∈ xs) :
      t ∈ (s.groups g).tasks ↔ (s.tasks t).owner = (s.groups g).handle := by
    refine ⟨fun hin => (h.resident.owned g t ⟨hg, hin⟩).2.2, fun howner => ?_⟩
    obtain ⟨k, howns, -⟩ := (h.queued.waits t ht).owned
    obtain rfl :=
      h.resident.eq_of_handle hg howns.1 (howner.symm.trans (h.resident.owned k t howns).2.2)
    exact howns.2
  have hrecord {r : ℕ}
      (hr : r ∈ (s.cancelTasks cfg (s.groups g).handle (s.groups g).tasks).ring.live cfg) :
      r ∈ s.ring.live cfg ∧
        (s.cancelTasks cfg (s.groups g).handle (s.groups g).tasks).ring.records r =
          Ring.cancelled (s.groups g).handle (s.ring.records r) := by
    rw [hring] at hr ⊢
    obtain ⟨hlive, hsame⟩ := hreap.keeps.live r hr
    rw [hdiscard.live] at hlive
    rw [hsame, hdiscard.records, if_pos hlive]
    exact ⟨hlive, rfl⟩
  refine h.dismiss ⟨⟨rfl, rfl, rfl, rfl⟩, rfl, hfault, hholds, hcount, fun t => ?_,
    fun t ht hkeep => ?_, fun t ht hgone => ?_, fun t ht => ?_, hring ▸ hreap.valid,
      hring ▸ hreap.swept, fun r hr => ?_,
    fun r hr => ?_, fun r hr hkeep => ?_⟩
  · rw [htask, htasks]
    split <;> split <;> rfl
  · have hnot : t ∉ (s.groups g).tasks := by
      rw [hmember ht, ← hp, hkeep]
      exact Bool.false_ne_true
    rw [htask, if_neg hnot, htasks, if_neg (by simp [hkeep])]
  · rw [htask, if_pos ((hmember ht).mpr (hp.mp hgone)), htasks, if_pos ⟨ht, hgone⟩]
    exact ⟨rfl, rfl⟩
  · have hstays : ¬ (t ∈ xs ∧ s.removable (s.groups g).handle true t = true) :=
      fun hboth => ht hboth.1
    rw [htask, htasks, if_neg hstays]
    split
    · exact ⟨rfl, fun hne => absurd rfl hne⟩
    · exact ⟨rfl, fun _ => rfl⟩
  · obtain ⟨hlive, hsame⟩ := hrecord hr
    rw [hsame]
    exact ⟨hlive, Ring.owner_cancelled _ _⟩
  · obtain ⟨hlive, hsame⟩ := hrecord hr.1
    have hconsumed := hr.2
    rw [hsame] at hconsumed
    obtain ⟨howner, hsame'⟩ := Ring.cancelled_of_saved hconsumed
    rw [hsame'] at hsame hconsumed
    refine ⟨⟨hlive, hconsumed⟩, hsame, ?_⟩
    rw [← Bool.not_eq_true, hp, ← (h.saved_owner ⟨hlive, hconsumed⟩).2]
    exact howner
  · have howner : (s.ring.records r).owner ≠ (s.groups g).handle := by
      rw [(h.saved_owner hr).2, ne_eq, ← hp, hkeep]
      exact Bool.false_ne_true
    have hsame : (s.ring.discard cfg (s.groups g).handle).records r = s.ring.records r := by
      rw [hdiscard.records, if_pos hr.1, Ring.cancelled, if_neg howner]
    have hlive :=
      hreap.keeps.saved r (by rw [hdiscard.live]; exact hr.1) (by rw [hsame]; exact hr.2)
    refine ⟨hring ▸ hlive, ?_⟩
    rw [hring, (hreap.keeps.live r hlive).2, hsame]
    exact hr.2

end State
end Atoman.SectionStl
