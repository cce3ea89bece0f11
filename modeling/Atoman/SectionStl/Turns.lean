import Atoman.SectionStl.Moves

/-!
# The turns of one task

A task is released, taken from the queue, run, put to sleep or suspended. Only this task
changes its place, and only its record is made or consumed.
-/

namespace Atoman.SectionStl
namespace State
variable {cfg : Config} {s s' : State} {xs ys : List ℕ} {out out' : Option ℕ} {g t r : ℕ}

/-- Only one task changes its place. -/
structure Moved (cfg : Config) (s s' : State) (xs ys : List ℕ) (t : ℕ) : Prop where
  groups : SameGroups s s'
  others : ∀ u, u ≠ t → (s'.tasks u).view = (s.tasks u).view
  owner : (s'.tasks t).owner = (s.tasks t).owner
  used : (s.tasks t).state ≠ .free
  used' : (s'.tasks t).state ≠ .free
  holds : s'.ready.Holds ys
  count : s'.ready_count = ys.length
  queue : ∀ u, u ≠ t → (u ∈ ys ↔ u ∈ xs)
  waits : t ∈ ys → s'.Waits cfg t
  valid : s'.ring.Valid cfg
  swept : s'.ring.Swept cfg
  owners : ∀ r ∈ s'.ring.live cfg,
    r ∈ s.ring.live cfg ∧ (s'.ring.records r).owner = (s.ring.records r).owner ∨
      (s'.ring.records r).owner = (s.tasks t).owner
  saved : ∀ r, s'.Saved cfg r →
    (s'.ring.records r).task_index = t ∧ t ∈ ys ∧ (s'.tasks t).record = some r ∨
      (s'.ring.records r).task_index ≠ t ∧ s.Saved cfg r ∧ s'.ring.records r = s.ring.records r
  stay : ∀ r, s.Saved cfg r → (s.ring.records r).task_index ≠ t →
    s'.Saved cfg r ∧ s'.ring.records r = s.ring.records r
  record : (s'.tasks t).record ≠ none → (s'.tasks t).state = .old

/-- The tables follow a task that moves. -/
theorem Joint.moved (h : s.Joint cfg xs out) (hm : Moved cfg s s' xs ys t)
    (hp : s'.Placed ys out') :
    s'.Joint cfg ys out' := by
  have howner (u : ℕ) : (s'.tasks u).owner = (s.tasks u).owner := by
    by_cases hu : u = t
    · rw [hu]
      exact hm.owner
    · exact congrArg (fun view => view.1) (hm.others u hu)
  have hstate {u : ℕ} (hu : u ≠ t) : (s'.tasks u).state = (s.tasks u).state :=
    congrArg (fun view => view.2.1) (hm.others u hu)
  have hrecord {u : ℕ} (hu : u ≠ t) : (s'.tasks u).record = (s.tasks u).record :=
    congrArg (fun view => view.2.2) (hm.others u hu)
  have hfree (u : ℕ) : (s'.tasks u).state = .free ↔ (s.tasks u).state = .free := by
    by_cases hu : u = t
    · rw [hu]
      exact iff_of_false hm.used' hm.used
    · rw [hstate hu]
  refine ⟨hm.groups.resident h.resident howner hfree, hm.valid, hm.swept, ?_, hp,
    hm.groups.starting h.starting⟩
  refine ⟨hm.holds, hm.count, fun u hu => ?_, fun r hr => ?_, fun r hr => ?_, fun u hu => ?_⟩
  · by_cases hut : u = t
    · rw [hut] at hu ⊢
      exact hm.waits hu
    · refine hm.groups.waits (h.queued.waits u ((hm.queue u hut).mp hu)) (hm.others u hut) ?_
      exact fun r _ hindex hr => hm.stay r hr (hindex ▸ hut)
  · rcases hm.saved r hr with ⟨hindex, ht, hrec⟩ | ⟨hindex, hold, hsame⟩
    · rw [hindex]
      exact ⟨ht, hrec⟩
    · obtain ⟨hin, hrec⟩ := h.queued.saved r hold
      rw [hsame] at hindex ⊢
      exact ⟨(hm.queue _ hindex).mpr hin, (hrecord hindex).trans hrec⟩
  · rw [hm.groups.group_list, hm.groups.groups]
    rcases hm.owners r hr with ⟨hold, hsame⟩ | hown
    · rw [hsame]
      exact h.queued.owners r hold
    · obtain ⟨g, howns⟩ := h.resident.resident t hm.used
      exact ⟨g, howns.1, hown.trans (h.resident.owned g t howns).2.2⟩
  · by_cases hut : u = t
    · rw [hut] at hu ⊢
      exact Or.inl (hm.record hu)
    · rw [hrecord hut] at hu
      rw [hstate hut]
      exact h.queued.record u hu

/-- A task moves that has no snapshot. -/
theorem Joint.moved_plain (h : s.Joint cfg xs out) (hgroups : SameGroups s s')
    (hring : s'.ring = s.ring) (hothers : ∀ u, u ≠ t → (s'.tasks u).view = (s.tasks u).view)
    (howner : (s'.tasks t).owner = (s.tasks t).owner) (hrecord : (s.tasks t).record = none)
    (hrecord' : (s'.tasks t).record = none) (hused : (s.tasks t).state ≠ .free)
    (hused' : (s'.tasks t).state ≠ .free) (hholds : s'.ready.Holds ys)
    (hcount : s'.ready_count = ys.length) (hqueue : ∀ u, u ≠ t → (u ∈ ys ↔ u ∈ xs))
    (hwaits : t ∈ ys → s'.Waits cfg t) (hp : s'.Placed ys out') : s'.Joint cfg ys out' := by
  have hsaved (r : ℕ) : s'.Saved cfg r ↔ s.Saved cfg r := by
    unfold Saved
    rw [hring]
  have hindex {r : ℕ} (hr : s.Saved cfg r) : (s.ring.records r).task_index ≠ t := by
    rintro rfl
    exact nomatch hrecord.symm.trans (h.queued.saved r hr).2
  refine h.moved ⟨hgroups, hothers, howner, hused, hused', hholds, hcount, hqueue, hwaits,
    hring ▸ h.ring, hring ▸ h.swept, fun r hr => ?_, fun r hr => ?_, fun r hr _ => ?_, ?_⟩ hp
  · rw [hring] at hr ⊢
    exact Or.inl ⟨hr, rfl⟩
  · have hold := (hsaved r).mp hr
    rw [hring]
    exact Or.inr ⟨hindex hold, hold, rfl⟩
  · rw [hring]
    exact ⟨(hsaved r).mpr hr, rfl⟩
  · exact fun hne => absurd hrecord' hne

/-- A task that is neither asleep nor free waits or runs. -/
theorem Joint.record_none (h : s.Joint cfg xs out) (hold : (s.tasks t).state ≠ .old)
    (hfree : (s.tasks t).state ≠ .free) : (s.tasks t).record = none := by
  by_contra hne
  rcases h.queued.record t hne with hstate | hstate
  · exact hold hstate
  · exact hfree hstate

/-- **Sleep**: a task outside the queue is put to sleep. -/
theorem Joint.sleep (h : s.Joint cfg xs out) (ht : t ∉ xs) (hold : (s.tasks t).state ≠ .old)
    (hfree : (s.tasks t).state ≠ .free) :
    (s.modify t fun task => { task with state := .sleeping }).Joint cfg xs out := by
  have hrecord := h.record_none hold hfree
  have hself : (s.modify t fun task => { task with state := .sleeping }).tasks t =
      { s.tasks t with state := .sleeping } := modify_tasks_self _ _ _
  have hother {u : ℕ} (hu : u ≠ t) :
      (s.modify t fun task => { task with state := .sleeping }).tasks u = s.tasks u :=
    modify_tasks_of_ne _ _ hu
  have hgroups : SameGroups s (s.modify t fun task => { task with state := .sleeping }) :=
    ⟨rfl, rfl, rfl, rfl⟩
  refine h.moved_plain hgroups rfl (fun u hu => by rw [hother hu]) (by rw [hself]) hrecord
    (by rw [hself]; exact hrecord) hfree (by rw [hself]; exact nofun) h.queued.holds h.queued.count
    (fun _ _ => Iff.rfl) (fun hin => absurd hin ht) ?_
  refine ⟨hgroups.current h.placed rfl, fun u hu hrunning => ?_, fun hok u hout => ?_⟩
  · by_cases hut : u = t
    · rw [hut, hself] at hrunning
      exact nomatch hrunning
    · rw [hother hut] at hrunning
      exact h.placed.running u hu hrunning
  · by_cases hut : u = t
    · rw [hut, hself]
      refine ⟨fun hstate => ?_, nofun⟩
      rcases hstate with hstate | hstate <;> exact nomatch hstate
    · rw [hother hut]
      exact h.placed.settled hok u hout

/-- **Release**: a task that sleeps in an enabled group becomes a new activation. -/
theorem Joint.release (h : s.Joint cfg xs out) (hsleep : (s.tasks t).state = .sleeping)
    (howns : s.Owns g t) (hstate : (s.groups g).state = .enabled) {f : Task → Task}
    (hf : (f (s.tasks t)).view = { s.tasks t with state := .new }.view) :
    ((s.modify t f).readyPush t).Joint cfg (xs ++ [t]) out := by
  have hnot : t ∉ xs := by
    intro ht
    have := (h.queued.waits t ht).state
    rw [hsleep] at this
    rcases this with h | h <;> exact nomatch h
  have hflag : ¬ s.ready.linked t = true := fun hflag => hnot ((h.queued.holds.linked t).mp hflag)
  have hpush : (s.modify t f).readyPush t = { s.modify t f with
      ready := s.ready.enqueue t, ready_count := s.ready_count + 1 } := if_neg hflag
  rw [hpush]
  have hview : (f (s.tasks t)).view = ((s.tasks t).owner, .new, (s.tasks t).record) := hf
  have howner : (f (s.tasks t)).owner = (s.tasks t).owner := congrArg (fun view => view.1) hview
  have hnew : (f (s.tasks t)).state = .new := congrArg (fun view => view.2.1) hview
  have hrec : (f (s.tasks t)).record = (s.tasks t).record := congrArg (fun view => view.2.2) hview
  have hrecord : (s.tasks t).record = none :=
    h.record_none (by rw [hsleep]; exact nofun) (by rw [hsleep]; exact nofun)
  have hself : (s.modify t f).tasks t = f (s.tasks t) := modify_tasks_self _ _ _
  have hother {u : ℕ} (hu : u ≠ t) : (s.modify t f).tasks u = s.tasks u :=
    modify_tasks_of_ne _ _ hu
  have hgroups : SameGroups s { s.modify t f with
      ready := s.ready.enqueue t, ready_count := s.ready_count + 1 } := ⟨rfl, rfl, rfl, rfl⟩
  refine h.moved_plain hgroups rfl (fun u hu => ?_) ?_ hrecord ?_ ?_ ?_
    (h.queued.holds.enqueue hnot) ?_ (fun u hu => ?_) (fun _ => ?_) ?_ (t := t)
  · exact congrArg Task.view (hother hu)
  · exact (congrArg Task.owner hself).trans howner
  · exact (congrArg Task.record hself).trans (hrec.trans hrecord)
  · rw [hsleep]
    exact nofun
  · exact fun hfree => nomatch ((congrArg Task.state hself).trans hnew).symm.trans hfree
  · show s.ready_count + 1 = _
    rw [h.queued.count, List.length_append, List.length_singleton]
  · simp [hu]
  · exact .new ((congrArg Task.state hself).trans hnew) ⟨g, (hgroups.owns g t).mpr howns, hstate⟩
  · refine ⟨hgroups.current h.placed rfl, fun u hu hrunning => ?_, fun hok u hout => ?_⟩
    · by_cases hut : u = t
      · subst hut
        exact nomatch ((congrArg Task.state hself).trans hnew).symm.trans hrunning
      · exact h.placed.running u hu ((congrArg Task.state (hother hut)).symm.trans hrunning)
    · by_cases hut : u = t
      · subst hut
        refine ⟨fun _ => List.mem_append_right _ (List.mem_singleton_self _), fun hrunning => ?_⟩
        exact nomatch ((congrArg Task.state hself).trans hnew).symm.trans hrunning
      · obtain ⟨hready, hrunning⟩ := h.placed.settled hok u hout
        have hsame : (State.tasks { s.modify t f with
            ready := s.ready.enqueue t, ready_count := s.ready_count + 1 } u).state =
            (s.tasks u).state := congrArg Task.state (hother hut)
        rw [hsame]
        exact ⟨fun hstate => List.mem_append_left _ (hready hstate), hrunning⟩

/-! ## Selection -/

/-- The state behind `ready_pop`, when it finds a task. -/
def popped (s : State) : State :=
  { s with ready := s.ready.pop.2, ready_count := s.ready_count - 1 }

theorem Joint.readyPop (h : s.Joint cfg (t :: xs) out) : s.readyPop = (some t, s.popped) := by
  obtain ⟨hfirst, -⟩ := h.queued.holds.pop
  unfold State.readyPop popped
  cases hpop : s.ready.pop with
  | mk first ready =>
    rw [hpop] at hfirst
    obtain rfl : first = some t := hfirst
    rfl

theorem readyPop_nil (h : s.Joint cfg [] out) : s.readyPop = (none, s) := by
  unfold State.readyPop
  rw [h.queued.holds.pop_nil]

/-- The task at the head is taken from the queue. -/
theorem Placed.take (hp : s.Placed (t :: xs) none) (hcurrent : s'.current = s.current)
    (hgroups : SameGroups s s') (hfault : s'.fault = s.fault)
    (hstate : ∀ u, (s'.tasks u).state = (s.tasks u).state) : s'.Placed xs (some t) := by
  refine ⟨hgroups.current hp hcurrent, fun u hu hrunning => ?_, fun hok u hout => ?_⟩
  · rw [hcurrent] at hu
    rw [hstate] at hrunning
    rw [hfault]
    exact hp.running u hu hrunning
  · rw [hfault] at hok
    obtain ⟨hready, hrunning⟩ := hp.settled hok u nofun
    rw [hstate, hcurrent]
    exact ⟨fun hu => List.mem_of_ne_of_mem (fun heq => hout (congrArg some heq)) (hready hu),
      hrunning⟩

theorem Joint.head_notMem (h : s.Joint cfg (t :: xs) out) : t ∉ xs :=
  (List.nodup_cons.mp h.queued.holds.nodup).1

/-- **Selection** of a new activation. -/
theorem Joint.takeNew (h : s.Joint cfg (t :: xs) none) (hnew : (s.tasks t).state = .new) :
    s.popped.Joint cfg xs (some t) := by
  have hrecord : (s.tasks t).record = none :=
    h.record_none (by rw [hnew]; exact nofun) (by rw [hnew]; exact nofun)
  have hgroups : SameGroups s s.popped := ⟨rfl, rfl, rfl, rfl⟩
  refine h.moved_plain hgroups rfl (fun _ _ => rfl) rfl hrecord hrecord (by rw [hnew]; exact nofun)
    (by show (s.tasks t).state ≠ _; rw [hnew]; exact nofun) h.queued.holds.pop.2 ?_
    (fun u hu => ?_) (fun hin => absurd hin h.head_notMem)
    (h.placed.take rfl hgroups rfl fun _ => rfl)
  · show s.ready_count - 1 = _
    rw [h.queued.count]
    rfl
  · simp [hu]

/-- What a task at the head with a snapshot has. -/
theorem Joint.head_saved (h : s.Joint cfg (t :: xs) out) (hold : (s.tasks t).state = .old) :
    ∃ r, (s.tasks t).record = some r ∧ s.Saved cfg r ∧ (s.ring.records r).task_index = t ∧
      (s.ring.records r).owner = (s.tasks t).owner := by
  rcases h.queued.waits t List.mem_cons_self with ⟨hnew, -⟩ | ⟨-, -, hrecord⟩
  · exact nomatch hnew.symm.trans hold
  · exact hrecord

/-- **Selection** of a continuation, whose snapshot is consumed. -/
theorem Joint.takeOld (h : s.Joint cfg (t :: xs) none) (hold : (s.tasks t).state = .old)
    (hrecord : (s.tasks t).record = some r) (hgroups : SameGroups s s')
    (hcurrent : s'.current = s.current) (hfault : s'.fault = s.fault)
    (hready : s'.ready = s.popped.ready) (hcount : s'.ready_count = s.popped.ready_count)
    (htasks : s'.tasks = (s.modify t fun task => { task with record := none }).tasks)
    (hring : s'.ring = s.ring.restored cfg r) : s'.Joint cfg xs (some t) := by
  have hrestored := h.ring.restored r
  have hself : s'.tasks t = { s.tasks t with record := none } := by
    rw [htasks, modify_tasks_self]
  have hother {u : ℕ} (hu : u ≠ t) : s'.tasks u = s.tasks u := by
    rw [htasks, modify_tasks_of_ne _ _ hu]
  have hstate (u : ℕ) : (s'.tasks u).state = (s.tasks u).state := by
    by_cases hu : u = t
    · rw [hu, hself]
    · rw [hother hu]
  have hindex {u : ℕ} (hu : s.Saved cfg u) : (s.ring.records u).task_index ≠ t ↔ u ≠ r := by
    obtain ⟨hin, hrec⟩ := h.queued.saved u hu
    constructor
    · rintro hne rfl
      obtain ⟨r', hrecord', -, hindex, -⟩ := h.head_saved hold
      exact hne (Option.some.inj (hrecord.symm.trans hrecord') ▸ hindex)
    · rintro hne rfl
      exact hne (Option.some.inj (hrec.symm.trans hrecord))
  refine h.moved ⟨hgroups, fun u hu => by rw [hother hu], by rw [hself], by rw [hold]; exact nofun,
    by rw [hstate, hold]; exact nofun, hready ▸ h.queued.holds.pop.2, ?_, fun u hu => by simp [hu],
    fun hin => absurd hin h.head_notMem, hring ▸ hrestored.valid, hring ▸ hrestored.swept,
    fun u hu => ?_, fun u hu => ?_, fun u hu hne => ?_, ?_⟩
    (h.placed.take hcurrent hgroups hfault hstate)
  · rw [hcount]
    show s.ready_count - 1 = _
    rw [h.queued.count]
    rfl
  · rw [hring] at hu ⊢
    exact Or.inl (hrestored.live u hu)
  · have hlive := hu.1
    have hconsumed := hu.2
    rw [hring] at hlive hconsumed ⊢
    obtain ⟨hur, hsame⟩ := hrestored.saved u hlive hconsumed
    rw [hsame] at hconsumed ⊢
    have hsaved : s.Saved cfg u := ⟨(hrestored.live u hlive).1, hconsumed⟩
    exact Or.inr ⟨(hindex hsaved).mpr hur, hsaved, rfl⟩
  · obtain ⟨hlive, hsame⟩ := hrestored.stay u hu.1 ((hindex hu).mp hne) hu.2
    rw [Saved, hring]
    exact ⟨⟨hlive, hsame ▸ hu.2⟩, hsame⟩
  · rw [hself]
    exact fun hne => absurd rfl hne

/-! ## Execution -/

/-- **Execution**: the task that was taken becomes the current one. -/
theorem Joint.run (h : s.Joint cfg xs (some t)) (ht : t ∉ xs) (hok : s.fault = .ok)
    (hrecord : (s.tasks t).record = none) (hused : (s.tasks t).state ≠ .free) (howns : s.Owns g t)
    (hgroup : (s.groups g).initialized = true ∧ (s.groups g).state ≠ .paused ∧
      (s.groups g).state ≠ .revoked)
    (hidle : ∀ u, s.current = some u → (s.tasks u).state ≠ .running) {f : Task → Task}
    (hf : (f (s.tasks t)).view = { s.tasks t with state := .running }.view) :
    Joint cfg { s.modify t f with current := some t } xs none := by
  have hview : (f (s.tasks t)).view = ((s.tasks t).owner, .running, (s.tasks t).record) := hf
  have howner : (f (s.tasks t)).owner = (s.tasks t).owner := congrArg (fun view => view.1) hview
  have hrunning : (f (s.tasks t)).state = .running := congrArg (fun view => view.2.1) hview
  have hrec : (f (s.tasks t)).record = (s.tasks t).record := congrArg (fun view => view.2.2) hview
  have hself : (s.modify t f).tasks t = f (s.tasks t) := modify_tasks_self _ _ _
  have hother {u : ℕ} (hu : u ≠ t) : (s.modify t f).tasks u = s.tasks u :=
    modify_tasks_of_ne _ _ hu
  have hgroups : SameGroups s { s.modify t f with current := some t } := ⟨rfl, rfl, rfl, rfl⟩
  refine h.moved_plain hgroups rfl (fun u hu => ?_) ?_ hrecord ?_ hused ?_ h.queued.holds
    h.queued.count (fun _ _ => Iff.rfl) (fun hin => absurd hin ht) ?_ (t := t)
  · exact congrArg Task.view (hother hu)
  · exact (congrArg Task.owner hself).trans howner
  · exact (congrArg Task.record hself).trans (hrec.trans hrecord)
  · exact fun hfree => nomatch ((congrArg Task.state hself).trans hrunning).symm.trans hfree
  · refine ⟨fun u hu => ?_, fun _ _ _ => hok, fun _ u _ => ?_⟩
    · obtain rfl := Option.some.inj hu
      exact ⟨g, (hgroups.owns g t).mpr howns, hgroup⟩
    · by_cases hut : u = t
      · subst hut
        have hstate := (congrArg Task.state hself).trans hrunning
        refine ⟨fun hready => ?_, fun _ => rfl⟩
        rcases hready with hready | hready <;> exact nomatch hstate.symm.trans hready
      · have hsame := congrArg Task.state (hother hut)
        obtain ⟨hready, hcurrent⟩ :=
          h.placed.settled hok u fun heq => hut (Option.some.inj heq)
        refine ⟨fun hstate => hready (hsame ▸ hstate), fun hstate => ?_⟩
        have hstate : (s.tasks u).state = .running := hsame.symm.trans hstate
        exact absurd hstate (hidle u (hcurrent hstate))

/-- The current task leaves the processor. -/
theorem Joint.leave (h : s.Joint cfg xs out)
    (hidle : s.fault = .ok → ∀ t, s.current = some t → (s.tasks t).state ≠ .running) :
    Joint cfg { s with current := none } xs out := by
  have hgroups : SameGroups s { s with current := none } := ⟨rfl, rfl, rfl, rfl⟩
  refine ⟨hgroups.resident h.resident (fun _ => rfl) fun _ => Iff.rfl, h.ring, h.swept,
    ⟨h.queued.holds, h.queued.count, fun t ht => hgroups.waits (h.queued.waits t ht) rfl ?_,
      h.queued.saved, h.queued.owners, h.queued.record⟩,
    ⟨nofun, nofun, fun hok t hout => ?_⟩, hgroups.starting h.starting⟩
  · exact fun r _ _ hr => ⟨hr, rfl⟩
  · obtain ⟨hready, hcurrent⟩ := h.placed.settled hok t hout
    exact ⟨hready, fun hrunning => absurd hrunning (hidle hok t (hcurrent hrunning))⟩

/-- A fault is latched while no task runs, or the running task leaves the processor. -/
theorem Joint.fail (h : s.Joint cfg xs out) (hgroups : SameGroups s s')
    (htasks : s'.tasks = s.tasks)
    (hready : s'.ready = s.ready) (hcount : s'.ready_count = s.ready_count)
    (hring : s'.ring = s.ring) (hfault : s'.fault ≠ .ok)
    (hcurrent : s'.current = none ∨ s'.current = s.current ∧
      ∀ t, s.current = some t → (s.tasks t).state ≠ .running) : s'.Joint cfg xs none := by
  have hsaved (r : ℕ) : s'.Saved cfg r ↔ s.Saved cfg r := by
    unfold Saved
    rw [hring]
  refine ⟨hgroups.resident h.resident (fun _ => by rw [htasks]) fun _ => by rw [htasks],
    hring ▸ h.ring, hring ▸ h.swept,
    ⟨hready ▸ h.queued.holds, hcount ▸ h.queued.count, fun t ht => ?_, fun r hr => ?_,
      fun r hr => ?_, fun t => ?_⟩,
    ⟨fun t ht => ?_, fun t ht hrunning => ?_, fun hok => absurd hok hfault⟩,
    hgroups.starting h.starting⟩
  · refine hgroups.waits (h.queued.waits t ht) (by rw [htasks]) fun r _ _ hr => ?_
    exact ⟨(hsaved r).mpr hr, by rw [hring]⟩
  · rw [hring, htasks]
    exact h.queued.saved r ((hsaved r).mp hr)
  · rw [hring] at hr ⊢
    rw [hgroups.group_list, hgroups.groups]
    exact h.queued.owners r hr
  · rw [htasks]
    exact h.queued.record t
  · rcases hcurrent with hnone | ⟨hsame, -⟩
    · exact nomatch hnone.symm.trans ht
    · exact hgroups.current h.placed hsame t ht
  · rcases hcurrent with hnone | ⟨hsame, hidle⟩
    · exact nomatch hnone.symm.trans ht
    · rw [hsame] at ht
      rw [htasks] at hrunning
      exact absurd hrunning (hidle t ht)

/-- **Suspension**: the running task is saved and waits again. -/
theorem Joint.suspend (h : s.Joint cfg xs none) (hok : s.fault = .ok)
    (hcurrent : s.current = some t)
    (hrunning : (s.tasks t).state = .running) (howns : s.Owns g t)
    (hgroup : ¬ .paused ≤ (s.groups g).state ∧ (s.groups g).initialized = true)
    (offset gap sp : ℕ) (data : List UInt32)
    (hpos : 0 < data.length) (hplace : s.ring.place cfg data.length = some (offset, gap))
    (horigin : sp + data.length = cfg.stack_words) (hguard : stlGuardWords ≤ sp)
    (hframe : cfg.frame_valid data = true) (hgroups : SameGroups s s')
    (hcurrent' : s'.current = none)
    (hring : s'.ring = s.ring.append cfg (s.tasks t).owner t offset gap sp data)
    (hself : (s'.tasks t).view = ((s.tasks t).owner, .old, some s.ring.record_tail))
    (hother : ∀ u, u ≠ t → (s'.tasks u).view = (s.tasks u).view)
    (hholds : s'.ready.Holds ys) (hcount : s'.ready_count = ys.length)
    (hqueue : ∀ u, u ∈ ys ↔ u ∈ xs ∨ u = t) : s'.Joint cfg ys none := by
  have howner : (s'.tasks t).owner = (s.tasks t).owner := congrArg (fun view => view.1) hself
  have hold : (s'.tasks t).state = .old := congrArg (fun view => view.2.1) hself
  have hrecord : (s'.tasks t).record = some s.ring.record_tail :=
    congrArg (fun view => view.2.2) hself
  have hstate {u : ℕ} (hu : u ≠ t) : (s'.tasks u).state = (s.tasks u).state :=
    congrArg (fun view => view.2.1) (hother u hu)
  have hnone : (s.tasks t).record = none :=
    h.record_none (by rw [hrunning]; exact nofun) (by rw [hrunning]; exact nofun)
  have htail := h.ring.record_tail_notMem (h.ring.place hpos hplace).1
  have hlive : (s.ring.append cfg (s.tasks t).owner t offset gap sp data).live cfg =
      s.ring.live cfg ++ [s.ring.record_tail] := h.ring.live_append
  have hnew :
      (s.ring.append cfg (s.tasks t).owner t offset gap sp data).records s.ring.record_tail =
      ⟨(s.tasks t).owner, t, offset, data.length, data.length + gap, false⟩ :=
    Function.update_self _ _ _
  have hsame {r : ℕ} (hr : r ∈ s.ring.live cfg) :
      (s.ring.append cfg (s.tasks t).owner t offset gap sp data).records r = s.ring.records r := by
    have hne : r ≠ s.ring.record_tail := fun heq => htail (heq ▸ hr)
    exact Function.update_of_ne hne _ _
  have hindex {r : ℕ} (hr : s.Saved cfg r) : (s.ring.records r).task_index ≠ t := by
    rintro rfl
    exact nomatch hnone.symm.trans (h.queued.saved r hr).2
  have hsaved : s'.Saved cfg s.ring.record_tail := by
    rw [Saved, hring, hlive, hnew]
    exact ⟨List.mem_append_right _ (List.mem_singleton_self _), rfl⟩
  refine h.moved ⟨hgroups, hother, howner, by rw [hrunning]; exact nofun, by rw [hold]; exact nofun,
    hholds, hcount, fun u hu => by simp [hqueue, hu], fun _ => ?_,
    hring ▸ h.ring.append hpos hplace horigin hguard hframe, ?_, fun r hr => ?_, fun r hr => ?_,
    fun r hr _ => ?_, fun _ => hold⟩ ⟨by rw [hcurrent']; exact nofun,
      by rw [hcurrent']; exact nofun,
    fun _ u _ => ?_⟩
  · refine .old hold ⟨g, (hgroups.owns g t).mpr howns, by rw [hgroups.groups]; exact hgroup⟩
      ⟨s.ring.record_tail, hrecord, hsaved, ?_, ?_⟩
    · rw [hring, hnew]
    · rw [hring, hnew, howner]
  · intro r hr
    rw [hring, hlive] at hr
    rw [hring]
    cases hlist : s.ring.live cfg with
    | nil =>
      rw [hlist] at hr
      obtain rfl : s.ring.record_tail = r := Option.some.inj hr
      rw [hnew]
    | cons r' rs =>
      rw [hlist] at hr
      obtain rfl : r' = r := Option.some.inj hr
      rw [hsame (by rw [hlist]; exact List.mem_cons_self)]
      exact h.swept r' (by rw [hlist]; rfl)
  · rw [hring, hlive] at hr
    rw [hring]
    rcases List.mem_append.mp hr with hr | hr
    · rw [hsame hr]
      exact Or.inl ⟨hr, rfl⟩
    · rw [List.mem_singleton.mp hr, hnew]
      exact Or.inr rfl
  · have hr' := hr.1
    have hconsumed := hr.2
    rw [hring] at hr' hconsumed ⊢
    rw [hlive] at hr'
    rcases List.mem_append.mp hr' with hin | hin
    · rw [hsame hin] at hconsumed ⊢
      exact Or.inr ⟨hindex ⟨hin, hconsumed⟩, ⟨hin, hconsumed⟩, rfl⟩
    · rw [List.mem_singleton.mp hin, hnew]
      exact Or.inl ⟨rfl, (hqueue t).mpr (Or.inr rfl), hrecord⟩
  · rw [Saved, hring, hlive, hsame hr.1]
    exact ⟨⟨List.mem_append_left _ hr.1, hr.2⟩, rfl⟩
  · by_cases hut : u = t
    · rw [hut, hold]
      exact ⟨fun _ => (hqueue t).mpr (Or.inr rfl), nofun⟩
    · obtain ⟨hready, hcur⟩ := h.placed.settled hok u nofun
      rw [hstate hut]
      refine ⟨fun hu => (hqueue u).mpr (Or.inl (hready hu)), fun hu => ?_⟩
      exact absurd (Option.some.inj ((hcur hu).symm.trans hcurrent)) hut

end State
end Atoman.SectionStl
