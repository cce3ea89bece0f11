import Atoman.SectionStl.Switch

/-!
# The task that ran

The first half of a switch takes the running task from the processor: its group is
cancelled, its stack is saved, or its callback has completed.
-/

namespace Atoman.SectionStl
namespace State
variable {cfg : Config} {s s' : State} {xs ys : List ℕ} {out : Option ℕ} {g t r sp : ℕ}
    {port : Port}

/-! ## The task that ran -/

/-- What cancelling a group changes. -/
structure Cancelled (s s' : State) : Prop where
  eq : s' = { s with
    tasks := s'.tasks
    ready := s'.ready
    ready_count := s'.ready_count
    ring := s'.ring
    groups := s'.groups }
  groups : ∀ k, s'.groups k = s.groups k ∨ s'.groups k = { s.groups k with state := .revoked }

theorem cancelled (h : s.ring.Valid cfg) (g : ℕ) : Cancelled s (s.groupCancel cfg g) := by
  have hdiscard := (h.discard (s.groups g).handle).valid
  have heq : s.cancelTasks cfg (s.groups g).handle (s.groups g).tasks = { s with
      tasks := (s.cancelTasks cfg (s.groups g).handle (s.groups g).tasks).tasks
      ready := (s.cancelTasks cfg (s.groups g).handle (s.groups g).tasks).ready
      ready_count := (s.cancelTasks cfg (s.groups g).handle (s.groups g).tasks).ready_count
      ring := (s.cancelTasks cfg (s.groups g).handle (s.groups g).tasks).ring } :=
    recordsReap_eq hdiscard
  rw [groupCancel_eq]
  split
  · refine ⟨?_, fun k => Or.inl rfl⟩
    rw [heq]
  · refine ⟨?_, fun k => ?_⟩
    · rw [heq]
      rfl
    · by_cases hk : k = g
      · rw [hk, modifyGroup_groups_self]
        exact Or.inr rfl
      · rw [modifyGroup_groups_of_ne _ _ hk]
        exact Or.inl rfl

theorem Cancelled.evolves (h : Cancelled s s') : Evolves s s' := by
  refine ⟨?_, ?_, ?_, ?_, ?_, h.groups⟩
  all_goals rw [h.eq]

/-- Nothing of a group that is being revoked waits. -/
theorem Joint.filter_revoking (h : s.Joint cfg xs out) (hg : g ∈ s.group_list)
    (hstate : .revoking ≤ (s.groups g).state) :
    (xs.filter fun t => !s.removable (s.groups g).handle true t) = xs := by
  refine List.filter_eq_self.mpr fun t ht => ?_
  obtain ⟨k, howns, hmay⟩ := (h.queued.waits t ht).owned
  have howner : (s.tasks t).owner ≠ (s.groups g).handle := by
    intro heq
    rw [(h.resident.owned k t howns).2.2] at heq
    obtain rfl := h.resident.eq_of_handle howns.1 hg heq
    exact hmay (Nat.le_trans (by decide : GroupState.paused.val ≤ GroupState.revoking.val) hstate)
  simp [removable, howner]

/-! ## Suspension -/

/-- A save that is refused. -/
theorem Joint.poolFull (h : s.Joint cfg xs out) : Joint cfg { s with ring :=
    { (s.ring.reap cfg).1 with pool_full := (s.ring.reap cfg).1.pool_full + 1 } } xs out := by
  have hreap := h.ring.reap.2
  have hvalid : Ring.Valid cfg
      { (s.ring.reap cfg).1 with pool_full := (s.ring.reap cfg).1.pool_full + 1 } :=
    hreap.valid.of_eq rfl rfl rfl rfl rfl rfl (fun _ _ => rfl)
      fun r hr hsaved => (hreap.valid.intact r hr hsaved).of_eq rfl rfl rfl
  exact h.setRing hvalid hreap.swept ⟨hreap.keeps.live, hreap.keeps.saved⟩

/-- The frame of the running task is in order. -/
def RunningFrame (cfg : Config) (s : State) (p_saved_sp : Option ℕ) : Prop :=
  ∀ t, s.current = some t → (s.tasks t).state = .running →
    ∃ sp, p_saved_sp = some sp ∧ s.Frame cfg sp

theorem modify_modify (s : State) (t : ℕ) (f f' : Task → Task) :
    (s.modify t f).modify t f' = s.modify t fun task => f' (f task) := by
  simp only [modify, Function.update_self, Function.update_idem]

/-- `section_stl_switch` behind a save. -/
def requeue (cfg : Config) (s : State) (t : ℕ) (elapsed : UInt32) : State :=
  let s := s.modify t fun task => { task with state := .old }
  let charged := if elapsed ≠ 0 then elapsed else 1
  let s :=
    if s.native_pending = true ∧ charged < (s.tasks t).quantum_left then
      (s.modify t fun task =>
        { task with quantum_left := task.quantum_left - charged }).readyPushFront t
    else (s.modify t fun task => { task with quantum_left := cfg.slice_ticks }).readyPush t
  { s with current := none }

variable (cfg) in
/-- The task that was saved joins the queue at one of its ends. -/
theorem requeue_eq (hflag : ¬ s.ready.linked t = true) (elapsed : UInt32) :
    ∃ f, (f (s.tasks t)).view = ((s.tasks t).owner, .old, (s.tasks t).record) ∧
      ∃ ready, (ready = s.ready.pushFront t ∨ ready = s.ready.enqueue t) ∧
        s.requeue cfg t elapsed =
          { s.modify t f with
            ready := ready, ready_count := s.ready_count + 1, current := none } := by
  unfold requeue
  dsimp only
  generalize (if elapsed ≠ 0 then elapsed else 1) = charged
  split
  · refine ⟨fun task => { task with state := .old, quantum_left := task.quantum_left - charged },
      rfl, s.ready.pushFront t, Or.inl rfl, ?_⟩
    have hpush (f : Task → Task) : (s.modify t f).readyPushFront t =
        { s.modify t f with ready := s.ready.pushFront t, ready_count := s.ready_count + 1 } :=
      if_neg hflag
    rw [modify_modify, hpush]
  · refine ⟨fun task => { task with state := .old, quantum_left := cfg.slice_ticks }, rfl,
      s.ready.enqueue t, Or.inr rfl, ?_⟩
    have hpush (f : Task → Task) : (s.modify t f).readyPush t =
        { s.modify t f with ready := s.ready.enqueue t, ready_count := s.ready_count + 1 } :=
      if_neg hflag
    rw [modify_modify, hpush]

/-- The running task is saved and joins the queue at one of its ends. -/
theorem Joint.saved (h : s.Joint cfg xs none) (hok : s.fault = .ok) (hcurrent : s.current = some t)
    (hrunning : (s.tasks t).state = .running) (howns : s.Owns g t)
    (hgroup : ¬ .paused ≤ (s.groups g).state ∧ (s.groups g).initialized = true)
    (hframe : s.Frame cfg sp) {offset gap : ℕ}
    (hplace : (s.ring.reap cfg).1.place cfg (cfg.stack_words - sp) = some (offset, gap))
    (hself : (s'.tasks t).view = ((s.tasks t).owner, .old, some (s.ring.reap cfg).1.record_tail))
    (hother : ∀ u, u ≠ t → (s'.tasks u).view = (s.tasks u).view)
    (hholds : s'.ready.Holds ys) (hcount : s'.ready_count = ys.length)
    (hqueue : ∀ u, u ∈ ys ↔ u ∈ xs ∨ u = t)
    (heq : s' = { s with
      tasks := s'.tasks
      ready := s'.ready
      ready_count := s'.ready_count
      current := none
      ring := (s.ring.reap cfg).1.append cfg (s.tasks t).owner t offset gap sp
        (s.stack.slice sp (cfg.stack_words - sp)) }) : Turn cfg True s s' xs ys := by
  have hreap := h.recordsReap
  rw [recordsReap_eq h.ring] at hreap
  have hlength : (s.stack.slice sp (cfg.stack_words - sp)).length = cfg.stack_words - sp :=
    Lib.Memory.length_slice _ _ _
  obtain ⟨hlow, htop, hvalid⟩ := hframe
  have hjoint : s'.Joint cfg ys none := by
    refine hreap.suspend hok hcurrent hrunning howns hgroup offset gap sp
      (s.stack.slice sp (cfg.stack_words - sp))
      (by rw [hlength]; omega) (by rw [hlength]; exact hplace) (by rw [hlength]; omega) hlow hvalid
      ⟨?_, ?_, ?_, ?_⟩ ?_ ?_ hself hother hholds hcount hqueue
    all_goals rw [heq]
  refine ⟨hjoint, .of_groups ⟨?_, ?_, ?_, ?_⟩ ?_ ?_,
    fun _ u hu => Or.inl ((hqueue u).mpr (Or.inl hu)), Or.inl ?_, fun _ harmed hok => ⟨?_, ?_, ?_⟩⟩
  · rw [heq]
  · rw [heq]
  · rw [heq]
  · rw [heq]
  · rw [heq]
  · rw [heq]
  · rw [heq]
  · rw [heq]
    exact hok
  · rw [heq]
    exact harmed.1
  · rw [heq]
    exact fun hne => absurd rfl hne

/-! ## Departure -/

/-- What the first half of a switch does: the processor is free, or the switch is over. -/
def Departs (cfg : Config) (port : Port) (s : State) (xs : List ℕ) (p_saved_sp : Option ℕ) :
    Except (State × Option ℕ) State → Prop
  | .ok s' => ∃ ys, Turn cfg (port.Commits ∧ s.RunningFrame cfg p_saved_sp) s s' xs ys ∧
      s'.history = s.history ∧ s'.current = none ∧ s'.fault = .ok
  | .error result =>
      ∃ ys, Turn cfg (port.Commits ∧ s.RunningFrame cfg p_saved_sp) s result.1 xs ys

/-- The processor is freed without a save. -/
theorem Joint.departs_leave (h : s.Joint cfg xs none) (hok : s.fault = .ok)
    (hidle : ∀ t, s.current = some t → (s.tasks t).state ≠ .running) {p_saved_sp : Option ℕ} :
    Departs cfg port s xs p_saved_sp (.ok { s with current := none }) :=
  ⟨xs, ⟨h.leave fun _ => hidle, .of_groups ⟨rfl, rfl, rfl, rfl⟩ rfl rfl, fun _ _ ht => Or.inl ht,
    Or.inl rfl, fun _ harmed hok => ⟨hok, harmed.1, fun hne => absurd rfl hne⟩⟩, rfl, rfl, hok⟩

/-- The current task of a group that is being revoked is put to sleep. -/
theorem Joint.leave_revoking (h : s.Joint cfg xs none) (hok : s.fault = .ok)
    (hcurrent : s.current = some t) (howns : s.Owns g t) (hstate : .revoking ≤ (s.groups g).state) :
    t ∉ xs ∧ Joint cfg { s.modify t fun task => { task with state := .sleeping } with
      current := none } xs none := by
  have hnot : t ∉ xs := by
    intro ht
    obtain ⟨k, hk, hmay⟩ := (h.queued.waits t ht).owned
    rw [← h.resident.owns_unique howns hk] at hmay
    exact hmay (Nat.le_trans (by decide : GroupState.paused.val ≤ GroupState.revoking.val) hstate)
  have hold : (s.tasks t).state ≠ .old :=
    fun heq => hnot ((h.placed.settled hok t nofun).1 (Or.inr heq))
  have hsleep := h.sleep hnot hold (h.resident.owned g t howns).2.1
  refine ⟨hnot, hsleep.leave fun _ u hu => ?_⟩
  obtain rfl := Option.some.inj (hcurrent.symm.trans hu)
  rw [modify_tasks_self]
  exact nofun

variable (port) in
/-- The group of the current task is being revoked. -/
theorem Joint.departs_revoking (h : s.Joint cfg xs none) (hok : s.fault = .ok)
    (hcurrent : s.current = some t) (howns : s.Owns g t) (hstate : .revoking ≤ (s.groups g).state)
    (p_saved_sp : Option ℕ) : Departs cfg port s xs p_saved_sp (.ok (State.groupCancel cfg
      { s.modify t fun task => { task with state := .sleeping } with current := none } g)) := by
  obtain ⟨-, hleave⟩ := h.leave_revoking hok hcurrent howns hstate
  have hcancel := hleave.groupCancel (g := g) howns.1
  have hframe := cancelled hleave.ring g
  rw [hleave.filter_revoking howns.1 hstate] at hcancel
  refine ⟨xs, ⟨hcancel, ?_, fun _ _ ht => Or.inl ht, Or.inl ?_,
    fun _ harmed hok => ⟨?_, ?_, ?_⟩⟩, ?_, ?_, ?_⟩
  · have hev : Evolves s { s.modify t fun task => { task with state := .sleeping } with
        current := none } := .of_groups ⟨rfl, rfl, rfl, rfl⟩ rfl rfl
    exact hev.trans hframe.evolves
  · rw [hframe.eq]
    rfl
  · rw [hframe.eq]
    exact hok
  · rw [hframe.eq]
    exact harmed.1
  · rw [hframe.eq]
    exact fun hne => absurd rfl hne
  · rw [hframe.eq]
    rfl
  · rw [hframe.eq]
  · rw [hframe.eq]
    exact hok

/-- The running task is saved, keeps running without room in the pool, or has no frame. -/
theorem Joint.departs_running (h : s.Joint cfg xs none) (hok : s.fault = .ok)
    (hcurrent : s.current = some t) (howns : s.Owns g t)
    (hmay : ¬ .revoking ≤ (s.groups g).state) (hrunning : (s.tasks t).state = .running)
    (p_saved_sp : Option ℕ) : Departs cfg port s xs p_saved_sp
      (s.switchOut cfg port p_saved_sp) := by
  have hfind : s.groupFind (s.tasks t).owner = some g := h.resident.groupFind_owner howns
  have hgroup : ¬ .paused ≤ (s.groups g).state ∧ (s.groups g).initialized = true := by
    obtain ⟨k, hk, hinit, hpaused, -⟩ := h.placed.current t hcurrent
    rw [← h.resident.owns_unique howns hk] at hinit hpaused
    refine ⟨fun hle => ?_, hinit⟩
    cases hstate : (s.groups g).state <;> rw [hstate] at hle hmay hpaused
    · exact absurd hle (by decide)
    · exact absurd hle (by decide)
    · exact hpaused rfl
    · exact hmay (by decide)
    · exact hmay (by decide)
  have hnot : t ∉ xs := by
    intro ht
    have := (h.queued.waits t ht).state
    rw [hrunning] at this
    rcases this with h | h <;> exact nomatch h
  have hflag : ¬ s.ready.linked t = true := fun hflag => hnot ((h.queued.holds.linked t).mp hflag)
  unfold State.switchOut
  simp only [hcurrent, hfind, if_neg hmay, if_pos hrunning]
  rcases frameWords_cases cfg s p_saved_sp with ⟨hbad, hwhy⟩ | ⟨sp, rfl, hframe, hgood⟩
  · simp only [hbad]
    refine ⟨xs, (h.turn_fail (State.returned port _)).weaken fun hs harmed _ => ?_⟩
    have hinit : s.initialized = true := harmed.2 (by rw [hcurrent]; exact nofun)
    exact hwhy ⟨harmed.1 hinit, hs.2 t hcurrent hrunning⟩
  · obtain ⟨n, hn⟩ : ∃ n, cfg.stack_words - sp = n + 1 := ⟨_, (Nat.succ_pred_eq_of_pos
      (Nat.sub_pos_of_lt hframe.2.1)).symm⟩
    rw [hgood, hn]
    rcases snapshotSave_cases h.ring hok t sp (n + 1) with ⟨-, hfull⟩ | ⟨offset, gap, hplace, hsave⟩
    · simp only [hfull, if_neg (not_not_intro hok)]
      exact ⟨xs, h.poolFull, .of_groups ⟨rfl, rfl, rfl, rfl⟩ rfl rfl, fun _ _ ht => Or.inl ht,
        Or.inl rfl, fun _ harmed hok => ⟨hok, harmed⟩⟩
    · set base := modify { s with
        ring := (s.ring.reap cfg).1.append cfg (s.tasks t).owner t offset gap sp
          (s.stack.slice sp (n + 1)) } t fun task =>
            { task with record := some (s.ring.reap cfg).1.record_tail }
      simp only [hsave]
      show Departs cfg port s xs (some sp) (.ok (base.requeue cfg t (s.tick_now - s.slice_start)))
      obtain ⟨f, hf, ready, hready, heq⟩ :=
        requeue_eq (s := base) cfg hflag (s.tick_now - s.slice_start)
      have hbase :
          base.tasks t = { s.tasks t with record := some (s.ring.reap cfg).1.record_tail } :=
        Function.update_self t _ _
      rw [hbase] at hf
      have hself : (base.requeue cfg t (s.tick_now - s.slice_start)).tasks t =
          f (base.tasks t) := by
        rw [heq]
        exact Function.update_self t _ _
      have hother (u : ℕ) (hu : u ≠ t) :
          (base.requeue cfg t (s.tick_now - s.slice_start)).tasks u = s.tasks u := by
        rw [heq]
        exact (Function.update_of_ne hu _ _).trans (Function.update_of_ne hu _ _)
      obtain ⟨ys, hholds, hlength, hmem⟩ : ∃ ys, ready.Holds ys ∧ ys.length = xs.length + 1 ∧
          ∀ u, u ∈ ys ↔ u ∈ xs ∨ u = t := by
        rcases hready with rfl | rfl
        · exact ⟨t :: xs, h.queued.holds.pushFront hnot, rfl,
            fun u => by rw [List.mem_cons, or_comm]⟩
        · exact ⟨xs ++ [t], h.queued.holds.enqueue hnot, by simp, fun u => by simp⟩
      refine ⟨ys, (h.saved hok hcurrent hrunning howns hgroup hframe (by rw [hn]; exact hplace) ?_
        (fun u hu => by rw [hother u hu]) ?_ ?_ hmem ?_).weaken fun _ _ _ => trivial, ?_, ?_, ?_⟩
      · rw [hself, hbase]
        exact hf
      · rw [heq]
        exact hholds
      · rw [heq, hlength, ← h.queued.count]
        rfl
      · rw [heq, hn]
        rfl
      · rw [heq]
        rfl
      · rw [heq]
      · rw [heq]
        exact hok

end State
end Atoman.SectionStl
