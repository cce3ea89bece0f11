import Atoman.SectionStl.Tables

/-!
# Frames, snapshots and releases

What the parts of a switch answer: the check of a frame, the commit of the host, a save, a
restore, and the release of the tasks that are due.
-/

namespace Atoman.SectionStl
open Lib (Memory)

/-- Every commit of the host succeeds. -/
def Port.Commits (port : Port) : Prop := ∀ owner, port.host_owner_commit owner = true

/-- The frame that `section_stl_port_prepare` leaves is one that a switch accepts. -/
def Config.InitialFrame (cfg : Config) : Prop :=
  ∃ frame, cfg.initial_frame = some frame ∧ 0 < frame.length ∧
    stlGuardWords + frame.length ≤ cfg.stack_words ∧ cfg.frame_valid frame = true

namespace State
variable {cfg : Config} {s s' : State} {xs ys : List ℕ} {out : Option ℕ} {g t r sp : ℕ}
    {port : Port}

/-- The guard words are in place. -/
def Guarded (s : State) : Prop := s.stack 0 = stlGuard ∧ s.stack 1 = ~~~stlGuard

/-- The words from `sp` on are a frame that the port accepts. -/
def Frame (cfg : Config) (s : State) (sp : ℕ) : Prop :=
  stlGuardWords ≤ sp ∧ sp < cfg.stack_words ∧
    cfg.frame_valid (s.stack.slice sp (cfg.stack_words - sp)) = true

/-! ## Parts -/

/-- What `frame_words` answers. -/
theorem frameWords_cases (cfg : Config) (s : State) (p_sp : Option ℕ) :
    s.frameWords cfg p_sp = (s.corrupt, 0) ∧ ¬ (s.Guarded ∧ ∃ sp, p_sp = some sp ∧ s.Frame cfg sp) ∨
      ∃ sp, p_sp = some sp ∧ s.Frame cfg sp ∧
      s.frameWords cfg p_sp = (s, cfg.stack_words - sp) := by
  cases p_sp with
  | none => exact Or.inl ⟨rfl, fun h => by simp at h⟩
  | some sp =>
    unfold frameWords
    dsimp only
    split
    · next hbad =>
      refine Or.inl ⟨rfl, ?_⟩
      rintro ⟨⟨h0, h1⟩, sp', heq, hlow, htop, -⟩
      obtain rfl := Option.some.inj heq
      rcases hbad with h | h | h | h
      · exact h h0
      · exact h h1
      · omega
      · omega
    · next hgood =>
      rw [not_or, not_or, not_or] at hgood
      split
      · next hinvalid =>
        refine Or.inl ⟨rfl, ?_⟩
        rintro ⟨-, sp', heq, -, -, hvalid⟩
        obtain rfl := Option.some.inj heq
        exact nomatch hinvalid.symm.trans hvalid
      · next hvalid =>
        exact Or.inr ⟨sp, rfl, ⟨by omega, by omega, by simpa using hvalid⟩, rfl⟩

theorem returnNative_eq (port : Port) (s : State) : (s.returnNative port).1 =
    if port.host_owner_commit .zero = true then { s with native_pending := false }
    else s.corrupt := by
  unfold returnNative hostCommit
  by_cases hcommit : port.host_owner_commit .zero = true
  · simp [hcommit]
  · rw [Bool.not_eq_true] at hcommit
    simp [hcommit]

/-- What `snapshot_save` does. -/
theorem snapshotSave_cases (h : s.ring.Valid cfg) (hok : s.fault = .ok) (t sp words : ℕ) :
    (s.ring.reap cfg).1.place cfg words = none ∧
        s.snapshotSave cfg t sp words = ({ s with ring :=
          { (s.ring.reap cfg).1 with pool_full := (s.ring.reap cfg).1.pool_full + 1 } }, false) ∨
      ∃ offset gap, (s.ring.reap cfg).1.place cfg words = some (offset, gap) ∧
        s.snapshotSave cfg t sp words = (modify { s with
          ring := (s.ring.reap cfg).1.append cfg (s.tasks t).owner t offset gap sp
            (s.stack.slice sp words) } t fun task =>
              { task with record := some (s.ring.reap cfg).1.record_tail }, true) := by
  unfold snapshotSave
  rw [recordsReap_eq h]
  dsimp only
  rw [if_neg (not_not_intro hok)]
  cases hplace : (s.ring.reap cfg).1.place cfg words with
  | none => exact Or.inl ⟨rfl, rfl⟩
  | some place =>
    obtain ⟨offset, gap⟩ := place
    exact Or.inr ⟨offset, gap, rfl, rfl⟩

/-- What `snapshot_restore` does for a task whose snapshot is in order. -/
theorem snapshotRestore_eq (hvalid : s.ring.Valid cfg) (hok : s.fault = .ok)
    (hrecord : (s.tasks t).record = some r) (hlive : r ∈ s.ring.live cfg)
    (hsaved : (s.ring.records r).consumed = false) (hindex : (s.ring.records r).task_index = t)
    (howner : (s.ring.records r).owner = (s.tasks t).owner) :
    s.snapshotRestore cfg t = ({ s with
      stack := s.stack.write (s.ring.captured r).1 (s.ring.captured r).2
      history := { s.history with restored := s.history.restored ++
        [Restoration.mk (s.tasks t).owner (s.ring.captured r) (s.ring.captured r)] }
      tasks := (s.modify t fun task => { task with record := none }).tasks
      ring := s.ring.restored cfg r }, some (s.ring.captured r).1) := by
  obtain ⟨hwords, horigin, hguard, hframe⟩ := hvalid.intact r hlive hsaved
  have hrange := hvalid.range hlive
  have hsp : cfg.stack_words - (s.ring.records r).words = (s.ring.captured r).1 := by omega
  unfold snapshotRestore
  rw [hrecord]
  dsimp only
  rw [if_neg (Nat.not_le.mpr (Ring.Valid.lt_of_live hlive)), if_neg, if_neg]
  · rw [hwords, hsp, howner]
    have hring : Ring.Valid cfg (modify { s with
        stack := s.stack.write (s.ring.captured r).1 (s.ring.captured r).2
        ring := { s.ring.consume r with restores := s.ring.restores + 1 }
        history := { s.history with restored := s.history.restored ++
          [Restoration.mk (s.tasks t).owner (s.ring.captured r) (s.ring.captured r)] } } t
          fun task => { task with record := none }).ring := hvalid.consume_restores r
    refine (congrArg (fun u : State => (u, if u.fault ≠ .ok then none else
      some (s.ring.captured r).1)) (recordsReap_eq hring)).trans ?_
    exact congrArg (Prod.mk _) (if_neg (not_not_intro hok))
  · rw [hwords, hframe]
    exact nofun
  · rw [not_or, not_or, not_or, not_or, not_or, Bool.not_eq_true, not_not, not_not]
    exact ⟨hsaved, howner, hindex, by omega, by omega, by omega⟩

/-! ## Releases -/

/-- What releasing tasks changes: the tasks that slept, and the queue. -/
structure Activated (s s' : State) : Prop where
  eq : s' = { s with tasks := s'.tasks, ready := s'.ready, ready_count := s'.ready_count }
  kept : ∀ t, (s.tasks t).state ≠ .sleeping → s'.tasks t = s.tasks t
  states : ∀ t, (s'.tasks t).state = (s.tasks t).state ∨ (s'.tasks t).state = .new

namespace Activated

theorem refl (s : State) : Activated s s := ⟨rfl, fun _ _ => rfl, fun _ => Or.inl rfl⟩

theorem trans {s'' : State} (h : Activated s s') (h' : Activated s' s'') : Activated s s'' := by
  refine ⟨?_, fun t ht => ?_, fun t => ?_⟩
  · refine h'.eq.trans ?_
    rw [h.eq]
  · have hsame := h.kept t ht
    rw [← hsame] at ht
    rw [h'.kept t ht, hsame]
  · rcases h'.states t with hsame | hnew
    · rw [hsame]
      exact h.states t
    · exact Or.inr hnew

theorem groups (h : Activated s s') : SameGroups s s' := by
  constructor <;> rw [h.eq]

end Activated

@[simp] theorem readyPush_tasks (s : State) (t : ℕ) : (s.readyPush t).tasks = s.tasks := by
  unfold readyPush
  split <;> rfl

theorem Joint.activateTask (h : s.Joint cfg xs out) (howns : s.Owns g t)
    (hstate : (s.groups g).state = .enabled) :
    ∃ ys, (s.activateTask t).Joint cfg (xs ++ ys) out ∧ Activated s (s.activateTask t) := by
  unfold State.activateTask
  dsimp only
  split
  · next hdue =>
    refine ⟨[t], h.release hdue.1 howns hstate rfl, ?_, fun u hu => ?_, fun u => ?_⟩
    · unfold State.readyPush
      split <;> rfl
    · have hut : u ≠ t := fun heq => hu (heq ▸ hdue.1)
      rw [readyPush_tasks, modify_tasks_of_ne _ _ hut]
    · rw [readyPush_tasks]
      by_cases hut : u = t
      · rw [hut, modify_tasks_self]
        exact Or.inr rfl
      · rw [modify_tasks_of_ne _ _ hut]
        exact Or.inl rfl
  · exact ⟨[], by rwa [List.append_nil], .refl s⟩

theorem Joint.activateTasks {ts : List ℕ} (h : s.Joint cfg xs out) (hts : ∀ t ∈ ts, s.Owns g t)
    (hstate : (s.groups g).state = .enabled) : ∃ ys,
      (ts.foldl State.activateTask s).Joint cfg (xs ++ ys) out ∧
        Activated s (ts.foldl State.activateTask s) := by
  induction ts generalizing s xs with
  | nil => exact ⟨[], by rwa [List.append_nil], .refl s⟩
  | cons t ts ih =>
    obtain ⟨ys, hjoint, hact⟩ := h.activateTask (hts t List.mem_cons_self) hstate
    obtain ⟨zs, hjoint', hact'⟩ := ih hjoint
      (fun u hu => (hact.groups.owns g u).mpr (hts u (List.mem_cons_of_mem _ hu)))
      (by rw [hact.groups.groups]; exact hstate)
    exact ⟨ys ++ zs, by rwa [← List.append_assoc], hact.trans hact'⟩

/-- **Releases** append to the queue. -/
theorem Joint.activateDue (h : s.Joint cfg xs out) :
    ∃ ys, s.activateDue.Joint cfg (xs ++ ys) out ∧ Activated s s.activateDue := by
  unfold State.activateDue
  have hlist : ∀ g ∈ s.group_list, g ∈ s.group_list := fun _ hg => hg
  generalize hgs : s.group_list = gs
  rw [hgs] at hlist
  have hsub : ∀ g ∈ gs, g ∈ s.group_list := fun g hg => hgs ▸ hg
  clear hgs hlist
  induction gs generalizing s xs with
  | nil => exact ⟨[], by rwa [List.append_nil], .refl s⟩
  | cons g gs ih =>
    rw [List.foldl_cons]
    have hrest {s' : State} (hact : Activated s s') : ∀ k ∈ gs, k ∈ s'.group_list := by
      intro k hk
      rw [hact.groups.group_list]
      exact hsub k (List.mem_cons_of_mem _ hk)
    split
    · exact ih h (hrest (.refl s))
    · next hstate =>
      have hts : ∀ t ∈ (s.groups g).tasks, s.Owns g t := fun t ht => ⟨hsub g List.mem_cons_self, ht⟩
      obtain ⟨ys, hjoint, hact⟩ := h.activateTasks hts (not_not.mp hstate)
      obtain ⟨zs, hjoint', hact'⟩ := ih hjoint (hrest hact)
      exact ⟨ys ++ zs, by rwa [← List.append_assoc], hact.trans hact'⟩

end State
end Atoman.SectionStl
