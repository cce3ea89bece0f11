import Atoman.Srtos.Invariant
import Mathlib.Logic.Function.Basic

/-!
# Saving and restoring

A save appends a snapshot to those in the pool, and the restore of the oldest one takes
it from there; neither finds the pool in a state that it calls a fault.
-/

namespace Atoman.Srtos
open Lib (Memory)
universe u

namespace Sched
variable {ι : Type u} [DecidableEq ι] {cfg : Config ι} {s s' : Sched ι} {owners : List ι} {t : ι}

/-- The tasks with a snapshot, the oldest first, and their spans in the pool. -/
structure Held (cfg : Config ι) (s : Sched ι) (owners : List ι) : Prop where
  nodup : owners.Nodup
  mem : ∀ t, t ∈ owners ↔ ∃ offset, (s.tasks t).p_snapshot = some offset
  valid : s.pool.Valid cfg.context_pool_words (owners.map s.span)

omit [DecidableEq ι] in
theorem Pooled.held (h : s.Pooled cfg owners) : s.Held cfg owners := ⟨h.nodup, h.mem, h.valid⟩

namespace Held

/-! ## Allocation -/

omit [DecidableEq ι] in
theorem snapshot_none (h : s.Held cfg owners) (ht : t ∉ owners) :
    (s.tasks t).p_snapshot = none := by
  refine Option.eq_none_iff_forall_ne_some.mpr fun offset hoffset => ?_
  exact ht ((h.mem t).mpr ⟨offset, hoffset⟩)

/-- An allocation that the stack allows is the pool's. -/
theorem taskContextAlloc_eq (h : s.Held cfg owners) (ht : t ∉ owners) {n : ℕ} (hn : 0 < n)
    (hstack : n ≤ cfg.runtime_stack_words) : s.taskContextAlloc cfg t n =
      match s.pool.alloc cfg.context_pool_words n with
      | none => (s, false)
      | some (pool, offset) => ({ s with pool := pool }.modify t fun task =>
          { task with p_snapshot := some offset, snapshot_capacity_words := n }, true) := by
  unfold Sched.taskContextAlloc
  rw [if_neg (Nat.ne_of_gt hn), if_neg (Nat.not_lt.mpr hstack)]
  simp only [h.snapshot_none ht]
  cases halloc : s.pool.alloc cfg.context_pool_words n with
  | none => rfl
  | some place =>
    obtain ⟨pool, offset⟩ := place
    have hvalid := h.valid.alloc hn halloc
    refine if_neg ?_
    rw [hvalid.invariantValid]
    exact fun hboth => by cases hboth.2

/-- Every allocation is refused, with nothing changed, or it is the pool's. -/
theorem taskContextAlloc (h : s.Held cfg owners) (ht : t ∉ owners) {n : ℕ} (hn : 0 < n) :
    s.taskContextAlloc cfg t n = (s, false) ∨
    ∃ pool offset, s.taskContextAlloc cfg t n = ({ s with pool := pool }.modify t fun task =>
        { task with p_snapshot := some offset, snapshot_capacity_words := n }, true) ∧
      n ≤ cfg.runtime_stack_words ∧
      pool.Valid cfg.context_pool_words (owners.map s.span ++ [(offset, n)]) := by
  by_cases hstack : n ≤ cfg.runtime_stack_words
  · rw [h.taskContextAlloc_eq ht hn hstack]
    cases halloc : s.pool.alloc cfg.context_pool_words n with
    | none => exact Or.inl rfl
    | some place => exact Or.inr ⟨place.1, place.2, rfl, hstack, h.valid.alloc hn halloc⟩
  · refine Or.inl ?_
    rw [Sched.taskContextAlloc, if_neg (Nat.ne_of_gt hn), if_pos (Nat.not_le.mp hstack)]

end Held

/-! ## Release -/

omit [DecidableEq ι] in
/-- The gap is given back without a fault. -/
theorem taskContextReleaseGapIfHead_eq (s : Sched ι) (h : s.pool.gap_words ≤ s.pool.used) :
    s.taskContextReleaseGapIfHead cfg = { s with pool := s.pool.releaseGapIfHead } := by
  unfold Sched.taskContextReleaseGapIfHead
  rw [if_neg]
  rintro ⟨-, -, -, hless⟩
  omega

/-- The task without its snapshot. -/
def clearSnapshot (task : Task) : Task :=
  { task with p_snapshot := none, snapshot_words := 0, snapshot_capacity_words := 0 }

namespace Held

/-- The oldest snapshot is released without a fault. -/
theorem taskContextRelease (h : s.Held cfg (t :: owners)) :
    ∃ pool, s.taskContextRelease cfg t = { s with pool := pool }.modify t clearSnapshot ∧
      pool.Valid cfg.context_pool_words (owners.map s.span) ∧
      (pool.gap_words = 0 ∨ pool.head ≠ pool.gap_start) := by
  obtain ⟨offset, hoffset⟩ := (h.mem t).mp List.mem_cons_self
  have hvalid := h.valid
  rw [List.map_cons] at hvalid
  have hspan : s.span t = (offset, (s.tasks t).snapshot_capacity_words) := by
    rw [span, hoffset]
    rfl
  have hpos : 0 < (s.tasks t).snapshot_capacity_words := by
    have := hvalid.pos _ List.mem_cons_self
    rwa [hspan] at this
  have hrange : offset + (s.tasks t).snapshot_capacity_words ≤ cfg.context_pool_words := by
    have := hvalid.range_le _ List.mem_cons_self
    rwa [hspan] at this
  have hhead : s.pool.releaseGapIfHead.head = offset := by
    rw [hvalid.head_eq, hspan]
  have hgap := hvalid.releaseGapIfHead
  have hused := hgap.capacity_le
  rw [hspan] at hused
  have hadvance := hgap.advance (by rw [hhead, hspan])
  rw [hspan] at hadvance
  have hrelease := hadvance.releaseGapIfHead
  refine ⟨_, ?_, hrelease, Pool.releaseGapIfHead_settled _⟩
  have hinside : ¬ (cfg.variant = .riscv ∧ (cfg.context_pool_words ≤ offset ∨
      cfg.context_pool_words < (s.tasks t).snapshot_capacity_words ∨
      cfg.context_pool_words - (s.tasks t).snapshot_capacity_words < offset)) := by
    rintro ⟨-, hbad⟩
    omega
  have hcharged : ¬ (cfg.variant = .riscv ∧
      s.pool.releaseGapIfHead.used < (s.tasks t).snapshot_capacity_words) := by
    rintro ⟨-, hless⟩
    omega
  have hcheck : ¬ (cfg.variant = .riscv ∧ (s.pool.releaseGapIfHead.advance cfg.context_pool_words
      (s.tasks t).snapshot_capacity_words).releaseGapIfHead.invariantValid cfg.context_pool_words =
        false) := by
    rw [hrelease.invariantValid]
    exact fun hboth => by cases hboth.2
  unfold Sched.taskContextRelease
  simp only [hoffset, if_neg (Nat.ne_of_gt hpos), if_neg hinside,
    taskContextReleaseGapIfHead_eq s hvalid.gap_words_le, hhead, ne_eq, not_true_eq_false,
    if_false, if_neg hcharged]
  rw [taskContextReleaseGapIfHead_eq _ hadvance.gap_words_le]
  exact if_neg hcheck

/-! ## Growing and shrinking -/

omit [DecidableEq ι] in
/-- The same snapshots in the same pool. -/
theorem of_eq (h : s.Held cfg owners) (hpool : s'.pool = s.pool)
    (hp : ∀ u, (s'.tasks u).p_snapshot = (s.tasks u).p_snapshot)
    (hspan : ∀ u, s'.span u = s.span u) : s'.Held cfg owners where
  nodup := h.nodup
  mem := fun u => by rw [hp]; exact h.mem u
  valid := by
    rw [hpool, List.map_congr_left fun u _ => hspan u]
    exact h.valid

omit [DecidableEq ι] in
/-- The spans of other tasks are the same. -/
theorem map_span (hother : ∀ u, u ≠ t → (s'.tasks u).p_snapshot = (s.tasks u).p_snapshot ∧
    s'.span u = s.span u) (ht : t ∉ owners) : owners.map s'.span = owners.map s.span :=
  List.map_congr_left fun u hu => (hother u fun heq => ht (heq ▸ hu)).2

/-- A new snapshot of a task that had none. -/
theorem append (h : s.Held cfg owners) (ht : t ∉ owners) {offset n : ℕ}
    (hpool : s'.pool.Valid cfg.context_pool_words (owners.map s.span ++ [(offset, n)]))
    (hp : (s'.tasks t).p_snapshot = some offset) (hspan : s'.span t = (offset, n))
    (hother : ∀ u, u ≠ t → (s'.tasks u).p_snapshot = (s.tasks u).p_snapshot ∧
      s'.span u = s.span u) : s'.Held cfg (owners ++ [t]) := by
  constructor
  · rw [List.nodup_append]
    refine ⟨h.nodup, by simp, ?_⟩
    rintro u hu v hv rfl
    exact ht (List.mem_singleton.mp hv ▸ hu)
  · intro u
    rw [List.mem_append, List.mem_singleton]
    by_cases hu : u = t
    · subst hu
      exact iff_of_true (Or.inr rfl) ⟨offset, hp⟩
    · rw [(hother u hu).1, ← h.mem u]
      simp only [hu, or_false]
  · rw [List.map_append, map_span hother ht, List.map_singleton, hspan]
    exact hpool

/-- The oldest snapshot is gone. -/
theorem tail (h : s.Held cfg (t :: owners))
    (hpool : s'.pool.Valid cfg.context_pool_words (owners.map s.span))
    (hp : (s'.tasks t).p_snapshot = none)
    (hother : ∀ u, u ≠ t → (s'.tasks u).p_snapshot = (s.tasks u).p_snapshot ∧
      s'.span u = s.span u) : s'.Held cfg owners := by
  obtain ⟨ht, hnodup⟩ := List.nodup_cons.mp h.nodup
  refine ⟨hnodup, fun u => ?_, ?_⟩
  · by_cases hu : u = t
    · subst hu
      refine iff_of_false ht ?_
      rintro ⟨offset, hoffset⟩
      rw [hp] at hoffset
      exact nomatch hoffset
    · rw [(hother u hu).1, ← h.mem u, List.mem_cons]
      simp only [hu, false_or]
  · rw [map_span hother ht]
    exact hpool

end Held

/-! ## Saves and restores -/

namespace Pooled

omit [DecidableEq ι] in
/-- The fields of a task whose snapshot is the same. -/
theorem fields_of_snapshot {s' : Sched ι} {u : ι} (h : s'.snapshot u = s.snapshot u) :
    (s'.tasks u).p_snapshot = (s.tasks u).p_snapshot ∧
      (s'.tasks u).snapshot_words = (s.tasks u).snapshot_words ∧
      (s'.tasks u).snapshot_capacity_words = (s.tasks u).snapshot_capacity_words := by
  obtain ⟨hp, hrest⟩ := Prod.mk.inj h
  exact ⟨hp, Prod.mk.inj hrest⟩

omit [DecidableEq ι] in
/-- The span of a task whose snapshot is the same. -/
theorem span_of_snapshot {s' : Sched ι} {u : ι} (h : s'.snapshot u = s.snapshot u) :
    s'.span u = s.span u := by
  obtain ⟨hp, -, hc⟩ := fields_of_snapshot h
  rw [span, span, hp, hc]

/-- **A new snapshot** of a task that had none. -/
theorem append (h : s.Pooled cfg owners) (ht : t ∉ owners) {offset : ℕ} {words : List UInt32}
    (hpool : s'.pool.Valid cfg.context_pool_words (owners.map s.span ++ [(offset, words.length)]))
    (hself : s'.snapshot t = (some offset, words.length, words.length))
    (hother : ∀ u, u ≠ t → s'.snapshot u = s.snapshot u)
    (hmemory : s'.context_pool = s.context_pool.write offset words)
    (hsaved : s'.history.saved = Function.update s.history.saved t words)
    (hfaults : s'.history.faults = s.history.faults)
    (hsize : words.length ≤ cfg.runtime_stack_words ∧
      cfg.stackLow + words.length ≤ cfg.stackTop) : s'.Pooled cfg (owners ++ [t]) := by
  obtain ⟨hp, hwords⟩ := Prod.mk.inj hself
  obtain ⟨hw, hc⟩ := Prod.mk.inj hwords
  have hspan : s'.span t = (offset, words.length) := by
    rw [span, hp, hc]
    rfl
  have hne {u : ι} (hu : u ∈ owners) : u ≠ t := fun heq => ht (heq ▸ hu)
  have hheld := h.held.append ht hpool hp hspan fun u hu =>
    ⟨(fields_of_snapshot (hother u hu)).1, span_of_snapshot (hother u hu)⟩
  constructor
  · exact hheld.nodup
  · exact hheld.mem
  · exact hheld.valid
  · intro u hu
    rcases List.mem_append.mp hu with hu | hu
    · obtain ⟨-, hw', hc'⟩ := fields_of_snapshot (hother u (hne hu))
      rw [hw', hc']
      exact h.words u hu
    · rw [List.mem_singleton.mp hu, hw, hc]
      exact ⟨rfl, hsize⟩
  · intro u hu
    rcases List.mem_append.mp hu with hu | hu
    · have hapart : Pool.Apart (s.span u) (offset, words.length) := by
        have hpair := hpool.pairwise_apart
        rw [List.pairwise_append] at hpair
        exact hpair.2.2 _ (List.mem_map_of_mem hu) _ (List.mem_singleton_self _)
      rw [span_of_snapshot (hother u (hne hu)), hmemory, hsaved, Function.update_of_ne (hne hu),
        Memory.slice_write_disjoint _ _ hapart]
      exact h.saved u hu
    · rw [List.mem_singleton.mp hu, hspan, hmemory, hsaved, Function.update_self,
        Memory.slice_write_self]
  · rw [hfaults]
    exact h.order
  · rw [hfaults]
    exact h.corrupt

/-- **The oldest snapshot** is gone. -/
theorem tail (h : s.Pooled cfg (t :: owners))
    (hpool : s'.pool.Valid cfg.context_pool_words (owners.map s.span))
    (hself : s'.snapshot t = (none, 0, 0)) (hother : ∀ u, u ≠ t → s'.snapshot u = s.snapshot u)
    (hmemory : s'.context_pool = s.context_pool) (hsaved : s'.history.saved = s.history.saved)
    (hfaults : s'.history.faults = s.history.faults) : s'.Pooled cfg owners := by
  have ht : t ∉ owners := (List.nodup_cons.mp h.nodup).1
  have hp : (s'.tasks t).p_snapshot = none := congrArg (fun snap => snap.1) hself
  have hne {u : ι} (hu : u ∈ owners) : u ≠ t := fun heq => ht (heq ▸ hu)
  have hheld := h.held.tail hpool hp fun u hu =>
    ⟨(fields_of_snapshot (hother u hu)).1, span_of_snapshot (hother u hu)⟩
  constructor
  · exact hheld.nodup
  · exact hheld.mem
  · exact hheld.valid
  · intro u hu
    obtain ⟨-, hw', hc'⟩ := fields_of_snapshot (hother u (hne hu))
    rw [hw', hc']
    exact h.words u (List.mem_cons_of_mem t hu)
  · intro u hu
    rw [span_of_snapshot (hother u (hne hu)), hmemory, hsaved]
    exact h.saved u (List.mem_cons_of_mem t hu)
  · rw [hfaults]
    exact h.order
  · rw [hfaults]
    exact h.corrupt

/-- A save faults, is refused with nothing changed, or appends the snapshot. -/
theorem taskStackSave (h : s.Pooled cfg owners) (ht : t ∉ owners) (sp : ℕ) :
    (∃ reason, reason ≠ .contextReleaseOrder ∧ reason ≠ .contextPoolCorrupt ∧
      s.taskStackSave cfg t sp = (s.faultSet reason, false)) ∨
    s.taskStackSave cfg t sp = (s, false) ∨
    ∃ s', s.taskStackSave cfg t sp = (s', true) ∧ s'.Pooled cfg (owners ++ [t]) ∧ Frame s s' := by
  unfold Sched.taskStackSave
  by_cases hrange : sp < cfg.stackLow ∨ cfg.stackTop < sp
  · rw [if_pos hrange]
    exact Or.inl ⟨.pspOverflow, nofun, nofun, rfl⟩
  rw [if_neg hrange]
  by_cases hnone : cfg.stackTop - sp = 0
  · simp only [if_pos hnone, Bool.false_eq_true, if_false]
    cases cfg.policy with
    | fault => exact Or.inl ⟨.contextPoolFull, nofun, nofun, rfl⟩
    | keepRunning => exact Or.inr (Or.inl rfl)
  simp only [if_neg hnone]
  rcases h.held.taskContextAlloc ht (Nat.pos_of_ne_zero hnone) with halloc |
    ⟨pool, offset, halloc, hlarge, hvalid⟩
  · simp only [halloc, Bool.false_eq_true, if_false]
    cases cfg.policy with
    | fault => exact Or.inl ⟨.contextPoolFull, nofun, nofun, rfl⟩
    | keepRunning => exact Or.inr (Or.inl rfl)
  · simp only [halloc, if_true, modify_tasks_self]
    have hlen : (s.stack.slice sp (cfg.stackTop - sp)).length = cfg.stackTop - sp :=
      Memory.length_slice ..
    refine Or.inr (Or.inr ⟨_, rfl, ?_, ?_⟩)
    · rw [← hlen] at hvalid
      refine h.append ht hvalid ?_ ?_ rfl rfl rfl ?_
      · simp only [snapshot, modify_tasks_self, hlen]
      · intro u hu
        simp only [snapshot, modify_tasks_of_ne _ _ hu]
      · rw [hlen]
        omega
    · refine ⟨rfl, fun u => ?_, rfl, rfl, rfl, rfl, rfl⟩
      by_cases hu : u = t
      · subst hu
        simp only [modify_tasks_self]
      · simp only [modify_tasks_of_ne _ _ hu]

/-- A new task starts on an empty stack, or the stack is too small for any. -/
theorem taskStackRestore_new (h : s.Pooled cfg owners) (hstate : (s.tasks t).state = .readyNew) :
    (s.taskStackRestore cfg t).1.Pooled cfg owners ∧
      ((s.taskStackRestore cfg t).1.fault_active = true ∨
        (∃ sp, (s.taskStackRestore cfg t).2 = some sp) ∧ Frame s (s.taskStackRestore cfg t).1) := by
  unfold Sched.taskStackRestore
  simp only [if_pos hstate]
  unfold Sched.taskStackPrepareInitial
  split
  · exact ⟨h.faultSet (by simp) (by simp), Or.inl rfl⟩
  · refine ⟨?_, Or.inr ⟨⟨_, congrArg Task.p_sp (modify_tasks_self ..)⟩, ?_⟩⟩
    · refine Pooled.modify ?_ t _ ⟨rfl, rfl, rfl⟩
      exact h.of_eq rfl rfl rfl rfl fun _ => rfl
    · exact ⟨rfl, fun u => modify_field _ t u _ Task.state rfl, rfl, rfl, rfl, rfl, rfl⟩

/-- **The oldest suspended task** gets back the words of its last save. -/
theorem taskStackRestore_old (h : s.Pooled cfg (t :: owners))
    (hstate : (s.tasks t).state = .readyOld) :
    ∃ s' sp, s.taskStackRestore cfg t = (s', some sp) ∧ s'.Pooled cfg owners ∧ Frame s s' ∧
      s'.stack.slice sp (s.history.saved t).length = s.history.saved t := by
  have hmem : t ∈ t :: owners := List.mem_cons_self
  obtain ⟨offset, hoffset⟩ := (h.mem t).mp hmem
  obtain ⟨hcapacity, hlarge, hfits⟩ := h.words t hmem
  have hspan : s.span t = (offset, (s.tasks t).snapshot_words) := by
    rw [span, hoffset, hcapacity]
    rfl
  have hpos : 0 < (s.tasks t).snapshot_words := by
    have := h.valid.pos _ (List.mem_map_of_mem hmem)
    rwa [hspan] at this
  have hsaved := h.saved t hmem
  rw [hspan] at hsaved
  have hnew : ¬ (s.tasks t).state = .readyNew := by rw [hstate]; simp
  have hwords : ¬ ((s.tasks t).snapshot_words = 0 ∨
      cfg.runtime_stack_words < (s.tasks t).snapshot_words) := by omega
  unfold Sched.taskStackRestore
  simp only [if_neg hnew, hoffset, if_neg hwords, if_neg (Nat.not_lt.mpr hfits)]
  -- the task on its way: the words are on the stack, the snapshot still in the pool
  set s₁ : Sched ι := { s with
    stack := s.stack.write (cfg.stackTop - (s.tasks t).snapshot_words)
      (s.context_pool.slice offset (s.tasks t).snapshot_words) }.modify t fun task =>
        { task with p_sp := some (cfg.stackTop - (s.tasks t).snapshot_words) } with hs₁
  have h₁ : s₁.Pooled cfg (t :: owners) := by
    refine Pooled.modify ?_ t _ ⟨rfl, rfl, rfl⟩
    exact h.of_eq rfl rfl rfl rfl fun _ => rfl
  obtain ⟨pool, hrelease, hvalid, -⟩ := h₁.held.taskContextRelease
  refine ⟨_, _, rfl, ?_, ?_, ?_⟩
  · rw [hrelease]
    refine h₁.tail hvalid ?_ (fun u hu => ?_) rfl rfl rfl
    · simp only [snapshot, modify_tasks_self, clearSnapshot]
    · simp only [snapshot, modify_tasks_of_ne _ _ hu]
  · rw [hrelease]
    refine ⟨rfl, fun u => ?_, rfl, rfl, rfl, rfl, rfl⟩
    by_cases hu : u = t
    · subst hu
      simp only [modify_tasks_self, clearSnapshot, hs₁]
    · simp only [modify_tasks_of_ne _ _ hu, hs₁]
  · rw [hrelease, ← hsaved, Memory.length_slice]
    exact Memory.slice_write_of_length (Memory.length_slice ..)

end Pooled
end Sched
end Atoman.Srtos
