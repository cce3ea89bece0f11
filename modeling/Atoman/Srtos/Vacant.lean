import Atoman.Srtos.Snapshots

/-!
# Saving into an empty pool

Head and tail of an empty pool rest where the last release left them. The next snapshot
goes behind the tail or before the head, whatever words are free, so one that is longer
than half the pool may find no place in it.

A history is any sequence of saves and releases, also of saves of tasks that have a
snapshot already and of releases out of turn, which the scheduler does not ask for.
-/

namespace Atoman.Srtos
universe u

namespace Pool
variable {words required_words : ℕ} {p : Pool}

/-- An empty pool has no gap once the head has passed it. -/
theorem Valid.gap_words_of_nil (h : p.Valid words [])
    (hsettled : p.gap_words = 0 ∨ p.head ≠ p.gap_start) : p.gap_words = 0 := by
  cases h.layout with
  | linear no_gap _ _ _ => exact no_gap.1
  | wrapped hi lo turn order above _ _ _ _ gap =>
    obtain ⟨rfl, rfl⟩ := List.append_eq_nil_iff.mp order.symm
    have hturn : p.head = turn := above
    omega

/-- An empty pool is at rest. -/
theorem Valid.at_rest (h : p.Valid words []) (hgap : p.gap_words = 0) :
    p.head = p.tail ∧ p.used = 0 ∧ p.tail < words := by
  cases h.layout with
  | linear _ spans tail_lt used =>
    have hrest : p.head = p.tail := spans
    omega
  | wrapped hi lo turn order above _ _ head_lt _ gap =>
    obtain ⟨rfl, rfl⟩ := List.append_eq_nil_iff.mp order.symm
    have hturn : p.head = turn := above
    omega

/-- **The place** for a snapshot in a pool at rest is behind the tail or before it. -/
theorem alloc_at_rest (hrest : p.head = p.tail ∧ p.used = 0 ∧ p.tail < words)
    (hfits : required_words ≤ words) :
    (p.alloc words required_words).isSome = true ↔
      p.tail + required_words ≤ words ∨ required_words ≤ p.tail := by
  obtain ⟨hhead, hused, htail⟩ := hrest
  have hroom : ¬ words ≤ p.used ∧ ¬ words - p.used < required_words := by omega
  unfold Pool.alloc
  rw [if_neg hroom.1, if_neg hroom.2, if_pos (Nat.le_of_eq hhead)]
  by_cases hbehind : p.tail + required_words ≤ words
  · rw [if_pos hbehind]
    exact iff_of_true rfl (Or.inl hbehind)
  · rw [if_neg hbehind]
    by_cases hbefore : required_words ≤ p.tail
    · simp only [if_neg (show ¬ (p.head < required_words ∨
        words < p.used + (words - p.tail) + required_words) by omega)]
      exact iff_of_true rfl (Or.inr hbefore)
    · simp only [if_pos (show p.head < required_words ∨
        words < p.used + (words - p.tail) + required_words by omega)]
      exact iff_of_false nofun (by omega)

/-- The first snapshot begins with the pool. -/
theorem alloc_empty (hpos : 0 < required_words) (hlt : required_words < words) :
    empty.alloc words required_words =
      some (⟨0, required_words, required_words, 0, 0⟩, 0) := by
  have hroom : ¬ words ≤ 0 ∧ ¬ words - 0 < required_words ∧ required_words ≤ words ∧
      ¬ words ≤ required_words := by omega
  simp only [Pool.alloc, empty, if_neg hroom.1, if_neg hroom.2.1, Nat.le_refl, if_true,
    Nat.zero_add, if_pos hroom.2.2.1, if_neg hroom.2.2.2]

end Pool

namespace Sched
variable {ι : Type u} [DecidableEq ι] {cfg : Config ι} {s s' : Sched ι} {owners : List ι} {t : ι}

/-! ## Histories -/

/-- A call of `task_stack_save` or of `task_context_release`. -/
inductive PoolCall (ι : Type u)
  | save (t : ι) (sp : ℕ)
  | release (t : ι)

/-- The state after a call. -/
def poolCall (cfg : Config ι) (s : Sched ι) : PoolCall ι → Sched ι
  | .save t sp => (s.taskStackSave cfg t sp).1
  | .release t => s.taskContextRelease cfg t

/-- Some tasks have snapshots in the pool, and without any the pool is at rest. -/
def Kept (cfg : Config ι) (s : Sched ι) : Prop :=
  ∃ owners, s.Held cfg owners ∧ (owners = [] → s.pool.gap_words = 0)

omit [DecidableEq ι] in
/-- The same snapshots in the same pool. -/
theorem Kept.of_eq (h : s.Kept cfg) (hpool : s'.pool = s.pool)
    (hp : ∀ u, (s'.tasks u).p_snapshot = (s.tasks u).p_snapshot)
    (hspan : ∀ u, s'.span u = s.span u) : s'.Kept cfg := by
  obtain ⟨owners, howners, hrest⟩ := h
  exact ⟨owners, howners.of_eq hpool hp hspan, by rwa [hpool]⟩

theorem Kept.modify (h : s.Kept cfg) (t : ι) (f : Task → Task)
    (hp : (f (s.tasks t)).p_snapshot = (s.tasks t).p_snapshot)
    (hc : (f (s.tasks t)).snapshot_capacity_words = (s.tasks t).snapshot_capacity_words) :
    (s.modify t f).Kept cfg := by
  refine h.of_eq rfl (fun u => s.modify_field t u f Task.p_snapshot hp) fun u => ?_
  refine s.modify_field t u f
    (fun task => (task.p_snapshot.getD 0, task.snapshot_capacity_words)) ?_
  rw [hp, hc]

omit [DecidableEq ι] in
theorem kept_reset (time_last : ι → UInt32) (context_pool stack : Lib.Memory UInt32) :
    (reset time_last context_pool stack).Kept cfg := by
  refine ⟨[], ⟨List.nodup_nil, fun t => ?_, Pool.valid_empty cfg.context_pool_pos⟩, fun _ => rfl⟩
  exact iff_of_false List.not_mem_nil (fun ⟨_, h⟩ => nomatch h)

/-! ### A save -/

theorem Kept.taskContextAlloc (h : s.Kept cfg) (t : ι) (n : ℕ) :
    (s.taskContextAlloc cfg t n).1.Kept cfg := by
  rcases Nat.eq_zero_or_pos n with rfl | hn
  · rwa [Sched.taskContextAlloc, if_pos rfl]
  obtain ⟨owners, howners, hrest⟩ := h
  by_cases ht : t ∈ owners
  · obtain ⟨offset, hoffset⟩ := (howners.mem t).mp ht
    simp only [Sched.taskContextAlloc, if_neg (Nat.ne_of_gt hn), hoffset]
    split <;> exact ⟨owners, howners, hrest⟩
  · rcases howners.taskContextAlloc ht hn with halloc | ⟨pool, offset, halloc, -, hvalid⟩
    · rw [halloc]
      exact ⟨owners, howners, hrest⟩
    · rw [halloc]
      refine ⟨owners ++ [t], ?_, fun hnil => absurd hnil (by simp)⟩
      refine howners.append ht hvalid ?_ ?_ fun u hu => ?_
      · rw [modify_tasks_self]
      · rw [span, modify_tasks_self]
        rfl
      · rw [span, span, modify_tasks_of_ne _ _ hu]
        exact ⟨rfl, rfl⟩

theorem Kept.taskStackSave (h : s.Kept cfg) (t : ι) (sp : ℕ) :
    (s.taskStackSave cfg t sp).1.Kept cfg := by
  unfold Sched.taskStackSave
  by_cases hrange : sp < cfg.stackLow ∨ cfg.stackTop < sp
  · rw [if_pos hrange]
    exact h.of_eq rfl (fun _ => rfl) fun _ => rfl
  · rw [if_neg hrange]
    have halloc : (if cfg.stackTop - sp = 0 then (s, false)
        else s.taskContextAlloc cfg t (cfg.stackTop - sp)).1.Kept cfg := by
      split
      · exact h
      · exact h.taskContextAlloc t _
    dsimp only
    generalize (if cfg.stackTop - sp = 0 then (s, false)
      else s.taskContextAlloc cfg t (cfg.stackTop - sp)) = alloc at halloc ⊢
    obtain ⟨s', done⟩ := alloc
    cases done with
    | true =>
      simp only [if_true]
      refine Kept.modify ?_ t (fun task => { task with
        snapshot_words := cfg.stackTop - sp
        p_sp := some (cfg.stackTop - (cfg.stackTop - sp)) }) rfl rfl
      exact halloc.of_eq rfl (fun _ => rfl) fun _ => rfl
    | false =>
      cases cfg.policy with
      | fault => exact halloc.of_eq rfl (fun _ => rfl) fun _ => rfl
      | keepRunning => exact halloc

/-! ### A release -/

/-- Only the oldest snapshot begins at the head. -/
theorem Held.oldest {t' : ι} (h : s.Held cfg (t' :: owners)) (ht : t ∈ t' :: owners)
    (hhead : (s.span t).1 = s.pool.releaseGapIfHead.head) : t = t' := by
  rw [h.valid.head_eq] at hhead
  rcases List.mem_cons.mp ht with heq | ht
  · exact heq
  · have hpair := h.valid.pairwise_apart
    rw [List.map_cons, List.pairwise_cons] at hpair
    have hapart := hpair.1 _ (List.mem_map_of_mem ht)
    have hpos := h.valid.pos (s.span t') (List.mem_map_of_mem List.mem_cons_self)
    have hpos' := h.valid.pos (s.span t) (List.mem_map_of_mem (List.mem_cons_of_mem t' ht))
    unfold Pool.Apart at hapart
    omega

theorem Kept.taskContextRelease (h : s.Kept cfg) (t : ι) :
    (s.taskContextRelease cfg t).Kept cfg := by
  obtain ⟨owners, howners, hrest⟩ := h
  by_cases ht : t ∈ owners
  · cases owners with
    | nil => cases ht
    | cons t' owners =>
      by_cases heq : t = t'
      · subst heq
        have hmem : t ∉ owners := (List.nodup_cons.mp howners.nodup).1
        obtain ⟨pool, hrelease, hvalid, hsettled⟩ := howners.taskContextRelease
        rw [hrelease]
        refine ⟨owners, howners.tail hvalid ?_ fun u hu => ?_, ?_⟩
        · rw [modify_tasks_self]
          rfl
        · rw [span, span, modify_tasks_of_ne _ _ hu]
          exact ⟨rfl, rfl⟩
        · rintro rfl
          exact hvalid.gap_words_of_nil hsettled
      · -- out of turn: nothing but the gap is given back
        obtain ⟨offset, hoffset⟩ := (howners.mem t).mp ht
        have hspan : s.span t = (offset, (s.tasks t).snapshot_capacity_words) := by
          rw [span, hoffset]
          rfl
        have hrange := howners.valid.range_le _ (List.mem_map_of_mem ht)
        have hpos := howners.valid.pos _ (List.mem_map_of_mem ht)
        rw [hspan] at hrange hpos
        have hinside : ¬ (cfg.variant = .riscv ∧ (cfg.context_pool_words ≤ offset ∨
            cfg.context_pool_words < (s.tasks t).snapshot_capacity_words ∨
            cfg.context_pool_words - (s.tasks t).snapshot_capacity_words < offset)) := by
          rintro ⟨-, hbad⟩
          omega
        have hturn : offset ≠ s.pool.releaseGapIfHead.head := by
          intro hhead
          exact heq (howners.oldest ht (by rw [hspan]; exact hhead))
        simp only [Sched.taskContextRelease, hoffset, if_neg (Nat.ne_of_gt hpos), if_neg hinside,
          taskContextReleaseGapIfHead_eq s howners.valid.gap_words_le, if_pos hturn]
        exact ⟨t' :: owners, ⟨howners.nodup, howners.mem, howners.valid.releaseGapIfHead⟩,
          fun hnil => by cases hnil⟩
  · simp only [Sched.taskContextRelease, howners.snapshot_none ht]
    exact ⟨owners, howners, hrest⟩

/-! ## Empty pools -/

/-- Every history keeps the snapshots in the pool. -/
theorem kept_history (calls : List (PoolCall ι)) (h : s.Kept cfg) :
    (calls.foldl (poolCall cfg) s).Kept cfg := by
  induction calls generalizing s with
  | nil => exact h
  | cons call calls ih =>
    refine ih ?_
    cases call with
    | save t sp => exact h.taskStackSave t sp
    | release t => exact h.taskContextRelease t

omit [DecidableEq ι] in
/-- Without a live snapshot the pool is at rest. -/
theorem Kept.at_rest (h : s.Kept cfg) (hlive : ∀ t, (s.tasks t).p_snapshot = none) :
    s.pool.head = s.pool.tail ∧ s.pool.used = 0 ∧ s.pool.tail < cfg.context_pool_words := by
  obtain ⟨owners, howners, hrest⟩ := h
  have hnil : owners = [] := by
    refine List.eq_nil_iff_forall_not_mem.mpr fun t ht => ?_
    obtain ⟨offset, hoffset⟩ := (howners.mem t).mp ht
    rw [hlive t] at hoffset
    exact nomatch hoffset
  subst hnil
  exact howners.valid.at_rest (hrest rfl)

omit [DecidableEq ι] in
theorem stackTop_le (cfg : Config ι) : cfg.stackTop ≤ cfg.runtime_stack_words := by
  unfold Config.stackTop
  cases cfg.variant with
  | m => exact Nat.sub_le _ _
  | riscv => exact Nat.le_refl _

/-- **A save into an empty pool** succeeds if and only if the snapshot fits behind the place
where head and tail rest, or before it. -/
theorem Kept.taskStackSave_iff (h : s.Kept cfg) (hlive : ∀ t, (s.tasks t).p_snapshot = none)
    (t : ι) {sp : ℕ} (hlow : cfg.stackLow ≤ sp) (htop : sp < cfg.stackTop)
    (hfits : cfg.stackTop - sp ≤ cfg.context_pool_words) :
    (s.taskStackSave cfg t sp).2 = true ↔
      s.pool.tail + (cfg.stackTop - sp) ≤ cfg.context_pool_words ∨
        cfg.stackTop - sp ≤ s.pool.tail := by
  have hrest := h.at_rest hlive
  obtain ⟨owners, howners, -⟩ := h
  have ht : t ∉ owners := by
    intro ht
    obtain ⟨offset, hoffset⟩ := (howners.mem t).mp ht
    rw [hlive t] at hoffset
    exact nomatch hoffset
  have hpos : 0 < cfg.stackTop - sp := by omega
  have hstack : cfg.stackTop - sp ≤ cfg.runtime_stack_words :=
    Nat.le_trans (Nat.sub_le _ _) (stackTop_le cfg)
  rw [← Pool.alloc_at_rest hrest hfits]
  unfold Sched.taskStackSave
  rw [if_neg (show ¬ (sp < cfg.stackLow ∨ cfg.stackTop < sp) by omega)]
  simp only [if_neg (Nat.ne_of_gt hpos), howners.taskContextAlloc_eq ht hpos hstack]
  cases s.pool.alloc cfg.context_pool_words (cfg.stackTop - sp) with
  | some place => exact iff_of_true rfl rfl
  | none =>
    cases cfg.policy with
    | fault => exact iff_of_false nofun nofun
    | keepRunning => exact iff_of_false nofun nofun

/-! ## Resting places -/

omit [DecidableEq ι] in
theorem taskContextReleaseGapIfHead_tail (cfg : Config ι) (s : Sched ι) :
    (s.taskContextReleaseGapIfHead cfg).pool.tail = s.pool.tail := by
  unfold Sched.taskContextReleaseGapIfHead Pool.releaseGapIfHead
  repeat' split
  all_goals rfl

/-- A release does not move the tail. -/
theorem taskContextRelease_tail (cfg : Config ι) (s : Sched ι) (t : ι) :
    (s.taskContextRelease cfg t).pool.tail = s.pool.tail := by
  unfold Sched.taskContextRelease
  cases (s.tasks t).p_snapshot with
  | none => rfl
  | some offset =>
    dsimp only
    repeat' split
    · rfl
    · rfl
    · exact taskContextReleaseGapIfHead_tail cfg s
    · exact taskContextReleaseGapIfHead_tail cfg s
    · exact (taskContextReleaseGapIfHead_tail cfg _).trans (taskContextReleaseGapIfHead_tail cfg s)
    · exact (taskContextReleaseGapIfHead_tail cfg _).trans (taskContextReleaseGapIfHead_tail cfg s)

/-- One save and one release leave head and tail behind the words of the save. -/
theorem rest_at (cfg : Config ι) (t : ι) {n : ℕ} (hn : 0 < n) (hpool : n < cfg.context_pool_words)
    (hstack : cfg.stackLow + n ≤ cfg.stackTop) (time_last : ι → UInt32)
    (context_pool stack : Lib.Memory UInt32) :
    let s := [PoolCall.save t (cfg.stackTop - n), .release t].foldl (poolCall cfg)
      (reset time_last context_pool stack)
    (∀ u, (s.tasks u).p_snapshot = none) ∧ s.pool.tail = n := by
  set s := reset time_last context_pool stack with hs
  have hheld : s.Held cfg [] := by
    refine ⟨List.nodup_nil, fun t => ?_, Pool.valid_empty cfg.context_pool_pos⟩
    exact iff_of_false List.not_mem_nil (fun ⟨_, h⟩ => nomatch h)
  have hwords : cfg.stackTop - (cfg.stackTop - n) = n := by omega
  have halloc : s.taskContextAlloc cfg t n =
      ({ s with pool := ⟨0, n, n, 0, 0⟩ }.modify t fun task =>
        { task with p_snapshot := some 0, snapshot_capacity_words := n }, true) := by
    rw [hheld.taskContextAlloc_eq List.not_mem_nil hn (by have := stackTop_le cfg; omega),
      hs, reset, Pool.alloc_empty hn hpool]
  have hsave : (s.taskStackSave cfg t (cfg.stackTop - n)).1.pool = ⟨0, n, n, 0, 0⟩ ∧
      (s.taskStackSave cfg t (cfg.stackTop - n)).1.Held cfg [t] := by
    unfold Sched.taskStackSave
    have hinside : ¬ (cfg.stackTop - n < cfg.stackLow ∨ cfg.stackTop < cfg.stackTop - n) := by omega
    rw [if_neg hinside]
    simp only [hwords, if_neg (Nat.ne_of_gt hn), halloc, if_true]
    refine ⟨rfl, hheld.append List.not_mem_nil
      (hheld.valid.alloc hn (Pool.alloc_empty hn hpool)) ?_ ?_ fun u hu => ?_⟩
    · simp only [modify_tasks_self]
    · simp only [span, modify_tasks_self, Option.getD_some]
    · simp only [span, modify_tasks_of_ne _ _ hu, and_self]
  obtain ⟨hsaved, hheld'⟩ := hsave
  obtain ⟨pool, hrelease, -⟩ := hheld'.taskContextRelease
  refine ⟨fun u => ?_, ?_⟩
  · show (((s.taskStackSave cfg t (cfg.stackTop - n)).1.taskContextRelease cfg t).tasks
      u).p_snapshot = none
    rw [hrelease]
    by_cases hu : u = t
    · subst hu
      rw [modify_tasks_self]
      rfl
    · rw [modify_tasks_of_ne _ _ hu]
      exact hheld'.snapshot_none (fun hmem => hu (List.mem_singleton.mp hmem))
  · show ((s.taskStackSave cfg t (cfg.stackTop - n)).1.taskContextRelease cfg t).pool.tail = n
    rw [taskContextRelease_tail, hsaved]

end Sched

namespace Config
variable {ι : Type u} [DecidableEq ι]

/-- After every history that leaves no live snapshot, every snapshot that the stack and the
pool can hold is saved. -/
def AdmitsLegal (cfg : Config ι) : Prop :=
  ∀ (time_last : ι → UInt32) (context_pool stack : Lib.Memory UInt32)
    (calls : List (Sched.PoolCall ι)),
    let s := calls.foldl (Sched.poolCall cfg) (Sched.reset time_last context_pool stack)
    (∀ t, (s.tasks t).p_snapshot = none) →
      ∀ (t : ι) (sp : ℕ), cfg.stackLow ≤ sp → sp < cfg.stackTop →
        cfg.stackTop - sp ≤ cfg.context_pool_words → (s.taskStackSave cfg t sp).2 = true

/-- A snapshot of more than half of the pool is refused after some history. -/
theorem not_admitsLegal_of_lt (cfg : Config ι) (t : ι) (hlarge : cfg.context_pool_words + 1 <
    2 * min cfg.context_pool_words (cfg.stackTop - cfg.stackLow)) : ¬ cfg.AdmitsLegal := by
  intro h
  set m := min cfg.context_pool_words (cfg.stackTop - cfg.stackLow) with hm
  -- head and tail come to rest so that neither side has room for the largest snapshot
  set n := cfg.context_pool_words + 1 - m with hn
  have hrest : 0 < n ∧ n < m := by omega
  obtain ⟨hlive, htail⟩ := Sched.rest_at cfg t hrest.1 (by omega) (by omega) (fun _ => 0)
    (fun _ => 0) (fun _ => 0)
  have hkept : Sched.Kept cfg _ := Sched.kept_history [.save t (cfg.stackTop - n), .release t]
    (Sched.kept_reset (fun _ => 0) (fun _ => 0) (fun _ => 0))
  have hsaved := h (fun _ => 0) (fun _ => 0) (fun _ => 0) _ hlive t (cfg.stackTop - m)
    (by omega) (by omega) (by omega)
  rw [hkept.taskStackSave_iff hlive t (by omega) (by omega) (by omega), htail] at hsaved
  omega

/-- **Every legal snapshot is admitted** if and only if the largest one takes at most half
of the pool, rounded up. -/
theorem admitsLegal_iff (cfg : Config ι) (t : ι) : cfg.AdmitsLegal ↔
    2 * min cfg.context_pool_words (cfg.stackTop - cfg.stackLow) ≤ cfg.context_pool_words + 1 := by
  constructor
  · intro h
    by_contra hlarge
    exact not_admitsLegal_of_lt cfg t (Nat.not_le.mp hlarge) h
  · intro hhalf time_last context_pool stack calls s hlive t sp hlow htop hfits
    have hkept : s.Kept cfg :=
      Sched.kept_history calls (Sched.kept_reset time_last context_pool stack)
    rw [hkept.taskStackSave_iff hlive t hlow htop hfits]
    have := (hkept.at_rest hlive).2.2
    omega

/-- A pool of a hundred words that has held forty-one has no place for sixty. -/
theorem not_admitsLegal : ∃ cfg : Config Unit, cfg.variant = .m ∧
    cfg.initialWords ≤ cfg.runtime_stack_words ∧ ¬ cfg.AdmitsLegal := by
  let cfg : Config Unit :=
    { variant := .m, context_pool_words := 100, context_pool_pos := by decide,
      runtime_stack_words := 60, policy := .fault, slice_ticks := 10, entry := 0,
      initial_cause := 0, runtime_tp := 0, tasks := [()], t_period := fun _ => 1,
      callable := fun _ => true }
  exact ⟨cfg, rfl, by decide, not_admitsLegal_of_lt cfg () (by decide)⟩

end Config
end Atoman.Srtos
