import Atoman.Lib.StableSort
import Atoman.SectionStl.Revocation

/-!
# Registration

A registration copies the tasks of its table into the first free slots, one slot for each,
and links them by their periods; tasks of one period stay in the order of the table. The
checks come first: a registration that is refused has written nothing.
-/

namespace Atoman.SectionStl
open Lib (StableSort)

/-- The tasks of a table. -/
def taskEntries (image : Image) (table : List RegSection) : List RegTask :=
  table.filterMap fun entry =>
    if entry.section_type = sectionTask then entry.p_str.bind image.task else none

/-- The copy of a task that a registration makes. -/
def RegTask.copy (handle : Handle) (now : UInt32) (source : RegTask) : Task where
  owner := handle
  quantum_left := 0
  period := source.t_period
  last := now
  p_func := source.p_func
  p_step_func := source.p_step_func
  p_ctx := source.p_ctx
  record := none
  state := .sleeping

namespace State
variable {cfg : Config} {s s' : State} {image : Image} {table : List RegSection}
  {sources : List RegTask} {slots : List ℕ} {g t : ℕ} {handle : Handle}

/-- The free task slots. -/
def freeSlots (cfg : Config) (s : State) : List ℕ :=
  (List.range cfg.max_tasks).filter fun t => (s.tasks t).state = .free

/-- What a registration has done: it took a free group slot and free task slots, one for
each task of the table, and gave out the next generation. -/
structure Registered (cfg : Config) (image : Image) (group_id : UInt32) (table : List RegSection)
    (s s' : State) (handle : Handle) (g : ℕ) (slots order : List ℕ) : Prop where
  group_lt : g < cfg.max_groups
  group_free : (s.groups g).handle.group_id = 0
  slots_nodup : slots.Nodup
  slots_lt : ∀ t ∈ slots, t < cfg.max_tasks
  slots_free : ∀ t ∈ slots, (s.tasks t).state = .free
  copies : slots.map s'.tasks = (taskEntries image table).map (RegTask.copy handle s.tick_now)
  sorted : StableSort (fun t => (s'.tasks t).period.toNat) slots order
  group : s'.groups g =
    { Group.zero with handle := handle, tasks := order, task_count := slots.length }
  handle_eq : handle = ⟨group_id, s'.generation⟩
  generation : s'.generation.toNat = s.generation.toNat + 1
  group_list : s'.group_list = g :: s.group_list
  group_count : s'.group_count = s.group_count + 1
  unlinked : ∀ t ∈ slots, s'.ready.linked t = false
  other_groups : ∀ k, k ≠ g → s'.groups k = s.groups k
  other_tasks : ∀ t, t ∉ slots → s'.tasks t = s.tasks t
  other : s' = { s with
    groups := s'.groups
    group_list := s'.group_list
    group_count := s'.group_count
    generation := s'.generation
    tasks := s'.tasks
    ready := s'.ready }

/-! ## The checks -/

theorem taskEntries_cons (image : Image) (entry : RegSection) (table : List RegSection) :
    taskEntries image (entry :: table) =
      (if entry.section_type = sectionTask then (entry.p_str.bind image.task).toList else []) ++
        taskEntries image table := by
  unfold taskEntries
  by_cases htask : entry.section_type = sectionTask
  · cases hsome : entry.p_str.bind image.task <;> simp [htask, hsome]
  · simp [htask]

/-- A table that passes the check has its tasks counted. -/
theorem checkTasks_needed {prior : List RegSection} {result : Status} {needed : ℕ}
    (h : (checkTasks image prior table result needed).1 = .ok) :
    (checkTasks image prior table result needed).2 =
      needed + (taskEntries image table).length := by
  induction table generalizing prior result needed with
  | nil => rfl
  | cons entry rest ih =>
    rw [taskEntries_cons]
    unfold checkTasks at h ⊢
    split at h
    · next htask =>
      rw [if_pos htask, if_pos htask]
      split at h
      · exact nomatch h
      · next task hsome =>
        rw [hsome]
        split at h
        · exact nomatch h
        · next hvalid =>
          dsimp only
          rw [if_neg hvalid, ih h]
          simp only [Option.toList_some, List.length_append, List.length_singleton]
          omega
    · next htask =>
      rw [if_neg htask, if_neg htask, ih h]
      rfl

/-- The tasks of a table that passes the check have periods. -/
theorem checkTasks_period {prior : List RegSection} {result : Status} {needed : ℕ}
    (h : (checkTasks image prior table result needed).1 = .ok) :
    ∀ source ∈ taskEntries image table, source.t_period ≠ 0 := by
  induction table generalizing prior result needed with
  | nil => exact nofun
  | cons entry rest ih =>
    rw [taskEntries_cons]
    unfold checkTasks at h
    split at h
    · next htask =>
      rw [if_pos htask]
      split at h
      · exact nomatch h
      · next source hsome =>
        split at h
        · exact nomatch h
        · next hvalid =>
          rw [not_or] at hvalid
          rw [hsome]
          intro other hother
          rcases List.mem_cons.mp hother with rfl | hother
          · exact hvalid.1
          · exact ih h other hother
    · next htask =>
      rw [if_neg htask]
      exact ih h

/-- The table of a registration that passes the checks passes its own. -/
theorem registerCheck_table {group_id : UInt32}
    (h : s.registerCheck cfg image group_id table = .ok) :
    ∃ first, (checkTasks image [] table first 0).1 = .ok := by
  unfold registerCheck at h
  dsimp only at h
  generalize (if ((List.range cfg.max_groups).any fun g =>
      decide ((s.groups g).handle.group_id = group_id)) = true then Status.badState
      else if s.initialized = false ∨ s.fault ≠ .ok then .badState else .ok) = first at h
  refine ⟨first, ?_⟩
  by_contra hne
  simp [hne] at h

/-- A registration that passes the checks has a group slot and enough task slots. -/
theorem registerCheck_room {group_id : UInt32}
    (h : s.registerCheck cfg image group_id table = .ok) :
    s.freeGroup cfg ≠ none ∧ (taskEntries image table).length ≤ (s.freeSlots cfg).length := by
  unfold registerCheck at h
  dsimp only at h
  generalize (if ((List.range cfg.max_groups).any fun g =>
      decide ((s.groups g).handle.group_id = group_id)) = true then Status.badState
      else if s.initialized = false ∨ s.fault ≠ .ok then .badState else .ok) = first at h
  have hneeded : (checkTasks image [] table first 0).1 = .ok →
      (checkTasks image [] table first 0).2 = 0 + (taskEntries image table).length :=
        checkTasks_needed
  generalize checkTasks image [] table first 0 = checked at h hneeded
  obtain ⟨result, needed⟩ := checked
  dsimp only at h hneeded
  by_cases hroom : result = .ok ∧ (s.freeGroup cfg = none ∨
      (List.range cfg.max_tasks).countP (fun t => decide ((s.tasks t).state = .free)) < needed)
  · rw [if_pos hroom] at h
    simp at h
  · rw [if_neg hroom] at h
    have hok : result = .ok := by
      split at h
      · exact nomatch h
      · exact h
    rw [not_and, not_or] at hroom
    obtain ⟨hgroup, htasks⟩ := hroom hok
    refine ⟨hgroup, ?_⟩
    rw [hneeded hok, Nat.zero_add, Nat.not_lt, List.countP_eq_length_filter] at htasks
    exact htasks

/-! ## The copies -/

/-- Inserting behind the tasks of no longer period. -/
theorem insertByPeriod_split (period : ℕ → UInt32) (t : ℕ) {us : List ℕ}
    (h : us.Pairwise fun u v => (period u).toNat ≤ (period v).toNat) : ∃ front back,
      us = front ++ back ∧ insertByPeriod period t us = front ++ t :: back ∧
      (∀ u ∈ front, (period u).toNat ≤ (period t).toNat) ∧
      ∀ u ∈ back, (period t).toNat < (period u).toNat := by
  induction us with
  | nil => exact ⟨[], [], rfl, rfl, nofun, nofun⟩
  | cons u us ih =>
    obtain ⟨hu, hus⟩ := List.pairwise_cons.mp h
    unfold insertByPeriod
    split
    · next hlt =>
      refine ⟨[], u :: us, rfl, rfl, nofun, fun v hv => ?_⟩
      rcases List.mem_cons.mp hv with rfl | hv
      · exact UInt32.lt_iff_toNat_lt.mp hlt
      · exact Nat.lt_of_lt_of_le (UInt32.lt_iff_toNat_lt.mp hlt) (hu v hv)
    · next hle =>
      obtain ⟨front, back, rfl, hinsert, hfront, hback⟩ := ih hus
      refine ⟨u :: front, back, rfl, by rw [hinsert]; rfl, fun v hv => ?_, hback⟩
      rcases List.mem_cons.mp hv with rfl | hv
      · exact UInt32.le_iff_toNat_le.mp (UInt32.not_lt.mp hle)
      · exact hfront v hv

/-- The first free slot. -/
theorem freeTask_eq (cfg : Config) (s : State) : s.freeTask cfg = (s.freeSlots cfg).head? := by
  unfold freeTask freeSlots
  rw [List.head?_filter]

/-- Where the tasks of a table that were copied so far are. -/
structure Copied (cfg : Config) (s s' : State) (g : ℕ) (sources : List RegTask) (slots : List ℕ) :
    Prop where
  claimed : Claimed s s'
  free : s.freeSlots cfg = slots ++ s'.freeSlots cfg
  copies : slots.map s'.tasks =
    sources.map (RegTask.copy (s.groups g).handle s.tick_now)
  sorted : StableSort (fun t => (s'.tasks t).period.toNat) slots (s'.groups g).tasks
  group : s'.groups g =
    { s.groups g with tasks := (s'.groups g).tasks, task_count := slots.length }
  unlinked : ∀ t ∈ slots, s'.ready.linked t = false
  other_groups : ∀ k, k ≠ g → s'.groups k = s.groups k
  other_tasks : ∀ t, t ∉ slots → s'.tasks t = s.tasks t

/-- The next task is copied into the first free slot. -/
theorem Copied.claimTask (h : Copied cfg s s' g sources slots) (source : RegTask)
    (hfree : s'.freeSlots cfg ≠ []) : ∃ t,
      Copied cfg s (s'.claimTask cfg g source) g (sources ++ [source]) (slots ++ [t]) := by
  obtain ⟨t, rest, hslots⟩ := List.exists_cons_of_ne_nil hfree
  have hnodup : (slots ++ t :: rest).Nodup := by
    rw [← hslots, ← h.free]
    exact List.nodup_range.filter _
  have hnot : t ∉ slots := fun ht => (List.nodup_append.mp hnodup).2.2 t ht t List.mem_cons_self rfl
  have hrest : t ∉ rest := (List.nodup_cons.mp (List.nodup_append.mp hnodup).2.1).1
  have hfind : s'.freeTask cfg = some t := by
    rw [freeTask_eq, hslots]
    rfl
  have hhandle : (s'.groups g).handle = (s.groups g).handle := h.claimed.handle g
  have hnow : s'.tick_now = s.tick_now := by rw [h.claimed.eq]
  have hclaim : s'.claimTask cfg g source =
      ({ s' with ready := s'.ready.clear t }.modify t fun _ =>
        source.copy (s.groups g).handle s.tick_now).modifyGroup g fun group =>
          { group with
            tasks := insertByPeriod
              (fun u => (State.tasks ({ s' with ready := s'.ready.clear t }.modify t
              fun _ => source.copy (s.groups g).handle s.tick_now) u).period) t group.tasks
            task_count := group.task_count + 1 } := by
    unfold State.claimTask
    rw [hfind, ← hhandle, ← hnow]
    rfl
  set task := source.copy (s.groups g).handle s.tick_now
  set period :=
    fun u => (State.tasks ({ s' with ready := s'.ready.clear t }.modify t fun _ => task) u).period
  set s'' := s'.claimTask cfg g source
  have hself : s''.tasks t = task := by
    rw [hclaim]
    exact Function.update_self t _ _
  have hother {u : ℕ} (hu : u ≠ t) : s''.tasks u = s'.tasks u := by
    rw [hclaim]
    exact Function.update_of_ne hu _ _
  have hgroup : s''.groups g = { s'.groups g with
      tasks := insertByPeriod period t (s'.groups g).tasks
      task_count := (s'.groups g).task_count + 1 } := by
    rw [hclaim]
    exact Function.update_self g _ _
  have hperiod (u : ℕ) : (s''.tasks u).period = period u := by
    rw [hclaim]
    rfl
  have hkept {u : ℕ} (hu : u ∈ slots) : s''.tasks u = s'.tasks u :=
    hother fun heq => hnot (heq ▸ hu)
  refine ⟨t, h.claimed.trans (claimed_task cfg g s' source), ?_, ?_, ?_, ?_, fun u hu => ?_,
    fun k hk => ?_, fun u hu => ?_⟩
  · have hnext : s''.freeSlots cfg = rest := by
      have hsplit : s''.freeSlots cfg = (s'.freeSlots cfg).filter fun u => u ≠ t := by
        unfold freeSlots
        rw [List.filter_filter]
        refine List.filter_congr fun u _ => ?_
        by_cases hu : u = t
        · simp [hu, hself, task, RegTask.copy]
        · simp [hu, hother hu]
      rw [hsplit, hslots, List.filter_cons_of_neg (by simp)]
      exact List.filter_eq_self.mpr fun u hu => decide_eq_true fun heq => hrest (heq ▸ hu)
    rw [h.free, hslots, hnext, List.append_assoc]
    rfl
  · rw [List.map_append, List.map_append, ← h.copies, List.map_congr_left fun u hu => hkept hu]
    exact congrArg (fun copied => slots.map s'.tasks ++ [copied]) hself
  · have hsame : ∀ u ∈ slots, (s''.tasks u).period.toNat = (s'.tasks u).period.toNat :=
      fun u hu => by rw [hkept hu]
    have hsort := h.sorted.congr hsame
    obtain ⟨front, back, horder, hinsert, hfront, hback⟩ :=
      insertByPeriod_split (fun u => (s''.tasks u).period) t hsort.sorted
    rw [horder] at hsort
    have htasks : (s''.groups g).tasks = front ++ t :: back := by
      rw [hgroup, ← hinsert]
      exact congrArg (fun key => insertByPeriod key t (s'.groups g).tasks)
        (funext fun u => (hperiod u).symm)
    rw [htasks]
    exact hsort.insert hfront hback
  · rw [hgroup, h.group, List.length_append]
    rfl
  · rw [hclaim]
    show (s'.ready.clear t).linked u = false
    by_cases hut : u = t
    · rw [hut]
      exact Function.update_self t _ _
    · refine (Function.update_of_ne hut _ _).trans (h.unlinked u ?_)
      exact (List.mem_append.mp hu).resolve_right fun hin => hut (List.mem_singleton.mp hin)
  · rw [hclaim]
    exact (Function.update_of_ne hk _ _).trans (h.other_groups k hk)
  · rw [List.mem_append, not_or, List.mem_singleton] at hu
    rw [hother hu.2]
    exact h.other_tasks u hu.1

/-- The tasks of a table are copied one after another. -/
theorem Copied.claimTable (h : Copied cfg s s' g sources slots)
    (hroom : (taskEntries image table).length ≤ (s'.freeSlots cfg).length) : ∃ slots',
      Copied cfg s (table.foldl (claimEntry cfg image g) s') g
        (sources ++ taskEntries image table) slots' := by
  induction table generalizing s' sources slots with
  | nil => exact ⟨slots, by simpa [taskEntries] using h⟩
  | cons entry rest ih =>
    rw [taskEntries_cons] at hroom ⊢
    rw [List.foldl_cons]
    unfold claimEntry
    split
    · next htask =>
      rw [if_pos htask] at hroom
      cases hsome : entry.p_str.bind image.task with
      | none =>
        rw [hsome] at hroom
        exact ih h hroom
      | some source =>
        rw [hsome, Option.toList_some, List.length_append, List.length_singleton] at hroom
        have hfree : s'.freeSlots cfg ≠ [] := List.ne_nil_of_length_pos (by omega)
        obtain ⟨t, hcopied⟩ := h.claimTask source hfree
        have hlength := congrArg List.length (h.free.symm.trans hcopied.free)
        simp only [List.length_append, List.length_singleton] at hlength
        obtain ⟨slots', hrest⟩ := ih hcopied (by omega)
        refine ⟨slots', ?_⟩
        rwa [Option.toList_some, ← List.append_assoc]
    · next htask =>
      rw [if_neg htask] at hroom
      exact ih h hroom

/-- Nothing has been copied yet. -/
theorem Copied.start (s : State) (g : ℕ) (handle : Handle) :
    Copied cfg (s.openGroup g handle) (s.openGroup g handle) g [] [] := by
  have hself := openGroup_groups_self s g handle
  refine ⟨.refl _, rfl, rfl, ?_, ?_, nofun, fun _ _ => rfl, fun _ _ => rfl⟩
  · rw [hself]
    exact .nil
  · rw [hself]
    rfl

/-- **The commit** of a registration that passed the checks. -/
theorem registerCommit_spec {group_id : UInt32} (hlt : g < cfg.max_groups)
    (hfree : (s.groups g).handle.group_id = 0) (hgeneration : s.generation ≠ 0xFFFFFFFF)
    (hroom : (taskEntries image table).length ≤ (s.freeSlots cfg).length) : ∃ s' handle slots order,
      s.registerCommit cfg image group_id table g = (s', handle) ∧
        Registered cfg image group_id table s s' handle g slots order := by
  set handle : Handle := ⟨group_id, s.generation + 1⟩ with hhandle
  have hself := openGroup_groups_self s g handle
  obtain ⟨slots, hcopied⟩ : ∃ slots, Copied cfg (s.openGroup g handle)
      (table.foldl (claimEntry cfg image g) (s.openGroup g handle))
        g (taskEntries image table) slots :=
    (Copied.start s g handle).claimTable hroom
  refine ⟨(s.registerCommit cfg image group_id table g).1, handle, slots,
    ((s.registerCommit cfg image group_id table g).1.groups g).tasks, rfl, ?_⟩
  rw [registerCommit_eq]
  generalize table.foldl (claimEntry cfg image g) (s.openGroup g handle) = s' at hcopied ⊢
  have hslots : ∀ t ∈ slots, t ∈ s.freeSlots cfg := by
    intro t ht
    have : t ∈ (s.openGroup g handle).freeSlots cfg := hcopied.free ▸ List.mem_append_left _ ht
    exact this
  have hnodup : (s.freeSlots cfg).Nodup := List.nodup_range.filter _
  have hsplit : s.freeSlots cfg = slots ++ s'.freeSlots cfg := hcopied.free
  have hmax : s.generation.toNat ≠ 4294967295 := fun heq => hgeneration (UInt32.toNat_inj.mp heq)
  have hnext : (s.generation + 1).toNat = s.generation.toNat + 1 := by
    have hlt := s.generation.toNat_lt
    have hone : (1 : UInt32).toNat = 1 := rfl
    rw [UInt32.toNat_add, hone]
    omega
  have heq := hcopied.claimed.eq
  refine ⟨hlt, hfree, ?_, fun t ht => ?_, fun t ht => ?_, ?_, hcopied.sorted, ?_, ?_, ?_, ?_, ?_,
    hcopied.unlinked, fun k hk => ?_, hcopied.other_tasks, ?_⟩
  · rw [hsplit] at hnodup
    exact (List.nodup_append.mp hnodup).1
  · exact List.mem_range.mp (List.mem_filter.mp (hslots t ht)).1
  · simpa using (List.mem_filter.mp (hslots t ht)).2
  · have hcopies := hcopied.copies
    rw [hself] at hcopies
    exact hcopies
  · rw [hcopied.group, hself]
  · rw [heq]
    rfl
  · rw [heq]
    exact hnext
  · rw [heq]
    rfl
  · rw [heq]
    rfl
  · exact (hcopied.other_groups k hk).trans (modifyGroup_groups_of_ne _ _ hk)
  · rw [heq]
    rfl

/-- A registration is refused, or it is committed. -/
theorem register_cases (cfg : Config) (port : Port) (s : State) (image : Image)
    (group_id : UInt32) (p_entries : Option (ℕ → RegSection)) (count : ℕ) (p_handle : Bool) :
    (∃ result, result ≠ .ok ∧
      s.sectionStlGroupRegister cfg port image group_id p_entries count p_handle =
        (s, result, none)) ∨
    ∃ s' handle g slots order,
      s.sectionStlGroupRegister cfg port image group_id p_entries count p_handle =
        (s', .ok, some handle) ∧
      s.Registered cfg image group_id ((List.range count).filterMap fun i => p_entries.map (· i)) s'
        handle g slots order ∧
      ∀ source ∈ taskEntries image ((List.range count).filterMap fun i => p_entries.map (· i)),
        source.t_period ≠ 0 := by
  unfold sectionStlGroupRegister
  split
  · exact Or.inl ⟨.badContext, by decide, rfl⟩
  split
  · exact Or.inl ⟨.badContext, by decide, rfl⟩
  split
  · exact Or.inl ⟨.badArgument, by decide, rfl⟩
  dsimp only
  generalize (List.range count).filterMap (fun i => p_entries.map (· i)) = table
  cases hcheck : s.registerCheck cfg image group_id table with
  | ok =>
    obtain ⟨hgroup, hroom⟩ := registerCheck_room hcheck
    obtain ⟨-, hgeneration⟩ := registerCheck_ok hcheck
    obtain ⟨first, htable⟩ := registerCheck_table hcheck
    obtain ⟨g, hfind⟩ := Option.ne_none_iff_exists'.mp hgroup
    have hlt : g < cfg.max_groups := by
      have := List.mem_of_find?_eq_some hfind
      rwa [List.mem_reverse, List.mem_range] at this
    have hfree : (s.groups g).handle.group_id = 0 := by simpa using List.find?_some hfind
    obtain ⟨s', handle, slots, order, hcommit, hregistered⟩ : ∃ s' handle slots order,
        s.registerCommit cfg image group_id table g = (s', handle) ∧
          Registered cfg image group_id table s s' handle g slots order :=
      registerCommit_spec hlt hfree hgeneration hroom
    rw [hfind]
    dsimp only
    exact Or.inr ⟨s', handle, g, slots, order, by rw [hcommit], hregistered,
      checkTasks_period htable⟩
  | _ =>
    refine Or.inl ⟨_, ?_, rfl⟩
    decide

/-- **Registration is all or nothing.** A call either is refused, with nothing written, or
it succeeds: every task of the table is copied once, into a slot of its own that was free,
the group links them by their periods, those of one period in the order of the table, and
the handle has the next generation, which no group of the tables has. -/
theorem group_register_all_or_nothing (cfg : Config) (port : Port) (s : State) (image : Image)
    (group_id : UInt32) (p_entries : Option (ℕ → RegSection)) (count : ℕ) (p_handle : Bool) :
    (∃ result, result ≠ .ok ∧
      s.sectionStlGroupRegister cfg port image group_id p_entries count p_handle =
        (s, result, none)) ∨
    ∃ s' handle g slots order,
      s.sectionStlGroupRegister cfg port image group_id p_entries count p_handle =
        (s', .ok, some handle) ∧
      s.Registered cfg image group_id ((List.range count).filterMap fun i => p_entries.map (· i)) s'
        handle g slots order ∧
      ((runs cfg).Reachable s → ∀ k ∈ s.group_list,
        (s.groups k).handle.generation < handle.generation) := by
  rcases register_cases cfg port s image group_id p_entries count p_handle with
    hrefused | ⟨s', handle, g, slots, order, hcommit, hregistered, -⟩
  · exact Or.inl hrefused
  · refine Or.inr ⟨s', handle, g, slots, order, hcommit, hregistered, fun h k hk => ?_⟩
    obtain ⟨xs, hjoint⟩ := joint_of_reachable h
    have hle := UInt32.le_iff_toNat_le.mp (hjoint.resident.listed k hk).2.2
    have hnext := hregistered.generation
    rw [UInt32.lt_iff_toNat_lt, hregistered.handle_eq]
    dsimp only
    omega

end State

/-- The state before the demonstration registers its group. -/
def readyState : State := (State.reset (fun _ => 0) (fun _ => 0)).exec demoConfig (.init .native 0)

theorem readyState_registered : ∃ s' handle g slots order,
    readyState.sectionStlGroupRegister demoConfig .native demoImage 7 (some demoTable) 1 true =
      (s', .ok, some handle) ∧
    State.Registered demoConfig demoImage 7 [demoTable 0] readyState s' handle g slots order ∧
    ∀ k ∈ readyState.group_list, (readyState.groups k).handle.generation < handle.generation := by
  have hreachable : (runs demoConfig).Reachable readyState :=
    reachable_foldl [.init .native 0] (fun _ => 0) (fun _ => 0)
  rcases State.group_register_all_or_nothing demoConfig .native readyState demoImage 7
    (some demoTable) 1 true with ⟨result, hne, hrefused⟩ | ⟨s', handle, g, slots,
      order, hok, hreg, hfresh⟩
  · have hstatus : (readyState.sectionStlGroupRegister demoConfig .native demoImage 7
        (some demoTable) 1 true).2.1 = .ok := by decide
    rw [hrefused] at hstatus
    exact absurd hstatus hne
  · exact ⟨s', handle, g, slots, order, hok, hreg, hfresh hreachable⟩

end Atoman.SectionStl
