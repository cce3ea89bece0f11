import Atoman.SectionStl.Preservation

/-!
# No task is lost

As long as no fault is latched, every resident task is in one place: asleep, in the queue
as a new activation, in the queue with its snapshot, or on the processor. A switch and a
completion leave each task of the queue in it or start it.
-/

namespace Atoman.SectionStl

/-- Where a resident task may be. -/
inductive Place
  | asleep | fresh | saved | running

namespace State
variable {cfg : Config} {s : State} {xs : List ℕ} {t : ℕ}

/-- The task is in the place. -/
def InPlace (cfg : Config) (s : State) (t : ℕ) : Place → Prop
  | .asleep => (s.tasks t).state = .sleeping ∧ s.ready.linked t = false
  | .fresh => (s.tasks t).state = .new ∧ s.ready.linked t = true ∧ (s.tasks t).record = none ∧
      ∀ r, s.Saved cfg r → (s.ring.records r).task_index ≠ t
  | .saved => (s.tasks t).state = .old ∧ s.ready.linked t = true ∧
      ∃ r, (s.tasks t).record = some r ∧ s.Saved cfg r ∧ (s.ring.records r).task_index = t ∧
        (s.ring.records r).owner = (s.tasks t).owner ∧
        ∀ r', s.Saved cfg r' → (s.ring.records r').task_index = t → r' = r
  | .running => (s.tasks t).state = .running ∧ s.ready.linked t = false ∧ s.current = some t

/-- The queue and the tasks are in order. -/
structure Conserved (cfg : Config) (s : State) : Prop where
  /-- the links lead from the first node to the last, once through every node with the flag -/
  queue : ∃ xs, s.ready.Holds xs ∧ s.ready_count = xs.length
  place : ∀ t, (s.tasks t).state ≠ .free → ∃! place, s.InPlace cfg t place
  admitted : ∀ t, s.ready.linked t = true → ∃ g, s.Owns g t ∧
    (s.tasks t).owner = (s.groups g).handle ∧
    ((s.tasks t).state = .new → (s.groups g).state = .enabled) ∧
    ((s.tasks t).state = .old → ¬ .paused ≤ (s.groups g).state)

/-- A place tells the state of the task. -/
theorem InPlace.state {place : Place} (h : s.InPlace cfg t place) : (s.tasks t).state =
    match place with
    | .asleep => .sleeping
    | .fresh => .new
    | .saved => .old
    | .running => .running := by
  cases place <;> exact h.1

theorem InPlace.unique {place place' : Place} (h : s.InPlace cfg t place)
    (h' : s.InPlace cfg t place') : place' = place := by
  have heq := h.state.symm.trans h'.state
  cases place <;> cases place' <;> first | rfl | exact nomatch heq

/-- Every resident task is in a place. -/
theorem Joint.exists_place (h : s.Joint cfg xs none) (hok : s.fault = .ok)
    (ht : (s.tasks t).state ≠ .free) : ∃ place, s.InPlace cfg t place := by
  obtain ⟨hready, hrunning⟩ := h.placed.settled hok t nofun
  have hlinked := h.queued.holds.linked t
  have hclear (hnot : ∀ hw : s.Waits cfg t, False) : s.ready.linked t = false := by
    rw [Bool.eq_false_iff, ne_eq, hlinked]
    exact fun hin => hnot (h.queued.waits t hin)
  cases hstate : (s.tasks t).state with
  | free => exact absurd hstate ht
  | sleeping =>
    refine ⟨.asleep, hstate, hclear fun hw => ?_⟩
    rcases hw.state with heq | heq <;> exact nomatch hstate.symm.trans heq
  | new =>
    have hrecord : (s.tasks t).record = none :=
      h.record_none (by rw [hstate]; exact nofun) (by rw [hstate]; exact nofun)
    refine ⟨.fresh, hstate, hlinked.mpr (hready (Or.inl hstate)), hrecord, ?_⟩
    rintro r hr rfl
    exact nomatch hrecord.symm.trans (h.queued.saved r hr).2
  | old =>
    have hin := hready (Or.inr hstate)
    rcases h.queued.waits t hin with ⟨hnew, -⟩ | ⟨-, -, r, hrecord, hsaved, hindex, howner⟩
    · exact nomatch hstate.symm.trans hnew
    · refine ⟨.saved, hstate, hlinked.mpr hin, r, hrecord, hsaved, hindex, howner, ?_⟩
      rintro r' hr' rfl
      exact Option.some.inj ((h.queued.saved r' hr').2.symm.trans hrecord)
  | running =>
    refine ⟨.running, hstate, hclear fun hw => ?_, hrunning hstate⟩
    rcases hw.state with heq | heq <;> exact nomatch hstate.symm.trans heq

theorem Joint.conserved (h : s.Joint cfg xs none) (hok : s.fault = .ok) : s.Conserved cfg := by
  refine ⟨⟨xs, h.queued.holds, h.queued.count⟩, fun t ht => ?_, fun t ht => ?_⟩
  · obtain ⟨place, hplace⟩ := h.exists_place hok ht
    exact ⟨place, hplace, fun place' hplace' => hplace.unique hplace'⟩
  · have hw := h.queued.waits t ((h.queued.holds.linked t).mp ht)
    obtain ⟨g, howns, hmay⟩ := hw.owned
    refine ⟨g, howns, (h.resident.owned g t howns).2.2, fun hnew => ?_, fun _ => hmay⟩
    rcases hw with ⟨-, k, hk, henabled⟩ | ⟨hold, -, -⟩
    · rw [h.resident.owns_unique howns hk]
      exact henabled
    · exact nomatch hnew.symm.trans hold

/-- A part that keeps the tasks of the queue keeps those with the flag. -/
theorem Turn.kept_linked {sound : Prop} {s' : State} {ys : List ℕ} (h : Turn cfg sound s s' xs ys)
    (hj : s.Joint cfg xs none) (hok : s'.fault = .ok) (ht : s.ready.linked t = true) :
    s'.ready.linked t = true ∨ s'.current = some t := by
  rcases h.kept hok t ((hj.queued.holds.linked t).mp ht) with hin | hcurrent
  · exact Or.inl ((h.joint.queued.holds.linked t).mpr hin)
  · exact Or.inr hcurrent

/-- **Conservation**: every resident task is in one place, and is not dropped. -/
theorem resident_tasks_conserved (h : (runs cfg).Reachable s) (hok : s.fault = .ok) :
    s.Conserved cfg ∧
      (∀ port p_saved_sp t, s.ready.linked t = true →
        (s.sectionStlSwitch cfg port p_saved_sp).1.fault = .ok →
        (s.sectionStlSwitch cfg port p_saved_sp).1.ready.linked t = true ∨
          (s.sectionStlSwitch cfg port p_saved_sp).1.current = some t) ∧
      ∀ port outcome_running t, s.ready.linked t = true →
        (s.entryComplete cfg port outcome_running).fault = .ok →
        (s.entryComplete cfg port outcome_running).ready.linked t = true ∨
          (s.entryComplete cfg port outcome_running).current = some t := by
  obtain ⟨xs, hjoint⟩ := joint_of_reachable h
  refine ⟨hjoint.conserved hok, fun port p_saved_sp t ht hok' => ?_,
    fun port outcome t ht hok' => ?_⟩
  · obtain ⟨ys, hturn⟩ := hjoint.switch port p_saved_sp
    exact hturn.kept_linked hjoint hok' ht
  · obtain ⟨ys, hturn⟩ := hjoint.complete port outcome
    exact hturn.kept_linked hjoint hok' ht

end State

/-- Any calls in any order are a run. -/
theorem reachable_foldl {cfg : Config} (actions : List Action) (pool stack : Lib.Memory UInt32) :
    (runs cfg).Reachable (actions.foldl (State.exec cfg) (.reset pool stack)) := by
  have hnext (s : State) (action : Action) : (runs cfg).next s (s.exec cfg action) := ⟨action, rfl⟩
  exact Lib.Transition.Reachable.foldl hnext actions (.start ⟨pool, stack, rfl⟩)

/-! ## A run

One group with one task: it is registered, initialized and enabled, its task is started
and preempted by a request for the native context.
-/

/-- A Cortex-M without a unit for floating point. -/
def demoBuild : CortexM.Build := ⟨0xFFFFFFFD, 0xFFFFFFED, false, 0x08000101⟩

def demoConfig : Config where
  max_groups := 2
  max_tasks := 2
  max_records := 2
  pool_words := 40
  stack_words := 32
  slice_ticks := 1
  max_registrations := 4
  max_groups_pos := by decide
  max_tasks_pos := by decide
  max_records_pos := by decide
  pool_words_pos := by decide
  stack_words_min := by decide
  stack_words_even := by decide
  slice_ticks_pos := by decide
  slice_ticks_lt := by decide
  frame_valid := CortexM.frameValid demoBuild
  initial_frame := CortexM.prepare demoBuild

/-- A call of the native context. -/
def Port.native : Port := ⟨true, false, false, false, true, fun _ => true⟩

/-- A call on the stack of the core. -/
def Port.resident : Port := { Port.native with active := true }

/-- One periodic task in the table of a group. -/
def demoImage : Image := ⟨fun _ => some ⟨1, some 0x08000201, none, 0⟩, fun _ => none⟩

def demoTable : ℕ → RegSection := fun _ => ⟨1, some 0x20000000⟩

def demoHandle : Handle := ⟨7, 1⟩

def demoActions : List Action :=
  [.init .native 0, .register .native demoImage 7 (some demoTable) 1 true,
    .initializeBegin .native demoImage demoHandle none 0, .initializeNext,
    .enable .native demoHandle, .tick .native 1, .switch .native none, .requestNative .resident,
    .switch .resident (some 15)]

/-- The task is preempted, and its snapshot waits. -/
def demoState : State :=
  demoActions.foldl (State.exec demoConfig) (State.reset (fun _ => 0) (fun _ => 0))

theorem demoState_reachable : (runs demoConfig).Reachable demoState :=
  reachable_foldl demoActions _ _

theorem demoState_conserved : demoState.Conserved demoConfig :=
  (State.resident_tasks_conserved demoState_reachable (by decide)).1

end Atoman.SectionStl

/-!
## No fault of the core's own

Where the port hands over frames that pass its own check, the guard words stay as they are
and the host commits every owner, no branch that latches a fault is taken.
-/

namespace Atoman.SectionStl
open Lib (Transition)

/-- The runs in which the environment keeps its part. -/
def soundRuns (cfg : Config) : Transition State where
  init := (runs cfg).init
  next := fun s s' => ∃ action : Action, action.Sound cfg s ∧ s' = s.exec cfg action

/-- The frame of a new task on Cortex-M is one that the switch accepts. -/
theorem CortexM.initialFrame {build : CortexM.Build} {cfg : Config}
    (hentry : build.entry &&& 1 ≠ 0 ∧ build.entry &&& 0xFFFFFFFE ≠ 0)
    (hvalid : cfg.frame_valid = CortexM.frameValid build)
    (hframe : cfg.initial_frame = CortexM.prepare build) : cfg.InitialFrame := by
  have hprepare : ∃ frame, CortexM.prepare build = some frame ∧ frame.length = basicWords := by
    unfold CortexM.prepare
    rw [if_neg (not_or.mpr hentry)]
    exact ⟨_, rfl, rfl⟩
  obtain ⟨frame, hprepare, hlength⟩ := hprepare
  refine ⟨frame, hframe.trans hprepare, ?_, ?_, ?_⟩
  · rw [hlength]
    decide
  · rw [hlength]
    exact Nat.le_trans (by decide) cfg.stack_words_min
  · rw [hvalid]
    exact frameValid_prepare hprepare

namespace State
variable {cfg : Config} {s : State}

/-- Before the first call there are no guard words to keep. -/
theorem armed_reset (pool stack : Lib.Memory UInt32) : (reset pool stack).Armed :=
  ⟨nofun, nofun⟩

/-- **No spurious fault**: a fault has a cause outside the core. -/
theorem no_spurious_fault (hframe : cfg.InitialFrame) (h : (soundRuns cfg).Reachable s) :
    s.fault = .ok := by
  have hinv : (∃ xs, s.Joint cfg xs none) ∧ s.Armed ∧ s.fault = .ok := by
    refine h.invariant (P := fun s => (∃ xs, s.Joint cfg xs none) ∧ s.Armed ∧ s.fault = .ok)
      (fun s hinit => ?_) fun s s' hs hstep => ?_
    · obtain ⟨pool, stack, rfl⟩ := hinit
      exact ⟨⟨_, joint_reset pool stack⟩, armed_reset pool stack, rfl⟩
    · obtain ⟨⟨xs, hjoint⟩, harmed, hok⟩ := hs
      obtain ⟨action, hsound, rfl⟩ := hstep
      have hexec := hjoint.exec action
      obtain ⟨hok', harmed'⟩ := hexec.sound ⟨hframe, hsound⟩ harmed hok
      exact ⟨hexec.joint, harmed', hok'⟩
  exact hinv.2.2

end State

/-! ## A run -/

/-- Every action keeps the part of the environment in the state it starts from. -/
def AllSound (cfg : Config) : State → List Action → Prop
  | _, [] => True
  | s, action :: actions => action.Sound cfg s ∧ AllSound cfg (s.exec cfg action) actions

theorem soundRuns_foldl {cfg : Config} {s : State} {actions : List Action}
    (h : (soundRuns cfg).Reachable s) (hsound : AllSound cfg s actions) :
    (soundRuns cfg).Reachable (actions.foldl (State.exec cfg) s) := by
  induction actions generalizing s with
  | nil => exact h
  | cons action actions ih => exact ih (.step h ⟨action, hsound.1, rfl⟩) hsound.2

theorem demoActions_sound : AllSound demoConfig (.reset (fun _ => 0) (fun _ => 0)) demoActions := by
  refine ⟨trivial, trivial, trivial, trivial, trivial, trivial, ⟨fun _ => rfl, ?_⟩, trivial,
    ⟨fun _ => rfl, ?_⟩, trivial⟩
  · intro t ht _
    exact absurd ht (by decide +revert)
  · intro t _ _
    exact ⟨15, rfl, by decide, by decide, by decide⟩

theorem demoState_sound : demoState.fault = .ok := by
  have hreachable : (soundRuns demoConfig).Reachable demoState :=
    soundRuns_foldl (.start ⟨_, _, rfl⟩) demoActions_sound
  have hframe : demoConfig.InitialFrame := CortexM.initialFrame (by decide) rfl rfl
  exact State.no_spurious_fault hframe hreachable

end Atoman.SectionStl

/-!
## The pool keeps its snapshots

In every reachable state the spans are apart and accounted for, the words of a snapshot
are those its save took, and every restore so far wrote back what its save took, where the
save took it from.
-/

namespace Atoman.SectionStl
namespace State
variable {cfg : Config} {s s' : State} {xs : List ℕ}

/-- The accounts of the pool, and the words of the snapshots. -/
structure Accounted (cfg : Config) (s : State) : Prop where
  apart : ∀ r ∈ s.ring.live cfg, ∀ r' ∈ s.ring.live cfg, r ≠ r' →
    (s.ring.records r).span.Apart (s.ring.records r').span
  inside : ∀ r ∈ s.ring.live cfg,
    (s.ring.records r).offset + (s.ring.records r).words ≤ cfg.pool_words
  pool_used : s.ring.pool_used = ((s.ring.live cfg).map fun r => (s.ring.records r).charge).sum
  /-- the charge is the tail minus the head -/
  position : s.ring.pool_tail = (s.ring.pool_head + s.ring.pool_used) % cfg.pool_words
  intact : ∀ r, s.Saved cfg r →
    s.ring.pool.slice (s.ring.records r).offset (s.ring.records r).words = (s.ring.captured r).2

theorem Joint.accounted (h : s.Joint cfg xs none) : s.Accounted cfg := by
  have hsum : Lib.totalCharge ((s.ring.live cfg).map fun r => (s.ring.records r).span) =
      ((s.ring.live cfg).map fun r => (s.ring.records r).charge).sum := by
    rw [Lib.totalCharge, List.map_map]
    rfl
  refine ⟨fun r hr r' hr' hne => ?_, fun r hr => (h.ring.range hr).2, ?_, ?_, fun r hr => ?_⟩
  · have hsymm : Std.Symm fun r r' => (s.ring.records r).span.Apart (s.ring.records r').span :=
      ⟨fun _ _ hab => Or.symm hab⟩
    exact h.ring.apart.forall hr hr' hne
  · rw [h.ring.pool_used_eq, hsum]
  · rw [h.ring.laid.end_eq h.ring.pool_head_lt, h.ring.pool_used_eq]
  · exact (h.ring.intact r hr.1 hr.2).words

/-- A save that is refused reclaims and counts. -/
theorem refused_save (h : s.ring.Valid cfg) {t sp words : ℕ}
    (hsave : s.snapshotSave cfg t sp words = (s', false)) : s' = { s with ring := s'.ring } ∧
      Ring.Reaped cfg s.ring { s'.ring with pool_full := s.ring.pool_full } := by
  have hreaped := h.reap.2
  by_cases hok : s.fault = .ok
  · rcases snapshotSave_cases h hok t sp words with ⟨-, heq⟩ | ⟨offset, gap, -, heq⟩
    · obtain ⟨rfl, -⟩ := Prod.mk.inj (heq.symm.trans hsave)
      refine ⟨rfl, ?_⟩
      dsimp only
      rw [← hreaped.pool_full]
      exact hreaped
    · exact nomatch (Prod.mk.inj (heq.symm.trans hsave)).2
  · have heq : s.snapshotSave cfg t sp words = (s.recordsReap cfg, false) := by
      unfold snapshotSave
      rw [recordsReap_eq h]
      exact if_pos hok
    rw [recordsReap_eq h] at heq
    obtain ⟨rfl, -⟩ := Prod.mk.inj (heq.symm.trans hsave)
    refine ⟨rfl, ?_⟩
    dsimp only
    rw [← hreaped.pool_full]
    exact hreaped

/-- A save takes the words from the stack pointer on, and leaves the snapshots that are
still to be restored as they are. -/
theorem accepted_save (h : s.ring.Valid cfg) {t sp words : ℕ} (hwords : 0 < words)
    (hsave : s.snapshotSave cfg t sp words = (s', true)) : ∃ r,
      (s'.tasks t).record = some r ∧ s'.Saved cfg r ∧
      s'.ring.captured r = (sp, s.stack.slice sp words) ∧
      ∀ r', s.Saved cfg r' → r' ≠ r ∧ s'.Saved cfg r' ∧
        s'.ring.records r' = s.ring.records r' ∧ s'.ring.captured r' = s.ring.captured r' := by
  have hreaped := h.reap.2
  by_cases hok : s.fault = .ok
  · rcases snapshotSave_cases h hok t sp words with ⟨-, heq⟩ | ⟨offset, gap, hplace, heq⟩
    · exact nomatch (Prod.mk.inj (heq.symm.trans hsave)).2
    · obtain ⟨rfl, -⟩ := Prod.mk.inj (heq.symm.trans hsave)
      obtain ⟨hcount, -, -⟩ := hreaped.valid.place hwords hplace
      have htail := hreaped.valid.record_tail_notMem hcount
      have hlive : ((s.ring.reap cfg).1.append cfg (s.tasks t).owner t offset gap sp
          (s.stack.slice sp words)).live cfg = (s.ring.reap cfg).1.live cfg ++
            [(s.ring.reap cfg).1.record_tail] := hreaped.valid.live_append
      refine ⟨(s.ring.reap cfg).1.record_tail, congrArg Task.record (modify_tasks_self _ t _),
        ⟨?_, ?_⟩, Function.update_self _ _ _, fun r' hr' => ?_⟩
      · exact hlive ▸ List.mem_append_right _ (List.mem_singleton_self _)
      · have hself : ((s.ring.reap cfg).1.append cfg (s.tasks t).owner t offset gap sp
            (s.stack.slice sp words)).records (s.ring.reap cfg).1.record_tail = _ :=
          Function.update_self _ _ _
        exact congrArg Record.consumed hself
      · have hstays := hreaped.keeps.saved r' hr'.1 hr'.2
        have hne : r' ≠ (s.ring.reap cfg).1.record_tail := fun heq => htail (heq ▸ hstays)
        have hrecord : (modify { s with
            ring := (s.ring.reap cfg).1.append cfg (s.tasks t).owner t offset gap sp
              (s.stack.slice sp words) } t fun task =>
                { task with record := some (s.ring.reap cfg).1.record_tail }).ring.records r' =
            s.ring.records r' :=
          (Function.update_of_ne hne _ _).trans (hreaped.records r' hstays)
        refine ⟨hne, ⟨hlive ▸ List.mem_append_left _ hstays, ?_⟩, hrecord, ?_⟩
        · rw [hrecord]
          exact hr'.2
        · exact (Function.update_of_ne hne _ _).trans (congrFun hreaped.captured r')
  · have heq : s.snapshotSave cfg t sp words = (s.recordsReap cfg, false) := by
      unfold snapshotSave
      rw [recordsReap_eq h]
      exact if_pos hok
    exact nomatch (Prod.mk.inj (heq.symm.trans hsave)).2

/-- Every restore so far wrote back what its save took. -/
theorem restored_exactly (h : (runs cfg).Reachable s) :
    ∀ restoration ∈ s.history.restored, restoration.written = restoration.captured := by
  have hinv := h.invariant (P := fun s => (∃ xs, s.Joint cfg xs none) ∧
    ∀ restoration ∈ s.history.restored, restoration.written = restoration.captured) ?_ ?_
  · exact hinv.2
  · rintro s ⟨pool, stack, rfl⟩
    exact ⟨⟨[], joint_reset pool stack⟩, fun _ hin => absurd hin List.not_mem_nil⟩
  · rintro s s' ⟨⟨xs, hjoint⟩, hexact⟩ ⟨action, rfl⟩
    have hstep := hjoint.exec action
    refine ⟨hstep.joint, fun restoration hin => ?_⟩
    rcases hstep.restored with hsame | ⟨g, -, -, captured, hnew⟩
    · exact hexact restoration (hsame ▸ hin)
    · rw [hnew] at hin
      rcases List.mem_append.mp hin with hin | hin
      · exact hexact restoration hin
      · rw [List.mem_singleton.mp hin]

/-- **Snapshot integrity.** -/
theorem snapshots_keep_their_words (h : (runs cfg).Reachable s) : s.Accounted cfg ∧
    (∀ restoration ∈ s.history.restored, restoration.written = restoration.captured) ∧
    (∀ t sp words s', 0 < words → s.snapshotSave cfg t sp words = (s', true) → ∃ r,
      (s'.tasks t).record = some r ∧ s'.Saved cfg r ∧
      s'.ring.captured r = (sp, s.stack.slice sp words) ∧
      ∀ r', s.Saved cfg r' → r' ≠ r ∧ s'.Saved cfg r' ∧
        s'.ring.records r' = s.ring.records r' ∧ s'.ring.captured r' = s.ring.captured r') ∧
    ∀ t sp words s', s.snapshotSave cfg t sp words = (s', false) → s' = { s with ring := s'.ring } ∧
      Ring.Reaped cfg s.ring { s'.ring with pool_full := s.ring.pool_full } := by
  obtain ⟨xs, hjoint⟩ := joint_of_reachable h
  exact ⟨hjoint.accounted, restored_exactly h,
    fun t sp words s' hwords hsave => accepted_save hjoint.ring hwords hsave,
    fun t sp words s' hsave => refused_save hjoint.ring hsave⟩

end State

theorem demoState_integrity : demoState.Accounted demoConfig :=
  (State.snapshots_keep_their_words demoState_reachable).1

/-- The saved words lie from the head up to the tail; the head minus the tail is something
else. -/
theorem demoState_head_minus_tail : (runs demoConfig).Reachable demoState ∧
    (demoState.ring.pool_used : ℤ) % demoConfig.pool_words ≠
      ((demoState.ring.pool_head : ℤ) - demoState.ring.pool_tail) % demoConfig.pool_words :=
  ⟨demoState_reachable, by decide⟩

end Atoman.SectionStl
