import Atoman.SectionStl.Order
import Atoman.SectionStl.Phase

/-!
# Bounded bypass

A task that waits is overtaken only by a continuation that gave way to native work, and such
a continuation has fewer turns at the front than its slice has ticks. So the dispatches before
that of a task are bounded by its place in the queue, in every run that does not withdraw its
group.
-/

namespace Atoman.SectionStl
open Lib (BudgetQueue Transition)
open Lib.BudgetQueue (Event Move Shift)

namespace State
variable {cfg : Config} {s s' u : State} {action : Action} {actions : List Action}
  {xs ys ahead behind : List ℕ} {t i : ℕ}

/-- The tasks that a run dispatches. -/
def dispatches (cfg : Config) : State → List Action → List ℕ
  | _, [] => []
  | s, action :: actions =>
    (s.dispatched cfg action).toList ++ dispatches cfg (s.exec cfg action) actions

/-- The continuations that a run puts at the front. -/
def fronts (cfg : Config) : State → List Action → List ℕ
  | _, [] => []
  | s, action :: actions => (s.fronted cfg action).toList ++ fronts cfg (s.exec cfg action) actions

/-- The group of the task is not disabled, paused or revoked. -/
def Spared (cfg : Config) (t : ℕ) : State → List Action → Prop :=
  Transition.Admits (exec cfg) fun s action => ¬ action.Withdraws cfg s (s.tasks t).owner

/-- The continuation of the task goes on: it runs or is suspended, and is not over. -/
def Continues (cfg : Config) (t : ℕ) : State → List Action → Prop :=
  Transition.Admits (exec cfg) fun s action =>
    s.ended cfg action ≠ some t ∧ (s.exec cfg action).Held t

instance (s : State) (t : ℕ) : Decidable (s.Held t) := inferInstanceAs (Decidable (_ ∨ _))

instance (cfg : Config) (t : ℕ) (s : State) (actions : List Action) :
    Decidable (Spared cfg t s actions) :=
  inferInstanceAs (Decidable (Transition.Admits _ _ s actions))

instance (cfg : Config) (t : ℕ) (s : State) (actions : List Action) :
    Decidable (Continues cfg t s actions) :=
  inferInstanceAs (Decidable (Transition.Admits _ _ s actions))

/-! ## Slices -/

/-- Every continuation has a part of a slice left. -/
def Funded (cfg : Config) (s : State) : Prop :=
  s.fault = .ok → ∀ t, s.Held t →
    0 < (s.tasks t).quantum_left.toNat ∧ (s.tasks t).quantum_left.toNat ≤ cfg.slice_ticks.toNat

theorem slice_pos (cfg : Config) : 0 < cfg.slice_ticks.toNat :=
  UInt32.lt_iff_toNat_lt.mp cfg.slice_ticks_pos

theorem Funded.exec (hf : Funded cfg s) (h : s.Joint cfg xs none) (action : Action) :
    Funded cfg (s.exec cfg action) := by
  intro hok t ht
  obtain ⟨ys, hmoves⟩ := h.moves action hok
  rcases hmoves.charged t ht with ⟨hheld, hle, hpos, -⟩ | ⟨hslice, -⟩
  · obtain ⟨hpos', hle'⟩ := hf hmoves.before t hheld
    exact ⟨hpos hpos', Nat.le_trans hle hle'⟩
  · rw [hslice]
    exact ⟨slice_pos cfg, Nat.le_refl _⟩

theorem funded_of_reachable (h : (runs cfg).Reachable s) :
    (∃ xs, s.Joint cfg xs none) ∧ Funded cfg s := by
  refine h.invariant (P := fun s => (∃ xs, s.Joint cfg xs none) ∧ Funded cfg s) ?_ ?_
  · rintro s ⟨pool, stack, rfl⟩
    refine ⟨⟨[], joint_reset pool stack⟩, fun _ t ht => ?_⟩
    rcases ht with ht | ht <;> exact nomatch ht
  · rintro s s' ⟨⟨xs, hjoint⟩, hfunded⟩ ⟨action, rfl⟩
    exact ⟨(hjoint.exec action).joint, hfunded.exec hjoint action⟩

/-- The budgets of the queue are parts of slices. -/
theorem Funded.allowance (hf : Funded cfg s) (h : s.Joint cfg xs none) (hok : s.fault = .ok)
    (ht : t ∈ xs ∨ s.Held t) :
    0 < s.allowance cfg t ∧ s.allowance cfg t ≤ cfg.slice_ticks.toNat := by
  have hheld (ht : s.Held t) :
      0 < s.allowance cfg t ∧ s.allowance cfg t ≤ cfg.slice_ticks.toNat := by
    rw [ht.allowance]
    exact hf hok t ht
  rcases ht with ht | ht
  · rcases (h.queued.waits t ht).state with hnew | hold
    · unfold State.allowance
      rw [if_pos hnew]
      exact ⟨slice_pos cfg, Nat.le_refl _⟩
    · exact hheld (Or.inl hold)
  · exact hheld ht

/-! ## Faults -/

/-- The task that is dispatched runs. -/
theorem runningTask_of_dispatched (h : s.dispatched cfg action = some t) :
    (s.exec cfg action).runningTask = some t := by
  cases action with
  | switch port p_saved_sp =>
    obtain ⟨u, hu, hrunning⟩ := Option.bind_eq_some_iff.mp h
    unfold between at hu
    split at hu
    · next hboth =>
      have hexec : s.exec cfg (.switch port p_saved_sp) =
          (s.sectionStlSwitch cfg port p_saved_sp).1 := rfl
      unfold sectionStlSwitch at hexec
      rw [if_neg (not_not_intro hboth.1), if_neg (by rw [hboth.2]; decide)] at hexec
      cases hresult : s.switchOut cfg port p_saved_sp with
      | error result =>
        rw [hresult] at hu
        exact nomatch hu
      | ok u' =>
        rw [hresult] at hu hexec
        obtain rfl := Option.some.inj hu
        rw [hexec]
        exact hrunning
    · exact nomatch hu
  | complete port outcome_running => exact h
  | _ => exact nomatch h

/-- Nothing is dispatched into a fault. -/
theorem Joint.dispatched_none (h : s.Joint cfg xs none) (hfault : (s.exec cfg action).fault ≠ .ok) :
    s.dispatched cfg action = none := by
  refine Option.eq_none_iff_forall_ne_some.mpr fun t ht => hfault ?_
  obtain ⟨ys, hjoint⟩ := (h.exec action).joint
  obtain ⟨hcurrent, hrunning⟩ := runningTask_eq_some.mp (runningTask_of_dispatched ht)
  exact hjoint.placed.running t hcurrent hrunning

theorem fronted_none (hfault : s.fault ≠ .ok) : s.fronted cfg action = none := by
  have hpreempted : s.preempted cfg action = none := by
    cases action with
    | switch port p_saved_sp =>
      show (s.between cfg port p_saved_sp).bind _ = none
      unfold between
      rw [if_neg fun hboth => hfault hboth.1]
      rfl
    | _ => rfl
  unfold fronted
  rw [hpreempted]
  rfl

/-- A fault stays, and ends the dispatches. -/
theorem Joint.faulted (h : s.Joint cfg xs none) (hfault : s.fault ≠ .ok) (actions : List Action) :
    dispatches cfg s actions = [] ∧ fronts cfg s actions = [] ∧
      (actions.foldl (State.exec cfg) s).fault ≠ .ok := by
  induction actions generalizing s xs with
  | nil => exact ⟨rfl, rfl, hfault⟩
  | cons action actions ih =>
    obtain ⟨ys, hjoint⟩ := (h.exec action).joint
    have hfault' : (s.exec cfg action).fault ≠ .ok := fun hok => by
      obtain ⟨zs, hmoves⟩ := h.moves action hok
      exact hfault hmoves.before
    obtain ⟨hdispatches, hfronts, hend⟩ := ih hjoint hfault'
    refine ⟨?_, ?_, hend⟩
    · unfold dispatches
      rw [h.dispatched_none hfault', hdispatches]
      rfl
    · unfold fronts
      rw [fronted_none hfault, hfronts]
      rfl

/-! ## The runs -/

theorem event_served (s : State) (action : Action) :
    (s.event cfg action).served = s.dispatched cfg action := by
  unfold event
  cases s.dispatched cfg action with
  | some t => rfl
  | none => cases s.fronted cfg action <;> rfl

/-- **Only a continuation overtakes.** -/
theorem Moves.overtaken (h : Moves cfg s action (ahead ++ t :: behind) ys)
    (hj : s.Joint cfg (ahead ++ t :: behind) none) (hdispatched : s.dispatched cfg action ≠ some t)
    (hspared : ¬ action.Withdraws cfg s (s.tasks t).owner) : ∃ ahead' behind',
      ys = ahead' ++ t :: behind' ∧ (ahead'.Sublist ahead ∨
        ∃ i, s.event cfg action = .front i ∧ ahead' = i :: ahead) := by
  have hin : t ∈ ahead ++ t :: behind := List.mem_append_right _ List.mem_cons_self
  have hnot : t ∉ ahead := fun hahead =>
    List.disjoint_of_nodup_append hj.queued.holds.nodup hahead List.mem_cons_self
  have hin' : t ∈ ys := by
    rcases h.stays t hin with hin' | hserved | hwithdrawn
    · exact hin'
    · exact absurd hserved hdispatched
    · exact absurd hwithdrawn hspared
  have hahead : (s.view cfg (ahead ++ t :: behind)).ahead t = ahead := BudgetQueue.ahead_eq rfl hnot
  have hshift := h.move.shift hin hin' (by rwa [event_served])
  obtain ⟨behind', hsplit, -⟩ :=
    BudgetQueue.exists_split (q := (s.exec cfg action).view cfg ys) hin'
  refine ⟨_, behind', hsplit, ?_⟩
  generalize s.event cfg action = event at hshift
  cases hshift with
  | drop keep heq =>
    rw [heq, hahead]
    exact Or.inl List.filter_sublist
  | push i heq =>
    rw [heq, hahead]
    exact Or.inr ⟨i, rfl, rfl⟩
  | pop i heq =>
    rw [hahead] at heq
    refine Or.inl ?_
    rw [heq]
    exact List.sublist_cons_self _ _

/-- **A queue position bounds the dispatches** before that of the task. -/
theorem Joint.dispatches_bounded (h : s.Joint cfg xs none) (hf : Funded cfg s) (ht : t ∈ xs)
    (hspared : Spared cfg t s actions) :
    t ∈ (dispatches cfg s actions).take ((s.view cfg xs).rank t + 1) ∨
      (dispatches cfg s actions).length ≤ (s.view cfg xs).rank t ∧
        ((actions.foldl (State.exec cfg) s).ready.linked t = true ∨
          (actions.foldl (State.exec cfg) s).fault ≠ .ok) := by
  induction actions generalizing s xs with
  | nil => exact Or.inr ⟨Nat.zero_le _, Or.inl ((h.queued.holds.linked t).mpr ht)⟩
  | cons action actions ih =>
    obtain ⟨hkept, hrest⟩ := hspared
    obtain ⟨ys, hjoint⟩ := (h.exec action).joint
    by_cases hok : (s.exec cfg action).fault = .ok
    swap
    · obtain ⟨hdispatches, -, hend⟩ := hjoint.faulted hok actions
      refine Or.inr ⟨?_, Or.inr hend⟩
      unfold dispatches
      rw [h.dispatched_none hok, hdispatches]
      exact Nat.zero_le _
    obtain ⟨zs, hmoves⟩ := h.moves action hok
    obtain rfl := hjoint.queued.holds.unique hmoves.holds
    by_cases hdispatched : s.dispatched cfg action = some t
    · refine Or.inl ?_
      unfold dispatches
      rw [hdispatched]
      exact List.mem_cons_self
    have hin : t ∈ ys := by
      rcases hmoves.stays t ht with hin | hserved | hwithdrawn
      · exact hin
      · exact absurd hserved hdispatched
      · exact absurd hwithdrawn hkept
    have hrank := hmoves.move.rank ht hin (by rwa [event_served])
      fun j hj => (hf.allowance h hmoves.before (Or.inl hj)).1
    rw [event_served] at hrank
    rcases ih hjoint (hf.exec h action) hin hrest with htake | ⟨hlength, hend⟩
    · refine Or.inl ?_
      unfold dispatches
      cases hserved : s.dispatched cfg action with
      | none =>
        rw [hserved] at hrank
        exact (List.take_prefix_take_left (Nat.succ_le_succ hrank)).subset htake
      | some i =>
        rw [hserved] at hrank
        refine List.mem_cons_of_mem i ((List.take_prefix_take_left ?_).subset htake)
        exact hrank
    · refine Or.inr ⟨?_, hend⟩
      unfold dispatches
      rw [List.length_append]
      omega

/-- **A continuation** is put at the front fewer times than its slice has ticks. -/
theorem Joint.fronts_bounded (h : s.Joint cfg xs none) (hf : Funded cfg s) (hok : s.fault = .ok)
    (ht : s.Held t) (hcontinues : Continues cfg t s actions) :
    (fronts cfg s actions).count t < (s.tasks t).quantum_left.toNat := by
  induction actions generalizing s xs with
  | nil => exact (hf hok t ht).1
  | cons action actions ih =>
    obtain ⟨⟨hended, hheld⟩, hrest⟩ := hcontinues
    obtain ⟨ys, hjoint⟩ := (h.exec action).joint
    unfold fronts
    rw [List.count_append]
    by_cases hok' : (s.exec cfg action).fault = .ok
    · have hlt := ih hjoint (hf.exec h action) hok' hheld hrest
      obtain ⟨zs, hmoves⟩ := h.moves action hok'
      rcases hmoves.charged t hheld with ⟨-, hle, -, hless⟩ | ⟨-, hover⟩
      · cases hfronted : s.fronted cfg action with
        | none =>
          simp only [Option.toList_none, List.count_nil]
          omega
        | some i =>
          have hcount : ([i] : List ℕ).count t ≤ 1 := List.count_le_length
          simp only [Option.toList_some]
          by_cases hit : i = t
          · have := hless (hit ▸ hfronted)
            omega
          · rw [List.count_singleton, if_neg (by simpa using hit)]
            omega
      · exact absurd (hover ht) hended
    · obtain ⟨-, hfronts, -⟩ := hjoint.faulted hok' actions
      have hpos := (hf hok t ht).1
      rw [hfronts, List.count_nil]
      cases hfronted : s.fronted cfg action with
      | none => exact hpos
      | some i =>
        simp only [Option.toList_some]
        by_cases hit : i = t
        · obtain ⟨-, hkeeps⟩ := fronted_some.mp (hit ▸ hfronted)
          obtain ⟨charged, -, hleft, hless⟩ := hkeeps.quantum
          have hcount : ([i] : List ℕ).count t ≤ 1 := List.count_le_length
          omega
        · rw [List.count_singleton, if_neg (by simpa using hit)]
          exact hpos

theorem fronted_of_event (h : s.event cfg action = .front i) : s.fronted cfg action = some i := by
  unfold event at h
  cases hdispatched : s.dispatched cfg action with
  | some t =>
    rw [hdispatched] at h
    exact nomatch h
  | none =>
    cases hfronted : s.fronted cfg action with
    | none =>
      rw [hdispatched, hfronted] at h
      exact nomatch h
    | some t =>
      rw [hdispatched, hfronted] at h
      rw [Event.front.inj h]

/-- A task that is put at the front ran, and native work was requested. -/
theorem native_of_fronted (h : s.fronted cfg action = some i) :
    s.runningTask = some i ∧ s.native_pending = true := by
  obtain ⟨hpreempted, hkeeps⟩ := fronted_some.mp h
  refine ⟨?_, hkeeps.1⟩
  cases action with
  | switch port p_saved_sp =>
    obtain ⟨u, -, hfilter⟩ := Option.bind_eq_some_iff.mp hpreempted
    exact (Option.filter_eq_some_iff.mp hfilter).1
  | _ => exact nomatch hpreempted

/-- **Bounded bypass.** In every reachable state, an action that neither dispatches a waiting
task nor withdraws its group leaves nothing in front of it that was not there, except a
continuation that ran, gave way to native work and is put at the front; as long as one
continuation of a task goes on, it is put at the front fewer times than a slice has ticks; and
in every run that spares the group, a task with `k` tasks in front of it is among the first
`(k + 1) * SLICE_TICKS` dispatches, or there are not as many yet and it still waits, unless a
fault is latched. -/
theorem bounded_bypass (h : (runs cfg).Reachable s) :
    (∀ ahead t behind action, s.ready.Holds (ahead ++ t :: behind) →
      (s.exec cfg action).fault = .ok → s.dispatched cfg action ≠ some t →
      ¬ action.Withdraws cfg s (s.tasks t).owner → ∃ ahead' behind',
        (s.exec cfg action).ready.Holds (ahead' ++ t :: behind') ∧ (ahead'.Sublist ahead ∨
          ∃ i, s.fronted cfg action = some i ∧ s.runningTask = some i ∧ s.native_pending = true ∧
            ahead' = i :: ahead)) ∧
    (∀ t actions, s.Held t → Continues cfg t s actions →
      (fronts cfg s actions).count t < cfg.slice_ticks.toNat) ∧
    ∀ (ahead : List ℕ) t behind actions, s.ready.Holds (ahead ++ t :: behind) →
      Spared cfg t s actions →
      t ∈ (dispatches cfg s actions).take ((ahead.length + 1) * cfg.slice_ticks.toNat) ∨
      (dispatches cfg s actions).length < (ahead.length + 1) * cfg.slice_ticks.toNat ∧
        ((actions.foldl (exec cfg) s).ready.linked t = true ∨
          (actions.foldl (exec cfg) s).fault ≠ .ok) := by
  obtain ⟨⟨xs, hjoint⟩, hfunded⟩ := funded_of_reachable h
  refine ⟨fun ahead t behind action hholds hok hdispatched hspared => ?_,
    fun t actions ht hcontinues => ?_, fun ahead t behind actions hholds hspared => ?_⟩
  · obtain rfl := hjoint.queued.holds.unique hholds
    obtain ⟨ys, hmoves⟩ := hjoint.moves action hok
    obtain ⟨ahead', behind', rfl, hahead⟩ := hmoves.overtaken hjoint hdispatched hspared
    refine ⟨ahead', behind', hmoves.holds, hahead.imp_right ?_⟩
    rintro ⟨i, hevent, heq⟩
    have hfronted := fronted_of_event hevent
    obtain ⟨hrunning, hnative⟩ := native_of_fronted hfronted
    exact ⟨i, hfronted, hrunning, hnative, heq⟩
  · by_cases hok : s.fault = .ok
    · exact Nat.lt_of_lt_of_le (hjoint.fronts_bounded hfunded hok ht hcontinues)
        (hfunded hok t ht).2
    · rw [(hjoint.faulted hok actions).2.1, List.count_nil]
      exact slice_pos cfg
  · obtain rfl := hjoint.queued.holds.unique hholds
    by_cases hok : s.fault = .ok
    swap
    · obtain ⟨hdispatches, -, hend⟩ := hjoint.faulted hok actions
      rw [hdispatches]
      exact Or.inr ⟨Nat.mul_pos (Nat.succ_pos _) (slice_pos cfg), Or.inr hend⟩
    have hnot : t ∉ ahead := fun hahead =>
      List.disjoint_of_nodup_append hholds.nodup hahead List.mem_cons_self
    have hahead : (s.view cfg (ahead ++ t :: behind)).ahead t = ahead :=
      BudgetQueue.ahead_eq rfl hnot
    have hrank : (s.view cfg (ahead ++ t :: behind)).rank t <
        (ahead.length + 1) * cfg.slice_ticks.toNat := by
      have hlt := BudgetQueue.rank_lt (q := s.view cfg (ahead ++ t :: behind))
        (i := t) (slice_pos cfg)
        (fun j hj => (hfunded.allowance hjoint hok (Or.inl hj)).2)
        fun j hj => (hfunded.allowance hjoint hok (Or.inr (held_of_runningTask hj))).2
      rwa [hahead] at hlt
    rcases hjoint.dispatches_bounded hfunded (List.mem_append_right _ List.mem_cons_self)
      hspared with
      htake | ⟨hlength, hend⟩
    · exact Or.inl ((List.take_prefix_take_left hrank).subset htake)
    · exact Or.inr ⟨Nat.lt_of_le_of_lt hlength hrank, hend⟩

end State

/-! ## Two tasks and a native request -/

/-- A slice has three ticks. -/
def bypassConfig : Config :=
  { demoConfig with slice_ticks := 3, slice_ticks_pos := by decide, slice_ticks_lt := by decide }

/-- Both tasks are due, and the first one runs. -/
def bypassState : State :=
  [.init .native 0, .register .native phaseImage 7 (some phaseTable) 2 true,
    .initializeBegin .native phaseImage demoHandle none 0, .initializeNext,
    .enable .native demoHandle, .tick .native 10, .switch .native none].foldl
    (State.exec bypassConfig) (State.reset (fun _ => 0) (fun _ => 0))

/-- The task gives way to native work three times. -/
def bypassActions : List Action :=
  [.requestNative .resident, .switch .resident (some 15), .switch .native none,
    .requestNative .resident, .switch .resident (some 15), .switch .native none,
    .requestNative .resident, .switch .resident (some 15), .switch .native none]

theorem bypassState_reachable : (runs bypassConfig).Reachable bypassState := reachable_foldl _ _ _

theorem bypassState_holds : bypassState.ready.Holds [1] := by
  obtain ⟨xs, hjoint⟩ := State.joint_of_reachable bypassState_reachable
  have hfirst : some 1 = xs.head? :=
    (by decide +kernel : bypassState.ready.first = some 1).symm.trans hjoint.queued.holds.first
  have hcount : 1 = xs.length :=
    (by decide +kernel : bypassState.ready_count = 1).symm.trans hjoint.queued.count
  obtain ⟨x, rfl⟩ := List.length_eq_one_iff.mp hcount.symm
  obtain rfl := Option.some.inj hfirst
  exact hjoint.queued.holds

/-- The second task is the third to be dispatched, when the first one has been at the front
twice. -/
theorem bypassState_served :
    (State.fronts bypassConfig bypassState (bypassActions.take 6)).count 0 < 3 ∧
      1 ∈ (State.dispatches bypassConfig bypassState bypassActions).take 3 ∧
      State.dispatches bypassConfig bypassState bypassActions = [0, 0, 1] := by
  obtain ⟨-, hfronts, hserved⟩ := State.bounded_bypass bypassState_reachable
  refine ⟨hfronts 0 _ (by decide +kernel) (by decide +kernel), ?_, by decide +kernel⟩
  rcases hserved [] 1 [] bypassActions bypassState_holds (by decide +kernel)
    with hserved | ⟨hshort, -⟩
  · exact hserved
  · exact absurd hshort (by decide +kernel)

end Atoman.SectionStl
