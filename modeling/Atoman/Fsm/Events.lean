import Atoman.Lib.Transition
import Mathlib.Data.List.Basic

/-!
# The event word of a state machine

`section_fsm_func` is taken apart at the places at which the event word can be written, by a
callback or by an interrupt. The word is read once for the test and once more for the check, and
it is cleared at the end.
-/

namespace Atoman.Fsm
open Lib (Transition)

/-- `reg_fsm_func_t`; of a callback it matters whether it is set. -/
structure RegFsmFunc where
  fsm_sta : UInt32
  func_in : Bool
  func_exe : Bool
  func_chk : Bool
  func_out : Bool
  deriving DecidableEq

/-- A callback that has been called, with the state of its entry. -/
inductive Call
  | funcIn (fsm_sta : UInt32)
  | funcExe (fsm_sta : UInt32)
  | funcChk (fsm_sta ev : UInt32)
  | funcOut (fsm_sta : UInt32)
  deriving DecidableEq

/-- Where the step is. -/
inductive Pc
  /-- in none of the steps -/
  | rest
  /-- in front of the test of `fsm_sta_is_change` -/
  | entered (entry : RegFsmFunc)
  /-- in `func_in`, or where it would be -/
  | funcIn (entry : RegFsmFunc)
  | funcExe (entry : RegFsmFunc)
  /-- in front of the test of the event word -/
  | test (entry : RegFsmFunc)
  /-- in front of the call of `func_chk` -/
  | check (entry : RegFsmFunc)
  | funcChk (entry : RegFsmFunc)
  | decide (entry : RegFsmFunc) (next : UInt32)
  | funcOut (entry : RegFsmFunc) (next : UInt32)
  /-- in front of the clearing of the event word -/
  | clear (entry : RegFsmFunc)
  deriving DecidableEq

/-- `reg_fsm_t` with the event word, and the step that is under way. -/
structure RegFsm where
  fsm_sta : UInt32
  /-- the first `fsm_table_size` entries -/
  p_fsm_func_table : Option (List RegFsmFunc)
  fsm_sta_is_change : Bool
  /-- whether the pointer to the event word is set -/
  p_fsm_ev : Bool
  fsm_ev : UInt32
  pc : Pc
  /-- the callbacks that this step has called -/
  calls : List Call
  /-- what has been written to the event word since it was read for `func_chk` -/
  late : List UInt32

namespace RegFsm
variable (s : RegFsm)

/-- `section_fsm_func`, up to the entry of the state -/
def sectionFsmFunc : RegFsm :=
  match s.p_fsm_func_table with
  | none => s
  | some table =>
    if s.p_fsm_ev = false then s
    else match table.find? fun entry => s.fsm_sta = entry.fsm_sta with
    | none => s
    | some entry => { s with pc := .entered entry, calls := [], late := [] }

/-- A callback is called if it is set. -/
def call (set : Bool) (call : Call) : RegFsm :=
  if set = true then { s with calls := s.calls ++ [call] } else s

/-- The next access; `chk` is what `func_chk` returns. -/
def step (chk : UInt32) : RegFsm :=
  match s.pc with
  | .rest => s
  | .entered entry =>
    if s.fsm_sta_is_change = true then
      { s.call entry.func_in (.funcIn entry.fsm_sta) with
        fsm_sta_is_change := false, pc := .funcIn entry }
    else { s with pc := .funcIn entry }
  | .funcIn entry =>
    { s.call entry.func_exe (.funcExe entry.fsm_sta) with pc := .funcExe entry }
  | .funcExe entry => { s with pc := .test entry }
  | .test entry => { s with pc := if s.fsm_ev ≠ 0 then .check entry else .rest }
  | .check entry =>
    if entry.func_chk = true then
      { s.call true (.funcChk entry.fsm_sta s.fsm_ev) with late := [], pc := .funcChk entry }
    else { s with pc := .decide entry 0 }
  | .funcChk entry => { s with pc := .decide entry chk }
  | .decide entry next =>
    if next ≠ 0 ∧ next ≠ entry.fsm_sta then
      { s.call entry.func_out (.funcOut entry.fsm_sta) with pc := .funcOut entry next }
    else { s with pc := .clear entry }
  | .funcOut entry next =>
    { s with fsm_sta := next, fsm_sta_is_change := true, pc := .clear entry }
  | .clear _ => { s with fsm_ev := 0, pc := .rest }

/-- A callback or an interrupt writes the event word. -/
def post (ev : UInt32) : RegFsm := { s with fsm_ev := ev, late := s.late ++ [ev] }

end RegFsm

inductive Event
  | sectionFsmFunc
  | step (chk : UInt32)
  | post (ev : UInt32)

/-- One step; a step of the machine is begun when the last one has ended. -/
def RegFsm.exec (s : RegFsm) : Event → RegFsm
  | .sectionFsmFunc => if s.pc = .rest then s.sectionFsmFunc else s
  | .step chk => s.step chk
  | .post ev => s.post ev

/-- The runs, for every table and every state that the object starts in. -/
def fsmRuns : Transition RegFsm where
  init := fun s => s.pc = .rest
  next := fun s s' => ∃ event, s' = s.exec event

/-- The event word has been passed to `func_chk`. -/
def Pc.checked : Pc → Option RegFsmFunc
  | .funcChk entry | .decide entry _ | .funcOut entry _ | .clear entry =>
    if entry.func_chk = true then some entry else none
  | _ => none

/-- The word is what the step has passed, or the last that was written since. -/
def Passed (s : RegFsm) (entry : RegFsmFunc) : Prop :=
  ∃ ev, .funcChk entry.fsm_sta ev ∈ s.calls ∧ s.fsm_ev = s.late.getLastD ev

/-- The invariant of the runs. -/
def Inv (s : RegFsm) : Prop := ∀ entry, s.pc.checked = some entry → Passed s entry

variable {s t : RegFsm} {entry : RegFsmFunc}

/-- More may have been called, and the word is the same. -/
theorem Passed.of_eq (h : Passed s entry) (hcalls : s.calls ⊆ t.calls)
    (hev : t.fsm_ev = s.fsm_ev) (hlate : t.late = s.late) : Passed t entry := by
  obtain ⟨ev, hcall, hlast⟩ := h
  exact ⟨ev, hcalls hcall, by rw [hev, hlate, hlast]⟩

theorem Passed.post (h : Passed s entry) (ev : UInt32) : Passed (s.post ev) entry := by
  obtain ⟨passed, hcall, -⟩ := h
  exact ⟨passed, hcall, by simp [RegFsm.post]⟩

/-- A callback leaves the rest as it is. -/
theorem call_eq (set : Bool) (call : Call) :
    ∃ calls, s.calls ⊆ calls ∧ s.call set call = { s with calls := calls } := by
  cases set with
  | true => exact ⟨_, List.subset_append_left _ _, rfl⟩
  | false => exact ⟨_, List.Subset.refl _, rfl⟩

/-- One access of a step. -/
theorem Inv.step (h : Inv s) (chk : UInt32) : Inv (s.step chk) := by
  have hnone {t : RegFsm} (hpc : t.pc.checked = none) : Inv t :=
    fun _ hentry => nomatch hpc.symm.trans hentry
  cases hpc : s.pc with
  | rest =>
    rw [RegFsm.step, hpc]
    exact h
  | entered entry =>
    rw [RegFsm.step, hpc]
    dsimp only
    split <;> exact hnone rfl
  | funcIn entry =>
    rw [RegFsm.step, hpc]
    exact hnone rfl
  | funcExe entry =>
    rw [RegFsm.step, hpc]
    exact hnone rfl
  | test entry =>
    rw [RegFsm.step, hpc]
    dsimp only
    split <;> exact hnone rfl
  | check entry =>
    rw [RegFsm.step, hpc]
    dsimp only
    split
    · -- the word that is read is the word that is passed
      rename_i hchk
      intro other hother
      rw [Pc.checked, if_pos hchk, Option.some.injEq] at hother
      exact ⟨s.fsm_ev, by simp [RegFsm.call, hother], rfl⟩
    · rename_i hchk
      exact hnone (if_neg hchk)
  | funcChk entry =>
    rw [RegFsm.step, hpc]
    exact fun other hother =>
      (h other (by rw [hpc]; exact hother)).of_eq (List.Subset.refl _) rfl rfl
  | decide entry next =>
    rw [RegFsm.step, hpc]
    dsimp only
    split
    · obtain ⟨calls, hcalls, heq⟩ := call_eq (s := s) entry.func_out (.funcOut entry.fsm_sta)
      rw [heq]
      exact fun other hother => (h other (by rw [hpc]; exact hother)).of_eq hcalls rfl rfl
    · exact fun other hother =>
        (h other (by rw [hpc]; exact hother)).of_eq (List.Subset.refl _) rfl rfl
  | funcOut entry next =>
    rw [RegFsm.step, hpc]
    exact fun other hother =>
      (h other (by rw [hpc]; exact hother)).of_eq (List.Subset.refl _) rfl rfl
  | clear entry =>
    rw [RegFsm.step, hpc]
    exact hnone rfl

theorem Inv.exec (h : Inv s) (event : Event) : Inv (s.exec event) := by
  cases event with
  | sectionFsmFunc =>
    unfold RegFsm.exec
    dsimp only
    split
    · unfold RegFsm.sectionFsmFunc
      split
      · exact h
      split_ifs
      · exact h
      split
      · exact h
      · exact fun _ hentry => nomatch hentry
    · exact h
  | step chk => exact h.step chk
  | post ev => exact fun entry hentry => (h entry hentry).post ev

theorem inv_of_reachable (hs : fsmRuns.Reachable s) : Inv s :=
  hs.invariant
    (fun _ hrest _ hentry => by
      rw [show _ = Pc.rest from hrest] at hentry
      cases hentry)
    fun _ _ hs ⟨event, heq⟩ => heq ▸ hs.exec event

/-- Only the clearing at the end of a step changes the word. -/
theorem fsm_ev_step (hpc : ∀ entry, s.pc ≠ .clear entry) (chk : UInt32) :
    (s.step chk).fsm_ev = s.fsm_ev := by
  have hcall (set : Bool) (call : Call) : (s.call set call).fsm_ev = s.fsm_ev := by
    obtain ⟨calls, -, heq⟩ := call_eq (s := s) set call
    rw [heq]
  unfold RegFsm.step
  split
  case h_10 entry hclear => exact absurd hclear (hpc entry)
  all_goals
    first
    | rfl
    | exact hcall _ _
    | split <;> first | rfl | exact hcall _ _

theorem fsm_ev_sectionFsmFunc : s.sectionFsmFunc.fsm_ev = s.fsm_ev := by
  unfold RegFsm.sectionFsmFunc
  split
  · rfl
  split_ifs
  · rfl
  split <;> rfl

/-- A word that is erased has been passed to `func_chk` in the same step, or it was written after
the word had been read for that; and nothing else erases it. -/
theorem event_erased (hs : fsmRuns.Reachable s) :
    (∀ entry, s.pc = .clear entry → entry.func_chk = true → s.fsm_ev ≠ 0 →
      .funcChk entry.fsm_sta s.fsm_ev ∈ s.calls ∨ s.late.getLast? = some s.fsm_ev) ∧
    ∀ event, (s.exec event).fsm_ev ≠ s.fsm_ev →
      (∃ entry, s.pc = .clear entry) ∨ ∃ ev, event = .post ev := by
  refine ⟨fun entry hpc hchk hev => ?_, fun event hne => ?_⟩
  · obtain ⟨ev, hcall, hlast⟩ := inv_of_reachable hs entry (by rw [hpc]; exact if_pos hchk)
    cases hlate : s.late.getLast? with
    | none =>
      rw [List.getLastD_eq_getLast?, hlate] at hlast
      exact .inl (hlast ▸ hcall)
    | some last =>
      rw [List.getLastD_eq_getLast?, hlate] at hlast
      exact .inr (congrArg some hlast.symm)
  · by_contra hnot
    rw [not_or, not_exists, not_exists] at hnot
    cases event with
    | sectionFsmFunc =>
      unfold RegFsm.exec at hne
      dsimp only at hne
      split at hne
      · exact hne fsm_ev_sectionFsmFunc
      · exact hne rfl
    | step chk => exact hne (fsm_ev_step hnot.1 chk)
    | post ev => exact hnot.2 ev rfl

/-- A state machine with one state, which checks its events and stays. -/
def demoFsm (late : List UInt32) : RegFsm :=
  ([Event.post 1, .sectionFsmFunc] ++ List.replicate 5 (Event.step 0) ++ late.map Event.post ++
    List.replicate 2 (Event.step 0)).foldl RegFsm.exec
    ⟨7, some [⟨7, false, true, true, false⟩], true, true, 0, .rest, [], []⟩

theorem demoFsm_reachable (late : List UInt32) : fsmRuns.Reachable (demoFsm late) :=
  Transition.Reachable.foldl (T := fsmRuns) (fun _ event => ⟨event, rfl⟩) _ (.start rfl)

/-- An event that is checked, and then erased. -/
theorem event_checked : .funcChk 7 (demoFsm []).fsm_ev ∈ (demoFsm []).calls := by
  have h := (event_erased (demoFsm_reachable [])).1 ⟨7, false, true, true, false⟩
    (by decide +kernel) rfl (by decide +kernel)
  exact h.resolve_right (by decide +kernel)

/-- An event that is written while `func_chk` runs is erased, and has not been checked. -/
theorem event_unseen :
    fsmRuns.Reachable (demoFsm [2]) ∧
      (demoFsm [2]).pc = .clear ⟨7, false, true, true, false⟩ ∧ (demoFsm [2]).fsm_ev = 2 ∧
      (demoFsm [2]).calls = [.funcExe 7, .funcChk 7 1] ∧ ((demoFsm [2]).step 0).fsm_ev = 0 :=
  ⟨demoFsm_reachable [2], by decide +kernel, by decide +kernel, by decide +kernel,
    by decide +kernel⟩

end Atoman.Fsm
