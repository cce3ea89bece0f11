import Atoman.Chb.Machine
import Mathlib.Algebra.BigOperators.Fin

/-!
# The order of the power-up

In every state but `mainWait` and `run` the library of the relay is at rest and its task not
called. In `mainWait` it closes the relay, and the machine goes on to `run` when the relay has been
confirmed and the soft start's relay opened.
-/

namespace Atoman.Chb
open Lib (Transition)

/-- The comparisons of the buses, the newest first, as a count up and down. -/
def balance : List Bool → ℕ
  | [] => 0
  | true :: verdicts => min (balance verdicts + 1) softStartMs
  | false :: verdicts => balance verdicts - 1

section Log
variable (on : Bool) (log : List Callback)

@[simp] theorem lastMain_mainRelay : lastMain (.mainRelay on :: log) = some on := rfl

@[simp] theorem lastMain_softStartRelay : lastMain (.softStartRelay on :: log) = lastMain log := rfl

@[simp] theorem lastSoftStart_softStartRelay :
    lastSoftStart (.softStartRelay on :: log) = some on := rfl

end Log

variable {F : Type} {arith : Arith F} {s : Machine F}

/-- The library rests, the relay is open and the task not called. -/
structure Off (s : Machine F) : Prop where
  task : s.main_relay_task_enabled = false
  sta : s.main_relay.sta = .idle
  is_on : s.main_relay.is_on = false
  last : lastMain s.log = some false

/-- The library is bound, and its flags say what the relay has been told. -/
structure Bound (s : Machine F) : Prop where
  inputs : s.main_relay.inputs = true
  callbacks : s.main_relay.callbacks = true
  off_trig : s.main_relay.rly_off_trig = false
  is_on : s.main_relay.is_on = true → s.main_relay.sta = .run
  run : s.main_relay.sta = .run → lastMain s.log = some true

/-- What holds between two steps. -/
structure Inv (s : Machine F) : Prop where
  event : s.fsm_event = .none
  init : s.fsm_sta = .init → s.main_relay_task_enabled = false
  bound : s.fsm_sta ≠ .init → Bound s
  off : s.fsm_sta = .idle ∨ s.fsm_sta = .softStart ∨ s.fsm_sta = .fault ∨
    s.fsm_sta = .mainWait ∧ s.fsm_sta_is_change = true → Off s
  soft : s.fsm_sta = .idle ∨ s.fsm_sta = .fault → s.fsm_sta_is_change = false →
    lastSoftStart s.log = some false
  count : s.soft_start_qualified = balance s.verdicts
  qualified : s.fsm_sta = .mainWait ∨ s.fsm_sta = .run → softStartMs ≤ balance s.verdicts
  wait : s.fsm_sta = .mainWait → s.fsm_sta_is_change = false → 0 < s.main_relay_wait_ms →
    s.main_relay.is_on = true ∧ lastSoftStart s.log = some false
  run : s.fsm_sta = .run → s.main_relay.is_on = true ∧ lastSoftStart s.log = some false
  allowed : s.run_allowed = true → s.fsm_sta = .run

theorem Inv.reset (f : F) : Inv (.reset f) := by
  constructor <;> simp [Machine.reset, balance]

theorem Off.congr (h : Off s) {t : Machine F}
    (htask : t.main_relay_task_enabled = s.main_relay_task_enabled)
    (hrelay : t.main_relay = s.main_relay) (hlast : lastMain t.log = lastMain s.log) : Off t where
  task := htask.trans h.task
  sta := hrelay ▸ h.sta
  is_on := hrelay ▸ h.is_on
  last := hlast.trans h.last

theorem Bound.congr (h : Bound s) {t : Machine F} (hrelay : t.main_relay = s.main_relay)
    (hlast : lastMain t.log = lastMain s.log) : Bound t where
  inputs := hrelay ▸ h.inputs
  callbacks := hrelay ▸ h.callbacks
  off_trig := hrelay ▸ h.off_trig
  is_on := hrelay ▸ h.is_on
  run := by
    rw [hrelay, hlast]
    exact h.run

namespace Inv

theorem not_allowed (h : Inv s) (hsta : s.fsm_sta ≠ .run) : s.run_allowed = false :=
  Bool.eq_false_iff.mpr fun hrun => hsta (h.allowed hrun)

/-! ## What holds in each state -/

theorem of_init (hsta : s.fsm_sta = .init) (event : s.fsm_event = .none)
    (task : s.main_relay_task_enabled = false) (count : s.soft_start_qualified = balance s.verdicts)
    (allowed : s.run_allowed = false) : Inv s where
  event := event
  init := fun _ => task
  bound := fun hne => absurd hsta hne
  off := by simp [hsta]
  soft := by simp [hsta]
  count := count
  qualified := by simp [hsta]
  wait := by simp [hsta]
  run := by simp [hsta]
  allowed := by simp [allowed]

/-- The states in which the relay is at rest. -/
theorem of_off (hsta : s.fsm_sta = .idle ∨ s.fsm_sta = .softStart ∨ s.fsm_sta = .fault)
    (event : s.fsm_event = .none) (bound : Bound s) (off : Off s)
    (soft : s.fsm_sta ≠ .softStart → s.fsm_sta_is_change = false → lastSoftStart s.log = some false)
    (count : s.soft_start_qualified = balance s.verdicts) (allowed : s.run_allowed = false) :
    Inv s where
  event := event
  init := by rcases hsta with hsta | hsta | hsta <;> simp [hsta]
  bound := fun _ => bound
  off := fun _ => off
  soft := fun hrest => soft (by rcases hrest with hrest | hrest <;> simp [hrest])
  count := count
  qualified := by rcases hsta with hsta | hsta | hsta <;> simp [hsta]
  wait := by rcases hsta with hsta | hsta | hsta <;> simp [hsta]
  run := by rcases hsta with hsta | hsta | hsta <;> simp [hsta]
  allowed := by simp [allowed]

theorem of_mainWait (hsta : s.fsm_sta = .mainWait) (event : s.fsm_event = .none) (bound : Bound s)
    (off : s.fsm_sta_is_change = true → Off s) (count : s.soft_start_qualified = balance s.verdicts)
    (qualified : softStartMs ≤ balance s.verdicts)
    (wait : s.fsm_sta_is_change = false → 0 < s.main_relay_wait_ms →
      s.main_relay.is_on = true ∧ lastSoftStart s.log = some false)
    (allowed : s.run_allowed = false) : Inv s where
  event := event
  init := by simp [hsta]
  bound := fun _ => bound
  off := by simpa [hsta] using off
  soft := by simp [hsta]
  count := count
  qualified := fun _ => qualified
  wait := fun _ => wait
  run := by simp [hsta]
  allowed := by simp [allowed]

theorem of_run (hsta : s.fsm_sta = .run) (event : s.fsm_event = .none) (bound : Bound s)
    (count : s.soft_start_qualified = balance s.verdicts)
    (qualified : softStartMs ≤ balance s.verdicts)
    (run : s.main_relay.is_on = true ∧ lastSoftStart s.log = some false) : Inv s where
  event := event
  init := by simp [hsta]
  bound := fun _ => bound
  off := by simp [hsta]
  soft := by simp [hsta]
  count := count
  qualified := fun _ => qualified
  wait := by simp [hsta]
  run := fun _ => run
  allowed := fun _ => hsta

end Inv

/-! ## The entry of a state -/

/-- The relay is opened. -/
theorem mainRelayForceOff_spec (hb : s.main_relay.inputs = true ∧ s.main_relay.callbacks = true) :
    Off s.mainRelayForceOff ∧ Bound s.mainRelayForceOff := by
  constructor <;> constructor <;>
    simp [Machine.mainRelayForceOff, Machine.callRelay, RlyOn.forceOff, RlyOn.resetRuntime,
      RlyOn.isReady, hb]

@[simp] theorem mainRelayForceOff_frame :
    s.mainRelayForceOff.fsm_sta = s.fsm_sta ∧
      s.mainRelayForceOff.fsm_sta_is_change = s.fsm_sta_is_change ∧
      s.mainRelayForceOff.fsm_event = s.fsm_event ∧
      s.mainRelayForceOff.soft_start_qualified = s.soft_start_qualified ∧
      s.mainRelayForceOff.main_relay_wait_ms = s.main_relay_wait_ms ∧
      s.mainRelayForceOff.run_allowed = s.run_allowed ∧
      s.mainRelayForceOff.run_request = s.run_request ∧
      s.mainRelayForceOff.verdicts = s.verdicts :=
  ⟨rfl, rfl, rfl, rfl, rfl, rfl, rfl, rfl⟩

@[simp] theorem call_frame (callback : Callback) :
    (s.call callback).fsm_sta = s.fsm_sta ∧
      (s.call callback).fsm_sta_is_change = s.fsm_sta_is_change ∧
      (s.call callback).fsm_event = s.fsm_event ∧
      (s.call callback).soft_start_qualified = s.soft_start_qualified ∧
      (s.call callback).main_relay_wait_ms = s.main_relay_wait_ms ∧
      (s.call callback).run_allowed = s.run_allowed ∧
      (s.call callback).run_request = s.run_request ∧
      (s.call callback).verdicts = s.verdicts ∧
      (s.call callback).main_relay = s.main_relay ∧
      (s.call callback).main_relay_task_enabled = s.main_relay_task_enabled ∧
      (s.call callback).log = callback :: s.log :=
  ⟨rfl, rfl, rfl, rfl, rfl, rfl, rfl, rfl, rfl, rfl, rfl⟩

theorem Inv.opened (h : Inv s) (hsta : s.fsm_sta ≠ .init) (t : Machine F)
    (ht : t.main_relay = s.main_relay) : Off t.mainRelayForceOff ∧ Bound t.mainRelayForceOff :=
  mainRelayForceOff_spec (by rw [ht]; exact ⟨(h.bound hsta).inputs, (h.bound hsta).callbacks⟩)

variable (arith) in
theorem Inv.funcIn (h : Inv s) (hchange : s.fsm_sta_is_change = true) (i : Input F) :
    Inv ({ s with fsm_sta_is_change := false }.funcIn arith i) := by
  have hopen (hsta : s.fsm_sta ≠ .init) := h.opened hsta
  cases hsta : s.fsm_sta with
  | init =>
    simp only [Machine.funcIn]
    exact .of_init rfl h.event (h.init hsta) h.count rfl
  | idle =>
    obtain ⟨hoff, hbound⟩ := hopen (by simp [hsta])
      { s with fsm_sta_is_change := false, run_allowed := false } rfl
    simp only [Machine.funcIn]
    exact .of_off (.inl rfl) h.event (hbound.congr rfl rfl) (hoff.congr rfl rfl rfl)
      (fun _ _ => rfl) h.count rfl
  | softStart =>
    obtain ⟨hoff, hbound⟩ := hopen (by simp [hsta])
      { s with
        fsm_sta_is_change := false, soft_start_elapsed := 0, soft_start_qualified := 0
        run_allowed := false, verdicts := [] } rfl
    simp only [Machine.funcIn]
    exact .of_off (.inr (.inl rfl)) h.event (hbound.congr rfl rfl) (hoff.congr rfl rfl rfl)
      (fun hne => absurd rfl hne) rfl rfl
  | mainWait =>
    have hoff := h.off (.inr (.inr (.inr ⟨hsta, hchange⟩)))
    have hbound := h.bound (by simp [hsta])
    simp only [Machine.funcIn, hoff.sta, ne_eq, not_true_eq_false, if_false]
    refine .of_mainWait rfl h.event ⟨hbound.inputs, hbound.callbacks, hbound.off_trig, ?_, ?_⟩ nofun
      h.count (h.qualified (.inl hsta)) (fun _ hwait => absurd hwait (Nat.lt_irrefl 0)) rfl
    · exact fun hon => absurd (hoff.is_on.symm.trans hon) nofun
    · exact fun hrun => absurd hrun nofun
  | run =>
    simp only [Machine.funcIn]
    exact .of_run rfl h.event ((h.bound (by simp [hsta])).congr rfl rfl) h.count
      (h.qualified (.inr hsta)) (h.run hsta)
  | fault =>
    obtain ⟨hoff, hbound⟩ := hopen (by simp [hsta])
      ({ s with fsm_sta_is_change := false, run_allowed := false }.call .pwmDisable) rfl
    simp only [Machine.funcIn]
    exact .of_off (.inr (.inr rfl)) h.event (hbound.congr rfl rfl) (hoff.congr rfl rfl rfl)
      (fun _ _ => rfl) h.count rfl

variable (arith) in
/-- The entry changes neither the state nor the request. -/
theorem funcIn_frame (i : Input F) :
    (s.funcIn arith i).fsm_sta = s.fsm_sta ∧
      (s.funcIn arith i).fsm_sta_is_change = s.fsm_sta_is_change ∧
      (s.funcIn arith i).run_request = s.run_request := by
  unfold Machine.funcIn
  cases hsta : s.fsm_sta with
  | mainWait =>
    dsimp only
    split_ifs <;> exact ⟨hsta, rfl, rfl⟩
  | _ => exact ⟨rfl, rfl, rfl⟩

variable (arith) in
theorem Inv.enter (h : Inv s) (i : Input F) :
    Inv (s.enter arith i) ∧ (s.enter arith i).fsm_sta_is_change = false ∧
      (s.enter arith i).fsm_sta = s.fsm_sta ∧ (s.enter arith i).run_request = s.run_request := by
  unfold Machine.enter
  split_ifs with hchange
  · obtain ⟨hsta, hchange', hreq⟩ :=
      funcIn_frame arith (s := { s with fsm_sta_is_change := false }) i
    exact ⟨h.funcIn arith hchange i, hchange', hsta, hreq⟩
  · exact ⟨h, Bool.eq_false_iff.mpr hchange, rfl, rfl⟩

/-! ## The execution and the check -/

theorem balance_le (verdicts : List Bool) : balance verdicts ≤ softStartMs := by
  induction verdicts with
  | nil => simp [balance]
  | cons verdict verdicts ih => cases verdict <;> grind -linarith [balance]

@[simp] theorem softStartCount_frame (i : Input F) :
    (s.softStartCount arith i).fsm_sta = s.fsm_sta ∧
      (s.softStartCount arith i).fsm_sta_is_change = s.fsm_sta_is_change ∧
      (s.softStartCount arith i).main_relay = s.main_relay ∧
      (s.softStartCount arith i).main_relay_task_enabled = s.main_relay_task_enabled ∧
      (s.softStartCount arith i).run_allowed = s.run_allowed ∧
      (s.softStartCount arith i).log = s.log :=
  ⟨rfl, rfl, rfl, rfl, rfl, rfl⟩

variable (arith) in
/-- The code counts as the balance does. -/
theorem softStartCount_qualified (h : s.soft_start_qualified = balance s.verdicts) (i : Input F) :
    (s.softStartCount arith i).soft_start_qualified =
      balance (s.softStartCount arith i).verdicts := by
  have := balance_le s.verdicts
  simp only [Machine.softStartCount, h]
  cases arith.above i.v_bus_raw i.v_grid_rms <;> grind -linarith [balance]

@[simp] theorem mainWaitCount_frame :
    s.mainWaitCount.fsm_sta = s.fsm_sta ∧
      s.mainWaitCount.fsm_sta_is_change = s.fsm_sta_is_change ∧
      s.mainWaitCount.main_relay = s.main_relay ∧
      s.mainWaitCount.main_relay_task_enabled = s.main_relay_task_enabled ∧
      s.mainWaitCount.run_allowed = s.run_allowed ∧
      s.mainWaitCount.soft_start_qualified = s.soft_start_qualified ∧
      s.mainWaitCount.verdicts = s.verdicts ∧ lastMain s.mainWaitCount.log = lastMain s.log := by
  unfold Machine.mainWaitCount
  split
  · by_cases h0 : s.main_relay_wait_ms = 0 <;> simp [h0]
  · simp

/-- Once the relay is confirmed, the soft start's relay is opened. -/
theorem mainWaitCount_soft (hon : s.main_relay.is_on = true)
    (hsoft : 0 < s.main_relay_wait_ms → lastSoftStart s.log = some false) :
    lastSoftStart s.mainWaitCount.log = some false := by
  by_cases h0 : s.main_relay_wait_ms = 0
  · simp [Machine.mainWaitCount, hon, h0]
  · simpa [Machine.mainWaitCount, hon, h0] using hsoft (Nat.pos_of_ne_zero h0)

theorem mainWaitCount_event (h : s.fsm_event = .none) :
    s.mainWaitCount.fsm_event = .none ∨
      s.mainWaitCount.fsm_event = .run ∧ s.main_relay.is_on = true := by
  unfold Machine.mainWaitCount
  split
  · by_cases h0 : s.main_relay_wait_ms = 0 <;> simp only [h0] <;> grind -linarith [call_frame]
  · exact .inl h

theorem mainWaitCount_wait (hon : s.main_relay.is_on = false) :
    s.mainWaitCount.main_relay_wait_ms = 0 := by
  simp [Machine.mainWaitCount, hon]

theorem check_of_none (h : s.fsm_event = .none) : s.check = s := if_pos h

theorem check_of_next (next : State) (h : s.fsm_sta.funcChk s.fsm_event = some next) :
    s.check =
      { s.funcOut with fsm_sta := next, fsm_sta_is_change := true, fsm_event := .none } := by
  have hne : s.fsm_event ≠ .none := by
    intro hnone
    rw [hnone] at h
    cases hsta : s.fsm_sta <;> simp [hsta, State.funcChk] at h
  rw [Machine.check, if_neg hne, h]

/-- `idle` behind the opening of the relay -/
theorem inv_mainRelayForceOff (hb : s.main_relay.inputs = true ∧ s.main_relay.callbacks = true)
    (hcount : s.soft_start_qualified = balance s.verdicts) (hrun : s.run_allowed = false) :
    Inv { s.mainRelayForceOff with
      fsm_sta := .idle, fsm_sta_is_change := true, fsm_event := .none } := by
  obtain ⟨⟨task, sta, is_on, last⟩, ⟨inputs, callbacks, off_trig, is_on', run⟩⟩ :=
    mainRelayForceOff_spec hb
  constructor
  case bound => exact fun _ => ⟨inputs, callbacks, off_trig, is_on', run⟩
  case off => exact fun _ => ⟨task, sta, is_on, last⟩
  all_goals simp [hcount, hrun]

theorem Inv.check_idle (h : Inv s) (hsta : s.fsm_sta = .idle) (hreq : s.run_request = true)
    (i : Input F) : Inv (s.funcExe arith i).check := by
  have hexe : s.funcExe arith i = { s with fsm_event := .softStart } := by
    simp [Machine.funcExe, hsta, hreq]
  have hbound := h.bound (by simp [hsta])
  have hoff := h.off (.inl hsta)
  rw [hexe, check_of_next .softStart (by simp [hsta, State.funcChk])]
  simp only [Machine.funcOut, hsta]
  exact .of_off (.inr (.inl rfl)) rfl (hbound.congr rfl rfl) (hoff.congr rfl rfl rfl)
    (fun hne => absurd rfl hne) h.count (h.not_allowed (by simp [hsta]))

variable (arith) in
/-- The event of `softStart`. -/
theorem softStartCount_event (h : s.fsm_event = .none) (i : Input F) :
    (s.softStartCount arith i).fsm_event = .none ∨
      (s.softStartCount arith i).fsm_event = .fault ∨
      (s.softStartCount arith i).fsm_event = .mainWait ∧
        softStartMs ≤ (s.softStartCount arith i).soft_start_qualified := by
  simp only [Machine.softStartCount, h]
  split_ifs with hfull <;> simp [*]

theorem Inv.check_softStart (h : Inv s) (hsta : s.fsm_sta = .softStart)
    (hreq : s.run_request = true)
    (i : Input F) : Inv (s.funcExe arith i).check := by
  have hexe : s.funcExe arith i = s.softStartCount arith i := by
    simp [Machine.funcExe, hsta, hreq]
  have hcount := softStartCount_qualified arith h.count i
  have hbound := h.bound (by simp [hsta])
  have hoff := h.off (.inr (.inl hsta))
  have hallowed := h.not_allowed (by simp [hsta])
  have hsta' : (s.softStartCount arith i).fsm_sta = .softStart := hsta
  rw [hexe]
  rcases softStartCount_event arith h.event i with hevent | hevent | ⟨hevent, hle⟩
  · rw [check_of_none hevent]
    exact .of_off (.inr (.inl hsta)) hevent (hbound.congr rfl rfl) (hoff.congr rfl rfl rfl)
      (fun hne => absurd hsta hne) hcount hallowed
  · rw [check_of_next .fault (by simp [hevent, hsta, State.funcChk])]
    simp only [Machine.funcOut, hsta', hevent, ne_eq, reduceCtorEq, not_false_eq_true, if_true]
    exact .of_off (.inr (.inr rfl)) rfl (hbound.congr rfl rfl) (hoff.congr rfl rfl rfl)
      (fun _ _ => rfl) hcount hallowed
  · rw [check_of_next .mainWait (by simp [hevent, hsta, State.funcChk])]
    simp only [Machine.funcOut, hsta', hevent, ne_eq, not_true_eq_false, if_false]
    exact .of_mainWait rfl rfl (hbound.congr rfl rfl) (fun _ => hoff.congr rfl rfl rfl) hcount
      (hcount ▸ hle) nofun hallowed

theorem Inv.check_mainWait (h : Inv s) (hchange : s.fsm_sta_is_change = false)
    (hsta : s.fsm_sta = .mainWait) (hreq : s.run_request = true) (i : Input F) :
    Inv (s.funcExe arith i).check := by
  have hexe : s.funcExe arith i = s.mainWaitCount := by
    simp [Machine.funcExe, hsta, hreq]
  obtain ⟨hsta', hchange', hrelay, -, hallowed, hcount, hverdicts, hlast⟩ :=
    mainWaitCount_frame (s := s)
  have hbound := h.bound (by simp [hsta])
  have hdown := h.not_allowed (by simp [hsta])
  have hqualified := h.qualified (.inl hsta)
  have hsoft (hon : s.main_relay.is_on = true) :=
    mainWaitCount_soft hon fun hwait => (h.wait hsta hchange hwait).2
  rw [hexe]
  rcases mainWaitCount_event h.event with hevent | ⟨hevent, hon⟩
  · rw [check_of_none hevent]
    refine .of_mainWait (hsta'.trans hsta) hevent (hbound.congr hrelay hlast) ?_ ?_ ?_ ?_ ?_
    · exact fun hnew => absurd (hchange.symm.trans (hchange'.symm.trans hnew)) nofun
    · rw [hcount, hverdicts, h.count]
    · rwa [hverdicts]
    · intro _ hwait
      have hon : s.main_relay.is_on = true := by
        by_contra hopen
        rw [mainWaitCount_wait (Bool.eq_false_iff.mpr hopen)] at hwait
        exact absurd hwait (Nat.lt_irrefl 0)
      exact ⟨hrelay ▸ hon, hsoft hon⟩
    · exact hallowed.trans hdown
  · rw [check_of_next .run (by simp [hevent, hsta, State.funcChk])]
    simp only [Machine.funcOut, hsta'.trans hsta, hevent, ne_eq, not_true_eq_false, if_false]
    refine .of_run rfl rfl (hbound.congr hrelay hlast) ?_ ?_ ⟨hrelay ▸ hon, hsoft hon⟩
    · exact hcount.trans (h.count.trans (congrArg balance hverdicts.symm))
    · exact hverdicts ▸ hqualified

/-- A request that is withdrawn behind `idle` leads back to it. -/
theorem Inv.check_withdrawn (h : Inv s) (hreq : s.run_request = false)
    (hsta : s.fsm_sta = .softStart ∨ s.fsm_sta = .mainWait ∨ s.fsm_sta = .run) (i : Input F) :
    Inv (s.funcExe arith i).check := by
  rcases hsta with hsta | hsta | hsta
  · have hexe : s.funcExe arith i = { s with fsm_event := .idle } := by
      simp [Machine.funcExe, hsta, hreq]
    have hbound := h.bound (by simp [hsta])
    have hoff := h.off (.inr (.inl hsta))
    rw [hexe, check_of_next .idle (by simp [hsta, State.funcChk])]
    simp only [Machine.funcOut, hsta, ne_eq, reduceCtorEq, not_false_eq_true, if_true]
    exact .of_off (.inl rfl) rfl (hbound.congr rfl rfl) (hoff.congr rfl rfl rfl) (fun _ _ => rfl)
      h.count (h.not_allowed (by simp [hsta]))
  · have hexe : s.funcExe arith i = { s with fsm_event := .idle } := by
      simp [Machine.funcExe, hsta, hreq]
    have hbound := h.bound (by simp [hsta])
    have hidle := inv_mainRelayForceOff (s := { s with fsm_event := .idle })
      ⟨hbound.inputs, hbound.callbacks⟩ h.count (h.not_allowed (by simp [hsta]))
    rw [hexe, check_of_next .idle (by simp [hsta, State.funcChk])]
    simpa [Machine.funcOut, hsta] using hidle
  · have hexe : s.funcExe arith i = { s with run_allowed := false, fsm_event := .idle } := by
      simp [Machine.funcExe, hsta, hreq]
    have hbound := h.bound (by simp [hsta])
    have hidle := inv_mainRelayForceOff
      (s := { s with run_allowed := false, fsm_event := .idle }.call .pwmDisable)
      ⟨hbound.inputs, hbound.callbacks⟩ h.count rfl
    rw [hexe, check_of_next .idle (by simp [hsta, State.funcChk])]
    simpa [Machine.funcOut, hsta] using hidle

theorem Inv.check_init (h : Inv s) (hsta : s.fsm_sta = .init) {i : Input F}
    (hready : i.ready = true) :
    Inv (s.funcExe arith i).check := by
  have hexe : s.funcExe arith i =
      { s.mainRelayPrepare arith i.f_grid with fsm_event := .idle } := by
    simp [Machine.funcExe, hsta, hready]
  rw [hexe, check_of_next .idle (by simp [Machine.mainRelayPrepare, hsta, State.funcChk])]
  have hidle := inv_mainRelayForceOff (s := ({ s.mainRelayPrepare arith i.f_grid with
      fsm_event := .idle }.call .pwmDisable).call (.softStartRelay false))
    (by simp [Machine.mainRelayPrepare, RlyOn.init]) h.count (h.not_allowed (by simp [hsta]))
  simpa [Machine.funcOut, Machine.mainRelayPrepare, hsta] using hidle

theorem Inv.check_fault (h : Inv s) (hsta : s.fsm_sta = .fault) (i : Input F) :
    Inv (s.funcExe arith i).check := by
  have hbound := h.bound (by simp [hsta])
  have hoff := h.off (.inr (.inr (.inl hsta)))
  have hallowed := h.not_allowed (by simp [hsta])
  by_cases hclear : s.clear_requested = true
  · have hexe : s.funcExe arith i = { s with clear_requested := false, fsm_event := .idle } := by
      simp [Machine.funcExe, hsta, hclear]
    rw [hexe, check_of_next .idle (by simp [hsta, State.funcChk])]
    simp only [Machine.funcOut, hsta]
    exact .of_off (.inl rfl) rfl (hbound.congr rfl rfl) (hoff.congr rfl rfl rfl) (fun _ => nofun)
      h.count hallowed
  · have hexe : s.funcExe arith i = { s with clear_requested := false } := by
      simp [Machine.funcExe, hsta, hclear]
    have hnone : { s with clear_requested := false }.fsm_event = .none := h.event
    rw [hexe, check_of_none hnone]
    exact .of_off (.inr (.inr hsta)) h.event (hbound.congr rfl rfl) (hoff.congr rfl rfl rfl)
      (fun _ => h.soft (.inr hsta)) h.count hallowed

theorem Inv.check (h : Inv s) (hchange : s.fsm_sta_is_change = false) (i : Input F) :
    Inv (s.funcExe arith i).check := by
  have hkeep : s.funcExe arith i = s → Inv (s.funcExe arith i).check := by
    intro hsame
    rw [hsame, check_of_none h.event]
    exact h
  cases hsta : s.fsm_sta with
  | init =>
    by_cases hready : i.ready = true
    · exact h.check_init hsta hready
    · exact hkeep (by simp [Machine.funcExe, hsta, hready])
  | idle =>
    by_cases hreq : s.run_request = true
    · exact h.check_idle hsta hreq i
    · exact hkeep (by simp [Machine.funcExe, hsta, hreq])
  | softStart =>
    by_cases hreq : s.run_request = true
    · exact h.check_softStart hsta hreq i
    · exact h.check_withdrawn (Bool.eq_false_iff.mpr hreq) (.inl hsta) i
  | mainWait =>
    by_cases hreq : s.run_request = true
    · exact h.check_mainWait hchange hsta hreq i
    · exact h.check_withdrawn (Bool.eq_false_iff.mpr hreq) (.inr (.inl hsta)) i
  | run =>
    by_cases hreq : s.run_request = true
    · have hexe : s.funcExe arith i = { s with run_allowed := true } := by
        simp [Machine.funcExe, hsta, hreq]
      have hnone : { s with run_allowed := true }.fsm_event = .none := h.event
      rw [hexe, check_of_none hnone]
      exact .of_run hsta h.event ((h.bound (by simp [hsta])).congr rfl rfl) h.count
        (h.qualified (.inr hsta)) (h.run hsta)
    · exact h.check_withdrawn (Bool.eq_false_iff.mpr hreq) (.inr (.inr hsta)) i
  | fault => exact h.check_fault hsta i

theorem Inv.step (h : Inv s) (i : Input F) : Inv (s.step arith i) := by
  obtain ⟨henter, hchange, -, -⟩ := h.enter arith i
  exact henter.check hchange i

variable (arith) in
/-- What a call of the library can do to a bound relay. -/
theorem func_spec {r : RlyOn F} (hi : r.inputs = true) (hc : r.callbacks = true)
    (ho : r.rly_off_trig = false) (hon : r.is_on = true → r.sta = .run) :
    let r' := r.func arith.toArith
    r'.1.inputs = true ∧ r'.1.callbacks = true ∧ r'.1.rly_off_trig = false ∧
      (r'.1.is_on = true → r'.1.sta = .run) ∧
      (r'.2 = [] ∧ (r'.1.sta = .run ↔ r.sta = .run) ∧ (r.is_on = true → r'.1.is_on = true) ∨
        r'.2 = [true] ∧ r.sta = .dly ∧ r'.1.sta = .run) := by
  simp only [RlyOn.func, hi, ho]
  cases hsta : r.sta <;> simp [RlyOn.resetRuntime] <;> grind -linarith

/-- The states in which the task of the relay is called. -/
theorem Inv.task_enabled (h : Inv s) (hen : s.main_relay_task_enabled = true) :
    s.fsm_sta = .mainWait ∧ s.fsm_sta_is_change = false ∨ s.fsm_sta = .run := by
  have hout : ¬Off s := fun hoff => absurd (hoff.task.symm.trans hen) nofun
  cases hsta : s.fsm_sta with
  | init => exact absurd ((h.init hsta).symm.trans hen) nofun
  | idle => exact absurd (h.off (.inl hsta)) hout
  | softStart => exact absurd (h.off (.inr (.inl hsta))) hout
  | mainWait =>
    refine .inl ⟨rfl, Bool.eq_false_iff.mpr fun hchange => hout (h.off ?_)⟩
    exact .inr (.inr (.inr ⟨hsta, hchange⟩))
  | run => exact .inr rfl
  | fault => exact absurd (h.off (.inr (.inr (.inl hsta)))) hout

variable (arith) in
/-- What a call of the library in the task does to the machine. -/
theorem Bound.mainRelayTask (h : Bound s) (hen : s.main_relay_task_enabled = true)
    (i : RelayInput F) :
    Bound (s.mainRelayTask arith i) ∧
      (s.main_relay.is_on = true → (s.mainRelayTask arith i).main_relay.is_on = true) ∧
      lastSoftStart (s.mainRelayTask arith i).log = lastSoftStart s.log := by
  have hfunc := func_spec arith
    (r := { s.main_relay with
        is_equal := arith.isEqual i.v_grid_raw i.v_grid_rms, freq := i.f_grid })
    h.inputs h.callbacks h.off_trig h.is_on
  simp only [Machine.mainRelayTask, hen, if_true, Machine.callRelay]
  generalize RlyOn.func _ _ = r' at hfunc
  obtain ⟨inputs, callbacks, off_trig, is_on, hcall⟩ := hfunc
  rcases hcall with ⟨hcall, hrun, hkeep⟩ | ⟨hcall, hdly, hrun⟩
  · rw [hcall]
    exact ⟨⟨inputs, callbacks, off_trig, is_on, fun hsta => h.run (hrun.mp hsta)⟩, hkeep, rfl⟩
  · rw [hcall]
    refine ⟨⟨inputs, callbacks, off_trig, is_on, fun _ => rfl⟩, fun hon => ?_, rfl⟩
    exact absurd ((h.is_on hon).symm.trans hdly) nofun

theorem Inv.mainRelayTask (h : Inv s) (i : RelayInput F) : Inv (s.mainRelayTask arith i) := by
  by_cases hen : s.main_relay_task_enabled = true
  case neg => simpa [Machine.mainRelayTask, hen] using h
  have hframe : (s.mainRelayTask arith i) = { s with
      main_relay := (s.mainRelayTask arith i).main_relay
      log := (s.mainRelayTask arith i).log } := by
    simp [Machine.mainRelayTask, hen, Machine.callRelay]
  rcases h.task_enabled hen with ⟨hsta, hchange⟩ | hsta
  · obtain ⟨hbound, hkeep, hsoft⟩ := (h.bound (by simp [hsta])).mainRelayTask arith hen i
    rw [hframe] at hbound ⊢
    refine .of_mainWait hsta h.event hbound (fun hnew => absurd (hchange.symm.trans hnew) nofun)
      h.count (h.qualified (.inl hsta)) (fun _ hwait => ?_) (h.not_allowed (by simp [hsta]))
    obtain ⟨hon, hlast⟩ := h.wait hsta hchange hwait
    exact ⟨hkeep hon, hsoft.trans hlast⟩
  · obtain ⟨hbound, hkeep, hsoft⟩ := (h.bound (by simp [hsta])).mainRelayTask arith hen i
    obtain ⟨hon, hlast⟩ := h.run hsta
    rw [hframe] at hbound ⊢
    exact .of_run hsta h.event hbound h.count (h.qualified (.inr hsta))
      ⟨hkeep hon, hsoft.trans hlast⟩

/-- A request is stored. -/
theorem Inv.store (h : Inv s) (clear_requested run_request : Bool) (clearing : ℕ) :
    Inv { s with
      clear_requested := clear_requested, run_request := run_request, clearing := clearing } where
  event := h.event
  init := h.init
  bound := fun hsta => (h.bound hsta).congr rfl rfl
  off := fun hsta => (h.off hsta).congr rfl rfl rfl
  soft := h.soft
  count := h.count
  qualified := h.qualified
  wait := h.wait
  run := h.run
  allowed := h.allowed

theorem Inv.exec (h : Inv s) (event : Event F) : Inv (s.exec arith event) := by
  cases event with
  | step i => exact h.step i
  | mainRelayTask i => exact h.mainRelayTask i
  | setRunRequest request =>
    simp only [Machine.exec]
    split
    · exact h
    · exact h.store _ _ _
  | clearFault =>
    simp only [Machine.exec]
    split
    · exact h
    · exact h.store _ _ _
  | storeClear =>
    simp only [Machine.exec]
    split
    · exact h
    · exact h.store _ _ _

theorem inv_of_reachable (hs : (machineRuns arith).Reachable s) : Inv s := by
  refine hs.invariant ?_ ?_
  · rintro _ ⟨f, rfl⟩
    exact .reset f
  · rintro s _ h ⟨event, rfl⟩
    exact h.exec event

section Closings

/-- How often the main relay has been closed -/
def closings (log : List Callback) : ℕ := log.count (.mainRelay true)

@[simp] theorem closings_cons {callback : Callback} (log : List Callback)
    (h : callback ≠ .mainRelay true) : closings (callback :: log) = closings log := by
  simp [closings, h]

@[simp] theorem closings_mainRelayForceOff : closings s.mainRelayForceOff.log = closings s.log := by
  simp only [Machine.mainRelayForceOff, Machine.callRelay, RlyOn.forceOff, closings]
  grind -linarith

/-- A step does not close the relay. -/
theorem closings_step (i : Input F) : closings (s.step arith i).log = closings s.log := by
  have henter : closings (s.enter arith i).log = closings s.log := by
    unfold Machine.enter Machine.funcIn
    split
    · split <;> simp
      split <;> rfl
    · rfl
  have hexe : ∀ s : Machine F, closings (s.funcExe arith i).log = closings s.log := by
    intro s
    unfold Machine.funcExe
    split <;> split <;> try rfl
    unfold Machine.mainWaitCount
    split
    · by_cases h0 : s.main_relay_wait_ms = 0 <;> simp [h0]
    · rfl
  have hcheck : ∀ s : Machine F, closings s.check.log = closings s.log := by
    intro s
    unfold Machine.check Machine.funcOut
    split
    · rfl
    · split
      · dsimp only
        split <;> (try split) <;> simp
      · rfl
  rw [Machine.step, hcheck, hexe, henter]

end Closings

/-- The library closes the relay in `dly` only, so not in `run`. -/
theorem Inv.closing (h : Inv s) {event : Event F}
    (hne : closings (s.exec arith event).log ≠ closings s.log) :
    s.fsm_sta = .mainWait ∧ softStartMs ≤ balance s.verdicts := by
  cases event with
  | step i => exact absurd (closings_step i) hne
  | setRunRequest request =>
    simp only [Machine.exec] at hne
    split at hne <;> exact absurd rfl hne
  | clearFault => simp only [Machine.exec] at hne; split at hne <;> exact absurd rfl hne
  | storeClear => simp only [Machine.exec] at hne; split at hne <;> exact absurd rfl hne
  | mainRelayTask i =>
    simp only [Machine.exec, Machine.mainRelayTask] at hne
    split at hne
    case isFalse => exact absurd rfl hne
    rename_i hen
    cases hsta : s.fsm_sta with
    | mainWait => exact ⟨rfl, h.qualified (.inl hsta)⟩
    | init => simp [h.init hsta] at hen
    | run =>
      obtain ⟨inputs, callbacks, off_trig, is_on, closed⟩ := h.bound (by simp [hsta])
      have hfunc := func_spec arith
        (r := { s.main_relay with
            is_equal := arith.isEqual i.v_grid_raw i.v_grid_rms, freq := i.f_grid })
        inputs callbacks off_trig is_on
      rcases hfunc.2.2.2.2 with ⟨hcall, -⟩ | ⟨-, hdly, -⟩
      · simp [Machine.callRelay, hcall] at hne
      · have := is_on (h.run hsta).1
        simp_all
    | idle => simp [(h.off (.inl hsta)).task] at hen
    | softStart => simp [(h.off (.inr (.inl hsta))).task] at hen
    | fault => simp [(h.off (.inr (.inr (.inl hsta)))).task] at hen

variable (arith) in
/-- Without a request a step leads to `idle`. -/
theorem Inv.step_withdrawn (h : Inv s) (hreq : s.run_request = false) (hinit : s.fsm_sta ≠ .init)
    (hfault : s.fsm_sta ≠ .fault) (i : Input F) :
    (s.step arith i).fsm_sta = .idle ∧ (s.step arith i).run_request = false := by
  obtain ⟨henter, hchange, hsta, hreq'⟩ := h.enter arith i
  rw [Machine.step]
  generalize s.enter arith i = t at *
  have hevent := henter.event
  rw [hreq] at hreq'
  cases hs : s.fsm_sta <;>
    simp_all [Machine.funcExe, Machine.check, State.funcChk, Machine.funcOut]

variable (arith) in
/-- A step of another context leaves the state, and renews no request. -/
theorem exec_withdrawn {event : Event F} (hstep : ∀ i, event ≠ .step i)
    (hrenew : event ≠ .setRunRequest 1) (hreq : s.run_request = false) :
    (s.exec arith event).fsm_sta = s.fsm_sta ∧ (s.exec arith event).run_request = false := by
  cases event with
  | step i => exact absurd rfl (hstep i)
  | mainRelayTask i =>
    simp only [Machine.exec, Machine.mainRelayTask]
    split <;> exact ⟨rfl, hreq⟩
  | setRunRequest request =>
    have : request ≠ 1 := by simpa using hrenew
    simp only [Machine.exec]
    split
    · exact ⟨rfl, hreq⟩
    · exact ⟨rfl, by simp; omega⟩
  | clearFault => simp only [Machine.exec]; split <;> exact ⟨rfl, hreq⟩
  | storeClear => simp only [Machine.exec]; split <;> exact ⟨rfl, hreq⟩

variable (arith) in
/-- Once in `idle`, the machine stays there without a request. -/
theorem idle_of_withdrawn {events : List (Event F)} (h : Inv s) (hreq : s.run_request = false)
    (hsta : s.fsm_sta = .idle ∨ s.fsm_sta ≠ .init ∧ s.fsm_sta ≠ .fault ∧ ∃ i, .step i ∈ events)
    (hrenew : .setRunRequest 1 ∉ events) :
    (events.foldl (Machine.exec arith) s).fsm_sta = .idle ∧
      Inv (events.foldl (Machine.exec arith) s) := by
  induction events generalizing s with
  | nil => exact ⟨by simpa using hsta, h⟩
  | cons event events ih =>
    obtain ⟨hne, hrest⟩ := not_or.mp (mt List.mem_cons.mpr hrenew)
    have hout : s.fsm_sta ≠ .init ∧ s.fsm_sta ≠ .fault := by
      rcases hsta with hsta | hsta
      · simp [hsta]
      · exact ⟨hsta.1, hsta.2.1⟩
    by_cases hstep : ∃ i, event = .step i
    · obtain ⟨i, rfl⟩ := hstep
      obtain ⟨hidle, hreq'⟩ := h.step_withdrawn arith hreq hout.1 hout.2 i
      exact ih (h.exec (.step i)) hreq' (.inl hidle) hrest
    · obtain ⟨hsame, hreq'⟩ := exec_withdrawn arith (fun i h => hstep ⟨i, h⟩)
        (Ne.symm hne) hreq
      refine ih (h.exec event) hreq' ?_ hrest
      rw [hsame]
      rcases hsta with hsta | ⟨hinit, hfault, i, hi⟩
      · exact .inl hsta
      · have hi : .step i ∈ events :=
          (List.mem_cons.mp hi).resolve_left fun h => hstep ⟨i, h.symm⟩
        exact .inr ⟨hinit, hfault, i, hi⟩

/-- The order of the power-up. A withdrawn request is answered by the next step. -/
theorem power_up_sequencing (hs : (machineRuns arith).Reachable s) (hinit : s.fsm_sta ≠ .init) :
    (s.run_allowed = true → s.fsm_sta = .run ∧ lastMain s.log = some true ∧
      s.main_relay.is_on = true ∧ lastSoftStart s.log = some false) ∧
    (∀ event, closings (s.exec arith event).log ≠ closings s.log →
      s.fsm_sta = .mainWait ∧ softStartMs ≤ balance s.verdicts) ∧
    (s.fsm_sta = .idle ∨ s.fsm_sta = .fault → s.fsm_sta_is_change = false →
      lastMain s.log = some false ∧ lastSoftStart s.log = some false ∧
        ∀ i, (s.mainRelayTask arith i).log = s.log) ∧
    (s.run_request = false → s.fsm_sta ≠ .fault → ∀ events : List (Event F),
      .setRunRequest 1 ∉ events → (∃ i, .step i ∈ events) →
        (events.foldl (Machine.exec arith) s).fsm_sta = .idle ∧
          (events.foldl (Machine.exec arith) s).run_allowed = false) := by
  have h := inv_of_reachable hs
  refine ⟨fun hrun => ?_, fun event => h.closing, fun hsta hchange => ?_, ?_⟩
  · have hsta := h.allowed hrun
    obtain ⟨hon, hsoft⟩ := h.run hsta
    have hbound := h.bound hinit
    exact ⟨hsta, hbound.run (hbound.is_on hon), hon, hsoft⟩
  · have hoff : Off s := h.off (by grind -linarith)
    exact ⟨hoff.last, h.soft hsta hchange, fun i => by simp [Machine.mainRelayTask, hoff.task]⟩
  · intro hreq hfault events hrenew hstep
    obtain ⟨hidle, hend⟩ :=
      idle_of_withdrawn arith h hreq (.inr ⟨hinit, hfault, hstep⟩) hrenew
    refine ⟨hidle, Bool.eq_false_iff.mpr fun hrun => ?_⟩
    simpa [hidle] using hend.allowed hrun

/-- A grid of 50 Hz, in whole volts. -/
def demoArith : Arith ℕ where
  dly _ _ _ := 120
  on_confirm _ _ := 80
  above v_bus_raw v_grid_rms := decide (12728 * v_grid_rms < 10000 * ∑ cell, v_bus_raw cell)
  isEqual v_grid_raw v_grid_rms := decide (10000 * v_grid_raw ≤ 283 * v_grid_rms)
  relayTaskHz := 10000
  mainRelayOnTimeS := 0

def demoStep : Event ℕ := .step ⟨true, fun _ => 70, 230, 50⟩

/-- Power-up, a request, and the first steps of the soft start. -/
def demoMachine : Machine ℕ :=
  [demoStep, demoStep, .setRunRequest 1, demoStep, demoStep, demoStep, .setRunRequest 0].foldl
    (Machine.exec demoArith) (.reset 50)

/-- A start that is withdrawn. -/
theorem power_up_withdrawn :
    demoMachine.fsm_sta = .softStart ∧ demoMachine.verdicts = [true, true] ∧
      ([.mainRelayTask ⟨2, 230, 50⟩, demoStep].foldl (Machine.exec demoArith)
        demoMachine).fsm_sta = .idle := by
  have hs : (machineRuns demoArith).Reachable demoMachine :=
    Transition.Reachable.foldl (T := machineRuns demoArith) (fun _ event => ⟨event, rfl⟩) _
      (.start ⟨50, rfl⟩)
  refine ⟨by decide +kernel, by decide +kernel, ?_⟩
  exact ((power_up_sequencing hs (by decide +kernel)).2.2.2 (by decide +kernel) (by decide +kernel)
    [.mainRelayTask ⟨2, 230, 50⟩, demoStep] (by simp [demoStep]) ⟨_, .tail _ (.head _)⟩).1

end Atoman.Chb
