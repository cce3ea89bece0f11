import Atoman.Pfc.Machine

/-!
# What a step of the PFC controller keeps

The place of the task says which state and which event it works on. Running is allowed only in
`run`, whose exit takes the flags down, and `idle` has the relay off behind its entry.
-/

namespace Atoman.Pfc

/-- The actions that are left of the entry of a state. -/
def Pc.entry : Pc → List Action
  | .entering actions => actions
  | _ => []

namespace Machine
variable (s : Machine)

@[simp] theorem act_frame (action : Action) :
    (s.act action).fsm_ev = s.fsm_ev ∧ (s.act action).fsm_cmd = s.fsm_cmd ∧
      (s.act action).fsm_sta = s.fsm_sta ∧
      (s.act action).fsm_sta_is_change = s.fsm_sta_is_change ∧
      (s.act action).watch.issued = s.watch.issued ∧ (s.act action).watch.slot = s.watch.slot ∧
      (s.act action).watch.stopped = s.watch.stopped ∧
      (s.act action).watch.steps = s.watch.steps ∧
      (s.act action).watch.counting = s.watch.counting := by
  cases action <;> simp [act, release]
  split <;> simp

end Machine

/-- What the place of the task says about the state and the event. -/
def Placed (hal : Hal) (sta : Sta) (ev : Ev) : Pc → Prop
  | .entering actions => ev = .null ∧ actions <:+ sta.funcIn hal
  | .starting actions =>
    ev = .null ∧ sta = .idle ∧ hal.isReady = true ∧
      actions <:+ [.setRunAllowed false, .publishBuilding]
  | .check => True
  | .leaving actions next => sta.funcChk ev = some next ∧ actions <:+ sta.funcOut hal
  | _ => ev = .null

/-- What holds of the step itself, whatever the other contexts do. -/
structure Shape (hal : Hal) (s : Machine) : Prop where
  placed : Placed hal s.fsm_sta s.fsm_ev s.pc
  change : s.pc ≠ .rest → s.fsm_sta_is_change = false
  ready : s.fsm_sta.Active ∨ s.fsm_ev = .toSoftStart → hal.isReady = true

theorem Shape.reset (hal : Hal) : Shape hal .reset where
  placed := rfl
  change := fun h => absurd rfl h
  ready := by simp [Machine.reset, Sta.Active]

variable {hal : Hal} {s : Machine}

theorem Shape.at_pc (h : Shape hal s) {pc : Pc} (hpc : s.pc = pc) :
    Placed hal s.fsm_sta s.fsm_ev pc := hpc ▸ h.placed

/-- `func_exe` up to the read either stays in `init` or reads the slot. -/
theorem execute_cases (s : Machine) (i : Input) :
    (s.fsm_sta = .init ∧ ∃ dly ev, (ev = s.fsm_ev ∨ ev = .toIdle) ∧
      s.execute i = { s with init_dly := dly, fsm_ev := ev, pc := .check }) ∨
    (s.fsm_sta ≠ .init ∧ ∃ soft rly stopped,
      (stopped = s.watch.stopped ∨ s.fsm_sta = .idle ∧ s.fsm_cmd = .start ∧ stopped = none) ∧
      (s.fsm_sta = .idle → s.fsm_cmd = .start → s.watch.stopped.all (· < s.watch.slot) = true →
        stopped = none) ∧
      s.execute i =
        { s with
          soft_start_dly := soft
          main_rly_dly := rly
          pc := .clear s.fsm_cmd
          watch := { s.watch with stopped := stopped } }) := by
  cases hsta : s.fsm_sta with
  | init =>
    refine .inl ⟨rfl, ?_⟩
    simp only [Machine.execute, hsta]
    split_ifs
    · exact ⟨_, s.fsm_ev, .inl rfl, rfl⟩
    · exact ⟨s.init_dly, .toIdle, .inr rfl, rfl⟩
    · exact ⟨s.init_dly, s.fsm_ev, .inl rfl, rfl⟩
  | idle =>
    refine .inr ⟨by simp, s.soft_start_dly, s.main_rly_dly,
      if s.fsm_cmd = .start ∧ s.watch.stopped.all (· < s.watch.slot) = true then none
      else s.watch.stopped, ?_, fun _ hcmd hall => if_pos ⟨hcmd, hall⟩, ?_⟩
    · split_ifs with htaken
      · exact .inr ⟨rfl, htaken.1, rfl⟩
      · exact .inl rfl
    · simp only [Machine.execute, hsta]
  | softStart =>
    refine .inr ⟨by simp,
      if s.soft_start_dly < 5000 then s.soft_start_dly + 1 else s.soft_start_dly,
      s.main_rly_dly, s.watch.stopped, .inl rfl, by simp, ?_⟩
    simp only [Machine.execute, hsta]
  | mainRly =>
    refine .inr ⟨by simp, s.soft_start_dly,
      if s.main_rly_dly < 3000 then s.main_rly_dly + 1 else s.main_rly_dly, s.watch.stopped,
      .inl rfl, by simp, ?_⟩
    simp only [Machine.execute, hsta]
  | run =>
    refine .inr ⟨by simp, s.soft_start_dly, s.main_rly_dly, s.watch.stopped, .inl rfl, by simp, ?_⟩
    simp only [Machine.execute, hsta]

theorem funcChk_cases {sta next : Sta} {ev : Ev} (h : sta.funcChk ev = some next) :
    next = .idle ∧ ev = .toIdle ∨ sta = .idle ∧ ev = .toSoftStart ∧ next = .softStart ∨
      sta = .softStart ∧ ev = .toMainRly ∧ next = .mainRly ∨
      sta = .mainRly ∧ ev = .toRun ∧ next = .run := by
  cases sta <;> cases ev <;> simp_all [Sta.funcChk]

variable (hal) in
theorem event_of_stop (h : s.fsm_sta.Active) (i : Input) : s.event hal i .stop = .toIdle := by
  rcases h with h | h | h <;> simp [Machine.event, h]

variable (hal s) in
theorem event_ne_toSoftStart (i : Input) (temp : Cmd) : s.event hal i temp ≠ .toSoftStart := by
  unfold Machine.event
  split <;> repeat' split
  all_goals simp

/-! ## The step itself -/

/-- One of the actions in a row. -/
theorem Shape.act (h : Shape hal s) (action : Action) {pc : Pc}
    (placed : Placed hal s.fsm_sta s.fsm_ev pc) (hchange : s.fsm_sta_is_change = false) :
    Shape hal { s.act action with pc := pc } where
  placed := by simpa using placed
  change := fun _ => by simpa using hchange
  ready := by simpa using h.ready

theorem Shape.exe_step (h : Shape hal s) (hpc : s.pc = .exe) (i : Input) :
    Shape hal (s.execute i) := by
  have hnull : s.fsm_ev = .null := h.at_pc hpc
  have hchange := h.change (by simp [hpc])
  rcases execute_cases s i with ⟨hinit, dly, ev, hev, heq⟩ | ⟨-, soft, rly, stopped, -, -, heq⟩
  · rw [heq]
    refine ⟨trivial, fun _ => hchange, ?_⟩
    rintro (hactive | rfl)
    · exact h.ready (.inl hactive)
    · exact h.ready (.inr (hev.resolve_right (by simp)).symm)
  · rw [heq]
    exact ⟨hnull, fun _ => hchange, h.ready⟩

theorem Shape.check_step (h : Shape hal s) (hpc : s.pc = .check) (i : Input) :
    Shape hal (s.step hal i) := by
  simp only [Machine.step, hpc]
  cases hchk : s.fsm_sta.funcChk s.fsm_ev with
  | some next =>
    exact ⟨⟨hchk, List.suffix_refl _⟩, fun _ => h.change (by simp [hpc]), h.ready⟩
  | none =>
    exact ⟨rfl, fun hne => absurd rfl hne, fun hr =>
      h.ready (.inl (hr.resolve_right fun h => by cases h))⟩

/-- The state is entered whose event has been checked. -/
theorem Shape.leave (h : Shape hal s) {next : Sta} (hpc : s.pc = .leaving [] next) (i : Input) :
    Shape hal (s.step hal i) := by
  obtain ⟨hchk, -⟩ := h.at_pc hpc
  simp only [Machine.step, hpc]
  refine ⟨rfl, fun hne => absurd rfl hne, fun hr => ?_⟩
  have hnext : next.Active := hr.resolve_right fun h => by cases h
  rcases funcChk_cases hchk with ⟨rfl, -⟩ | ⟨-, hev, -⟩ | ⟨hsta, -, -⟩ | ⟨hsta, -, -⟩
  · exact absurd hnext (by decide)
  · exact h.ready (.inr hev)
  · exact h.ready (.inl (.inl hsta))
  · exact h.ready (.inl (.inr (.inl hsta)))

theorem Shape.step (h : Shape hal s) (i : Input) : Shape hal (s.step hal i) := by
  cases hpc : s.pc with
  | rest =>
    have hnull : s.fsm_ev = .null := h.at_pc hpc
    simp only [Machine.step, hpc]
    split_ifs with hchange
    · exact ⟨⟨hnull, List.suffix_refl _⟩, fun _ => rfl, h.ready⟩
    · exact ⟨hnull, fun _ => Bool.eq_false_iff.mpr hchange, h.ready⟩
  | entering actions =>
    obtain ⟨hnull, hin⟩ := h.at_pc hpc
    have hchange := h.change (by simp [hpc])
    cases actions with
    | nil =>
      simp only [Machine.step, hpc]
      exact ⟨hnull, fun _ => hchange, h.ready⟩
    | cons action actions =>
      simp only [Machine.step, hpc]
      exact h.act action ⟨hnull, (List.suffix_cons ..).trans hin⟩ hchange
  | exe =>
    simp only [Machine.step, hpc]
    exact h.exe_step hpc i
  | clear temp =>
    have hnull : s.fsm_ev = .null := h.at_pc hpc
    simp only [Machine.step, hpc]
    exact ⟨hnull, fun _ => h.change (by simp [hpc]), h.ready⟩
  | decide temp =>
    have hnull : s.fsm_ev = .null := h.at_pc hpc
    have hchange := h.change (by simp [hpc])
    simp only [Machine.step, hpc]
    split_ifs with hstart
    · exact ⟨⟨hnull, hstart.1, hstart.2.2, List.suffix_refl _⟩, fun _ => hchange, h.ready⟩
    · exact ⟨trivial, fun _ => hchange, fun hr =>
        h.ready (.inl (hr.resolve_right (event_ne_toSoftStart hal s i temp)))⟩
  | starting actions =>
    obtain ⟨hnull, hidle, hready, hsuffix⟩ := h.at_pc hpc
    have hchange := h.change (by simp [hpc])
    cases actions with
    | nil =>
      simp only [Machine.step, hpc]
      exact ⟨trivial, fun _ => hchange, fun _ => hready⟩
    | cons action actions =>
      simp only [Machine.step, hpc]
      exact h.act action ⟨hnull, hidle, hready, (List.suffix_cons ..).trans hsuffix⟩ hchange
  | check => exact h.check_step hpc i
  | leaving actions next =>
    cases actions with
    | nil => exact h.leave hpc i
    | cons action actions =>
      obtain ⟨hchk, hout⟩ := h.at_pc hpc
      simp only [Machine.step, hpc]
      exact h.act action ⟨hchk, (List.suffix_cons ..).trans hout⟩ (h.change (by simp [hpc]))

theorem Shape.exec (h : Shape hal s) (event : Event) : Shape hal (s.exec hal event) := by
  cases event with
  | step i => exact h.step i
  | setCmd start => exact ⟨h.placed, h.change, h.ready⟩
  | trip => exact ⟨h.placed, h.change, h.ready⟩
  | tripStop =>
    simp only [Machine.exec]
    split
    · exact h
    · exact ⟨h.placed, h.change, h.ready⟩

/-- Running is allowed only in `run`, up to its exit. -/
structure Allowed (s : Machine) : Prop where
  run : s.building_run_allowed = true ∨ s.active_run_allowed = true → s.fsm_sta = .run
  exit : ∀ actions next, s.pc = .leaving actions next →
    (.setRunAllowed false ∉ actions → s.building_run_allowed = false) ∧
      (.publishBuilding ∉ actions → s.active_run_allowed = false)

/-- The relay is off in `idle`, behind its entry. -/
def RelayOff (s : Machine) : Prop :=
  s.fsm_sta = .idle → s.fsm_sta_is_change = false → .mainRlyOff ∉ s.pc.entry →
    s.watch.relay = some false

theorem suffix_four {a b c d : Action} {l : List Action} (h : l <:+ [a, b, c, d]) :
    l = [a, b, c, d] ∨ l = [b, c, d] ∨ l = [c, d] ∨ l = [d] ∨ l = [] := by
  simpa [List.suffix_cons_iff] using h

theorem hook_of_isReady (h : hal.isReady = true) :
    hal.p_main_rly_on_func = true ∧ hal.p_main_rly_off_func = true ∧
      hal.p_main_rly_is_closed = true ∧ hal.p_pwm_enable = true ∧ hal.p_pwm_disable = true := by
  simp only [Hal.isReady, Bool.and_eq_true] at h
  simp [h]

theorem funcIn_run (h : hal.isReady = true) :
    Sta.run.funcIn hal = [.setRunAllowed true, .publishBuilding, .pwmEnable, .mainRlyOn] := by
  simp [Sta.funcIn, hook, hook_of_isReady h]

theorem funcIn_idle (h : hal.isReady = true) :
    Sta.idle.funcIn hal = [.unlockBinding, .mainRlyOff] := by
  simp [Sta.funcIn, hook, hook_of_isReady h]

theorem funcOut_run (h : hal.isReady = true) :
    Sta.run.funcOut hal = [.pwmDisable, .mainRlyOff, .setRunAllowed false, .publishBuilding] := by
  simp [Sta.funcOut, hook, hook_of_isReady h]

/-- What one action does to the run flags. -/
theorem act_building (action : Action) :
    (s.act action).building_run_allowed =
      match action with
      | .setRunAllowed run_allowed => run_allowed
      | _ => s.building_run_allowed := by
  cases action <;> simp [Machine.act, Machine.release]
  split <;> rfl

theorem act_active (action : Action) :
    (s.act action).active_run_allowed =
      if action = .publishBuilding then s.building_run_allowed else s.active_run_allowed := by
  cases action <;> simp [Machine.act, Machine.release]
  split <;> simp_all

theorem act_relay (action : Action) :
    (s.act action).watch.relay =
      match action with
      | .mainRlyOn => some true
      | .mainRlyOff => some false
      | _ => s.watch.relay := by
  cases action <;> simp [Machine.act, Machine.release]
  split <;> rfl

theorem Shape.mem_funcIn (h : Shape hal s) {action : Action} {actions : List Action}
    (hpc : s.pc = .entering (action :: actions)) : action ∈ s.fsm_sta.funcIn hal :=
  (h.at_pc hpc).2.subset List.mem_cons_self

/-- Only the entry of `run` allows running and enables the PWM. -/
theorem funcIn_of_ne_run {sta : Sta} (h : sta ≠ .run) {action : Action}
    (hin : action ∈ sta.funcIn hal) :
    (∀ run_allowed, action ≠ .setRunAllowed run_allowed) ∧ action ≠ .publishBuilding ∧
      action ≠ .pwmEnable := by
  cases sta <;> simp [Sta.funcIn, hook] at hin <;> grind -linarith

/-- Behind the other states nothing is done but to lock the binding. -/
theorem funcOut_of_ne_run {sta : Sta} (h : sta ≠ .run) {action : Action}
    (hout : action ∈ sta.funcOut hal) : action = .lockBinding := by
  cases sta <;> simp_all [Sta.funcOut]

/-! ## Running allowed -/

namespace Allowed

theorem flags_of_ne_run (h : Allowed s) (hsta : s.fsm_sta ≠ .run) :
    s.building_run_allowed = false ∧ s.active_run_allowed = false :=
  ⟨Bool.eq_false_iff.mpr fun hflag => hsta (h.run (.inl hflag)),
    Bool.eq_false_iff.mpr fun hflag => hsta (h.run (.inr hflag))⟩

/-- The task goes on within the state, and no action is done. -/
theorem frame (h : Allowed s) {t : Machine} (hsta : t.fsm_sta = s.fsm_sta)
    (hbuilding : t.building_run_allowed = s.building_run_allowed)
    (hactive : t.active_run_allowed = s.active_run_allowed)
    (hpc : ∀ actions next, t.pc ≠ .leaving actions next) : Allowed t where
  run := by
    rw [hbuilding, hactive, hsta]
    exact h.run
  exit := fun actions next hleaving => absurd hleaving (hpc actions next)

/-- Flags that are down stay down under an action that does not allow running. -/
theorem act_down (action : Action) (hbuilding : s.building_run_allowed = false)
    (hactive : s.active_run_allowed = false) (hset : action ≠ .setRunAllowed true) :
    (s.act action).building_run_allowed = false ∧ (s.act action).active_run_allowed = false := by
  rw [act_building, act_active]
  constructor
  · cases action with
    | setRunAllowed run_allowed => exact Bool.eq_false_iff.mpr fun h => hset (h ▸ rfl)
    | _ => exact hbuilding
  · split_ifs
    · exact hbuilding
    · exact hactive

theorem of_down {t : Machine} (hbuilding : t.building_run_allowed = false)
    (hactive : t.active_run_allowed = false) : Allowed t where
  run := by simp [hbuilding, hactive]
  exit := fun _ _ _ => ⟨fun _ => hbuilding, fun _ => hactive⟩

theorem entering_step (h : Allowed s) (hs : Shape hal s) {action : Action} {actions : List Action}
    (hpc : s.pc = .entering (action :: actions)) :
    Allowed { s.act action with pc := .entering actions } := by
  by_cases hrun : s.fsm_sta = .run
  · exact ⟨fun _ => by simpa using hrun, by simp⟩
  · obtain ⟨hset, -, -⟩ := funcIn_of_ne_run hrun (hs.mem_funcIn hpc)
    obtain ⟨hbuilding, hactive⟩ := h.flags_of_ne_run hrun
    obtain ⟨hbuilding', hactive'⟩ := act_down _ hbuilding hactive (hset true)
    exact of_down hbuilding' hactive'

theorem starting_step (h : Allowed s) (hs : Shape hal s) {action : Action} {actions : List Action}
    (hpc : s.pc = .starting (action :: actions)) :
    Allowed { s.act action with pc := .starting actions } := by
  obtain ⟨-, hidle, -, hsuffix⟩ := hs.at_pc hpc
  have hin := hsuffix.subset List.mem_cons_self
  obtain ⟨hbuilding, hactive⟩ := h.flags_of_ne_run (by simp [hidle])
  obtain ⟨hbuilding', hactive'⟩ := act_down action hbuilding hactive (by
    rintro rfl
    simp at hin)
  exact of_down hbuilding' hactive'

/-- The exit of `run` takes the flags down, one after the other. -/
theorem leaving_run (h : Allowed s) (hs : Shape hal s) (hrun : s.fsm_sta = .run) {action : Action}
    {actions : List Action} {next : Sta} (hpc : s.pc = .leaving (action :: actions) next) :
    Allowed { s.act action with pc := .leaving actions next } := by
  refine ⟨fun _ => by simpa using hrun, ?_⟩
  rintro _ _ ⟨⟩
  obtain ⟨-, hout⟩ := hs.at_pc hpc
  rw [hrun, funcOut_run (hs.ready (.inl (.inr (.inr hrun))))] at hout
  have hexit := h.exit _ _ hpc
  rcases suffix_four hout with heq | heq | heq | heq | heq
  · obtain ⟨rfl, rfl⟩ := List.cons.inj heq
    exact ⟨fun hset => absurd hset (by simp), fun hpublish => absurd hpublish (by simp)⟩
  · obtain ⟨rfl, rfl⟩ := List.cons.inj heq
    exact ⟨fun hset => absurd hset (by simp), fun hpublish => absurd hpublish (by simp)⟩
  · obtain ⟨rfl, rfl⟩ := List.cons.inj heq
    exact ⟨fun _ => act_building _, fun hpublish => absurd hpublish (by simp)⟩
  · obtain ⟨rfl, rfl⟩ := List.cons.inj heq
    have hbuilding : s.building_run_allowed = false := hexit.1 (by simp)
    exact ⟨fun _ => (act_building _).trans hbuilding, fun _ => by simp [act_active, hbuilding]⟩
  · exact absurd heq (List.cons_ne_nil _ _)

theorem leaving_step (h : Allowed s) (hs : Shape hal s) {action : Action}
    {actions : List Action} {next : Sta} (hpc : s.pc = .leaving (action :: actions) next) :
    Allowed { s.act action with pc := .leaving actions next } := by
  by_cases hrun : s.fsm_sta = .run
  · exact h.leaving_run hs hrun hpc
  · have hlock := funcOut_of_ne_run hrun ((hs.at_pc hpc).2.subset List.mem_cons_self)
    obtain ⟨hbuilding, hactive⟩ := h.flags_of_ne_run hrun
    obtain ⟨hbuilding', hactive'⟩ := act_down action hbuilding hactive (by simp [hlock])
    exact of_down hbuilding' hactive'

theorem check_step (h : Allowed s) (hs : Shape hal s) (hpc : s.pc = .check) (i : Input) :
    Allowed (s.step hal i) := by
  simp only [Machine.step, hpc]
  cases hchk : s.fsm_sta.funcChk s.fsm_ev with
  | none => exact h.frame rfl rfl rfl fun _ _ h => by cases h
  | some next =>
    by_cases hrun : s.fsm_sta = .run
    · refine ⟨h.run, ?_⟩
      rintro _ _ ⟨⟩
      rw [hrun, funcOut_run (hs.ready (.inl (.inr (.inr hrun))))]
      exact ⟨fun hset => absurd hset (by simp), fun hpublish => absurd hpublish (by simp)⟩
    · obtain ⟨hbuilding, hactive⟩ := h.flags_of_ne_run hrun
      exact of_down hbuilding hactive

theorem step (h : Allowed s) (hs : Shape hal s) (i : Input) : Allowed (s.step hal i) := by
  cases hpc : s.pc with
  | rest =>
    simp only [Machine.step, hpc]
    split
    · exact h.frame rfl rfl rfl (by simp)
    · exact h.frame rfl rfl rfl (by simp)
  | entering actions =>
    simp only [Machine.step, hpc]
    cases actions with
    | nil => exact h.frame rfl rfl rfl (by simp)
    | cons action actions => exact h.entering_step hs hpc
  | exe =>
    simp only [Machine.step, hpc]
    rcases execute_cases s i with ⟨-, dly, ev, -, heq⟩ | ⟨-, soft, rly, stopped, -, -, heq⟩
    · rw [heq]
      exact h.frame rfl rfl rfl (by simp)
    · rw [heq]
      exact h.frame rfl rfl rfl (by simp)
  | clear temp =>
    simp only [Machine.step, hpc]
    exact h.frame rfl rfl rfl (by simp)
  | decide temp =>
    simp only [Machine.step, hpc]
    split
    · exact h.frame rfl rfl rfl (by simp)
    · exact h.frame rfl rfl rfl (by simp)
  | starting actions =>
    simp only [Machine.step, hpc]
    cases actions with
    | nil => exact h.frame rfl rfl rfl (by simp)
    | cons action actions => exact h.starting_step hs hpc
  | check => exact h.check_step hs hpc i
  | leaving actions next =>
    simp only [Machine.step, hpc]
    cases actions with
    | nil =>
      obtain ⟨hbuilding, hactive⟩ := h.exit _ _ hpc
      exact of_down (hbuilding (by simp)) (hactive (by simp))
    | cons action actions => exact h.leaving_step hs hpc

end Allowed

/-! ## The relay in `idle` -/

namespace RelayOff

/-- The relay hooks are left alone. -/
theorem frame (h : RelayOff s) {t : Machine} (hsta : t.fsm_sta = s.fsm_sta)
    (hchange : t.fsm_sta_is_change = s.fsm_sta_is_change) (hentry : t.pc.entry = s.pc.entry)
    (hrelay : t.watch.relay = s.watch.relay) : RelayOff t := by
  unfold RelayOff
  rw [hsta, hchange, hentry, hrelay]
  exact h

theorem entering_step (h : RelayOff s) (hs : Shape hal s) (hready : hal.isReady = true)
    {action : Action} {actions : List Action} (hpc : s.pc = .entering (action :: actions)) :
    RelayOff { s.act action with pc := .entering actions } := by
  intro hidle hchange hlater
  have hidle : s.fsm_sta = .idle := by simpa using hidle
  have hin := hs.mem_funcIn hpc
  rw [hidle, funcIn_idle hready] at hin
  by_cases hoff : action = .mainRlyOff
  · subst hoff
    exact act_relay _
  · obtain rfl : action = .unlockBinding := by simpa [hoff] using hin
    refine h hidle (by simpa using hchange) ?_
    simpa [hpc, Pc.entry] using hlater

theorem starting_step (h : RelayOff s) (hs : Shape hal s) {action : Action}
    {actions : List Action} (hpc : s.pc = .starting (action :: actions)) :
    RelayOff { s.act action with pc := .starting actions } := by
  obtain ⟨-, -, -, hsuffix⟩ := hs.at_pc hpc
  have hin := hsuffix.subset List.mem_cons_self
  refine h.frame (by simp) (by simp) (by simp [hpc, Pc.entry]) ?_
  rw [act_relay]
  rcases List.mem_pair.mp hin with rfl | rfl
  · rfl
  · rfl

theorem leaving_step (h : RelayOff s) (hs : Shape hal s) {action : Action}
    {actions : List Action} {next : Sta} (hpc : s.pc = .leaving (action :: actions) next) :
    RelayOff { s.act action with pc := .leaving actions next } := by
  by_cases hrun : s.fsm_sta = .run
  · intro hidle
    have hidle : s.fsm_sta = .idle := by simpa using hidle
    exact absurd (hrun.symm.trans hidle) (by decide)
  · obtain rfl := funcOut_of_ne_run hrun ((hs.at_pc hpc).2.subset List.mem_cons_self)
    exact h.frame rfl rfl (by simp [hpc, Pc.entry]) rfl

theorem step (h : RelayOff s) (hs : Shape hal s) (hready : hal.isReady = true) (i : Input) :
    RelayOff (s.step hal i) := by
  cases hpc : s.pc with
  | rest =>
    simp only [Machine.step, hpc]
    split
    · intro hidle _ hlater
      have hidle : s.fsm_sta = .idle := hidle
      simp [Pc.entry, hidle, funcIn_idle hready] at hlater
    · exact h.frame rfl rfl (by simp [hpc, Pc.entry]) rfl
  | entering actions =>
    simp only [Machine.step, hpc]
    cases actions with
    | nil => exact h.frame rfl rfl (by simp [hpc, Pc.entry]) rfl
    | cons action actions => exact h.entering_step hs hready hpc
  | exe =>
    simp only [Machine.step, hpc]
    rcases execute_cases s i with ⟨-, dly, ev, -, heq⟩ | ⟨-, soft, rly, stopped, -, -, heq⟩
    · rw [heq]
      exact h.frame rfl rfl (by simp [hpc, Pc.entry]) rfl
    · rw [heq]
      exact h.frame rfl rfl (by simp [hpc, Pc.entry]) rfl
  | clear temp =>
    simp only [Machine.step, hpc]
    exact h.frame rfl rfl (by simp [hpc, Pc.entry]) rfl
  | decide temp =>
    simp only [Machine.step, hpc]
    split
    · exact h.frame rfl rfl (by simp [hpc, Pc.entry]) rfl
    · exact h.frame rfl rfl (by simp [hpc, Pc.entry]) rfl
  | starting actions =>
    simp only [Machine.step, hpc]
    cases actions with
    | nil => exact h.frame rfl rfl (by simp [hpc, Pc.entry]) rfl
    | cons action actions => exact h.starting_step hs hpc
  | check =>
    simp only [Machine.step, hpc]
    split
    · exact h.frame rfl rfl (by simp [hpc, Pc.entry]) rfl
    · exact h.frame rfl rfl (by simp [hpc, Pc.entry, Machine.finish]) rfl
  | leaving actions next =>
    simp only [Machine.step, hpc]
    cases actions with
    | nil => exact fun _ hchange => absurd hchange (by simp [Machine.finish])
    | cons action actions => exact h.leaving_step hs hpc

end RelayOff

end Atoman.Pfc
