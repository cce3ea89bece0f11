import Atoman.Lib.Transition
import Mathlib.Data.List.Basic

/-!
# The state machine of the PFC controller

`section_fsm_func` runs one step of the machine in a task: the entry of a new state, its
execution, the check of the event and the exit. Commands and trips come from other contexts
between any two accesses. They meet the step in one variable, the command slot, which the
step reads and clears in two accesses; so a step is taken apart there, and at every call of a
hook.
-/

namespace Atoman.Pfc
open Lib (Transition)

/-- `pfc_fsm_sta_e` -/
inductive Sta
  | init | idle | softStart | mainRly | run
deriving DecidableEq

/-- `pfc_fsm_ev_e` -/
inductive Ev
  | null | toIdle | toSoftStart | toMainRly | toRun
deriving DecidableEq

/-- `pfc_fsm_cmd_e` -/
inductive Cmd
  | null | start | stop
deriving DecidableEq

/-- Which pointers of the two HAL tables are set; they are locked outside `idle`. -/
structure Hal where
  p_main_rly_on_func : Bool
  p_main_rly_off_func : Bool
  p_main_rly_is_closed : Bool
  p_pwm_enable : Bool
  p_pwm_disable : Bool
  /-- the pointers that the machine does not use itself -/
  others : Bool
deriving DecidableEq

/-- `pfc_hal_is_ready` -/
def Hal.isReady (hal : Hal) : Bool :=
  hal.p_main_rly_on_func && hal.p_main_rly_off_func && hal.p_main_rly_is_closed &&
    hal.p_pwm_enable &&
    hal.p_pwm_disable && hal.others

/-- What the entry, the execution and the exit of a state do, one after the other. -/
inductive Action
  | clearInitDly | clearSoftStartDly | clearMainRlyDly
  | lockBinding | unlockBinding
  | mainRlyOn | mainRlyOff
  | pwmEnable | pwmDisable
  | setRunAllowed (run_allowed : Bool)
  | publishBuilding
deriving DecidableEq

/-- An action, if its hook is set. -/
def hook (p : Bool) (action : Action) : List Action := if p = true then [action] else []

/-- `func_in` -/
def Sta.funcIn (hal : Hal) : Sta → List Action
  | .init => [.clearInitDly]
  | .idle => .unlockBinding :: hook hal.p_main_rly_off_func .mainRlyOff
  | .softStart => [.clearSoftStartDly]
  | .mainRly => .clearMainRlyDly :: hook hal.p_main_rly_on_func .mainRlyOn
  | .run =>
    .setRunAllowed true :: .publishBuilding ::
      (hook hal.p_pwm_enable .pwmEnable ++ hook hal.p_main_rly_on_func .mainRlyOn)

/-- `func_out` -/
def Sta.funcOut (hal : Hal) : Sta → List Action
  | .idle => [.lockBinding]
  | .run =>
    hook hal.p_pwm_disable .pwmDisable ++
      (hook hal.p_main_rly_off_func .mainRlyOff ++ [.setRunAllowed false, .publishBuilding])
  | _ => []

/-- `func_chk` -/
def Sta.funcChk : Sta → Ev → Option Sta
  | .init, .toIdle => some .idle
  | .idle, .toSoftStart => some .softStart
  | .softStart, .toMainRly => some .mainRly
  | .softStart, .toIdle => some .idle
  | .mainRly, .toRun => some .run
  | .mainRly, .toIdle => some .idle
  | .run, .toIdle => some .idle
  | _, _ => none

/-- The states in which a stop is taken. -/
def Sta.Active (sta : Sta) : Prop := sta = .softStart ∨ sta = .mainRly ∨ sta = .run

instance (sta : Sta) : Decidable sta.Active := inferInstanceAs (Decidable (_ ∨ _))

/-- Where the task is in a step. -/
inductive Pc
  /-- between two steps -/
  | rest
  | entering (actions : List Action)
  /-- in front of `func_exe` -/
  | exe
  /-- `get_fsm_cmd` has read the slot -/
  | clear (temp : Cmd)
  /-- `get_fsm_cmd` has returned -/
  | decide (temp : Cmd)
  /-- `idle` publishes in front of its event -/
  | starting (actions : List Action)
  /-- in front of the check of the event -/
  | check
  | leaving (actions : List Action) (next : Sta)
deriving DecidableEq

/-- What is watched. A command has a number. A stop that comes in an active state is in force
until `idle` takes a start with a greater number. -/
structure Watch where
  issued : ℕ
  /-- the number of the command in the slot -/
  slot : ℕ
  stopped : Option ℕ
  /-- the PWM was enabled, or running allowed, under a stop in force -/
  broken : Bool
  /-- the complete steps since the last stop in force, if it was the last command -/
  steps : Option ℕ
  /-- the present step has begun after it -/
  counting : Bool
  /-- the last relay hook was `ON` -/
  relay : Option Bool
deriving DecidableEq

/-- The variables of the machine and of the published setpoint, and the task. -/
structure Machine where
  init_dly : ℕ
  soft_start_dly : ℕ
  main_rly_dly : ℕ
  fsm_ev : Ev
  fsm_cmd : Cmd
  fsm_sta : Sta
  fsm_sta_is_change : Bool
  binding_locked : Bool
  building_run_allowed : Bool
  active_run_allowed : Bool
  pc : Pc
  /-- the trips that have called the hook and not stored the command -/
  tripping : ℕ
  watch : Watch
deriving DecidableEq

/-- What the task reads of the plant and of the configuration. -/
structure Input where
  cfg_is_ready : Bool
  /-- the bus is at the input peak or in regulation -/
  bus_ready : Bool
  main_rly_is_closed : Bool

namespace Machine
variable (s : Machine)

/-- Running is allowed, or the PWM enabled. -/
def release : Machine :=
  { s with watch := { s.watch with broken := s.watch.broken || s.watch.stopped.isSome } }

/-- One action -/
def act : Action → Machine
  | .clearInitDly => { s with init_dly := 0 }
  | .clearSoftStartDly => { s with soft_start_dly := 0 }
  | .clearMainRlyDly => { s with main_rly_dly := 0 }
  | .lockBinding => { s with binding_locked := true }
  | .unlockBinding => { s with binding_locked := false }
  | .mainRlyOn => { s with watch := { s.watch with relay := some true } }
  | .mainRlyOff => { s with watch := { s.watch with relay := some false } }
  | .pwmEnable => s.release
  | .pwmDisable => s
  | .setRunAllowed run_allowed => { s with building_run_allowed := run_allowed }
  | .publishBuilding =>
    if s.building_run_allowed = true then { s.release with active_run_allowed := true }
    else { s with active_run_allowed := false }

/-- The end of a step. -/
def finish : Machine :=
  { s with
    pc := .rest
    watch :=
      { s.watch with
        steps := if s.watch.counting = true then s.watch.steps.map (· + 1) else s.watch.steps
        counting := false } }

/-- `func_exe` up to the read of the slot; `idle` takes a start there. -/
def execute (i : Input) : Machine :=
  match s.fsm_sta with
  | .init =>
    if s.init_dly < 200 then { s with init_dly := s.init_dly + 1, pc := .check }
    else if i.cfg_is_ready = true then { s with fsm_ev := .toIdle, pc := .check }
    else { s with pc := .check }
  | .idle =>
    { s with
      pc := .clear s.fsm_cmd
      watch :=
        { s.watch with
          stopped :=
            if s.fsm_cmd = .start ∧ s.watch.stopped.all (· < s.watch.slot) = true then none
            else s.watch.stopped } }
  | .softStart =>
    { s with
      soft_start_dly := if s.soft_start_dly < 5000 then s.soft_start_dly + 1 else s.soft_start_dly
      pc := .clear s.fsm_cmd }
  | .mainRly =>
    { s with
      main_rly_dly := if s.main_rly_dly < 3000 then s.main_rly_dly + 1 else s.main_rly_dly
      pc := .clear s.fsm_cmd }
  | .run => { s with pc := .clear s.fsm_cmd }

/-- The event that `func_exe` sets with the command that it has got. -/
def event (hal : Hal) (i : Input) (temp : Cmd) : Ev :=
  match s.fsm_sta with
  | .softStart =>
    if temp = .stop then .toIdle
    else if i.bus_ready = true then .toMainRly
    else if 5000 ≤ s.soft_start_dly then .toIdle
    else .null
  | .mainRly =>
    if temp = .stop then .toIdle
    else if hal.p_main_rly_is_closed = true ∧ i.main_rly_is_closed = true then .toRun
    else if 3000 ≤ s.main_rly_dly then .toIdle
    else .null
  | .run => if temp = .stop then .toIdle else .null
  | _ => .null

/-- The next access of the task, or its next call of a hook. -/
def step (hal : Hal) (i : Input) : Machine :=
  match s.pc with
  | .rest =>
    let watch := { s.watch with counting := s.watch.steps.isSome }
    if s.fsm_sta_is_change = true then
      { s with fsm_sta_is_change := false, pc := .entering (s.fsm_sta.funcIn hal), watch := watch }
    else { s with pc := .exe, watch := watch }
  | .entering (action :: actions) => { s.act action with pc := .entering actions }
  | .entering [] => { s with pc := .exe }
  | .exe => s.execute i
  | .clear temp => { s with fsm_cmd := .null, pc := .decide temp }
  | .decide temp =>
    if s.fsm_sta = .idle ∧ temp = .start ∧ hal.isReady = true then
      { s with pc := .starting [.setRunAllowed false, .publishBuilding] }
    else { s with fsm_ev := s.event hal i temp, pc := .check }
  | .starting (action :: actions) => { s.act action with pc := .starting actions }
  | .starting [] => { s with fsm_ev := .toSoftStart, pc := .check }
  | .check =>
    match s.fsm_sta.funcChk s.fsm_ev with
    | some next => { s with pc := .leaving (s.fsm_sta.funcOut hal) next }
    | none => finish { s with fsm_ev := .null }
  | .leaving (action :: actions) next => { s.act action with pc := .leaving actions next }
  | .leaving [] next =>
    finish { s with fsm_sta := next, fsm_sta_is_change := true, fsm_ev := .null }

/-- `pfc_fsm_set_cmd` -/
def setCmd (cmd : Cmd) : Machine :=
  let inForce := cmd = .stop ∧ s.fsm_sta.Active
  { s with
    fsm_cmd := cmd
    watch :=
      { s.watch with
        issued := s.watch.issued + 1
        slot := s.watch.issued
        stopped := if inForce then some s.watch.issued else s.watch.stopped
        steps := if inForce then some 0 else none
        counting := false } }

end Machine

/-- A step of the task, or of another context. -/
inductive Event
  | step (i : Input)
  | setCmd (start : Bool)
  /-- `pfc_hal_hard_protect_trip` calls the hook -/
  | trip
  /-- and stores the command -/
  | tripStop

/-- One step. -/
def Machine.exec (hal : Hal) (s : Machine) : Event → Machine
  | .step i => s.step hal i
  | .setCmd start => s.setCmd (if start = true then .start else .stop)
  | .trip => { s with tripping := s.tripping + 1 }
  | .tripStop => if s.tripping = 0 then s else { s.setCmd .stop with tripping := s.tripping - 1 }

/-- The variables at power-up. -/
def Machine.reset : Machine where
  init_dly := 0
  soft_start_dly := 0
  main_rly_dly := 0
  fsm_ev := .null
  fsm_cmd := .null
  fsm_sta := .init
  fsm_sta_is_change := true
  binding_locked := true
  building_run_allowed := false
  active_run_allowed := false
  pc := .rest
  tripping := 0
  watch := ⟨0, 0, none, false, none, false, none⟩

/-- The runs in which every step meets a condition. -/
def machineRuns (hal : Hal) (ok : Machine → Event → Prop) : Transition Machine where
  init := fun s => s = .reset
  next := fun s s' => ∃ event, ok s event ∧ s' = s.exec hal event

end Atoman.Pfc
