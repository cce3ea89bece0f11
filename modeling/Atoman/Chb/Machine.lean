import Atoman.Lib.Transition
import Atoman.RlyOn.Interleaving

/-!
# The state machine of the CHB rectifier

The machine runs in a task of 1 ms, the library of the main relay in a task of 100 us. The
callbacks of both relays are kept in a log, the newest first. What is measured is arbitrary, and
so is single precision: only the comparisons and counts that the code makes of it are used.
-/

namespace Atoman.Chb
open Lib (Transition)

/-- `chb_fsm_event_t` -/
inductive FsmEvent
  | none | idle | softStart | mainWait | run | fault
deriving DecidableEq

/-- `chb_fsm_state_t` -/
inductive State
  | init | idle | softStart | mainWait | run | fault
deriving DecidableEq

/-- The callbacks of the binding. -/
inductive Callback
  | mainRelay (on : Bool)
  | softStartRelay (on : Bool)
  | pwmDisable
deriving DecidableEq

/-- The last callback of the main relay -/
def lastMain (log : List Callback) : Option Bool :=
  log.findSome? fun
    | .mainRelay on => some on
    | _ => none

/-- The last callback of the soft start's relay -/
def lastSoftStart (log : List Callback) : Option Bool :=
  log.findSome? fun
    | .softStartRelay on => some on
    | _ => none

/-- `CHB_CELL_COUNT` -/
abbrev cellCount : ℕ := 5
/-- `CHB_FSM_SOFT_START_MS` -/
abbrev softStartMs : ℕ := 500
/-- `CHB_FSM_TIMEOUT_MS` -/
abbrev timeoutMs : ℕ := 5000
/-- `CHB_MAIN_RELAY_WAIT_MS` -/
abbrev mainRelayWaitMs : ℕ := 20

/-- What the module computes in single precision. -/
structure Arith (F : Type) extends RlyOn.Arith F where
  /-- the sum of the buses is above 90 % of the peak of the grid -/
  above : (Fin cellCount → F) → F → Bool
  /-- the voltage across the relay is within the window -/
  isEqual : F → F → Bool
  /-- `CHB_RELAY_TASK_HZ` -/
  relayTaskHz : F
  /-- `CHB_MAIN_RELAY_ON_TIME_S` -/
  mainRelayOnTimeS : F

/-- What a step of the machine reads from outside. -/
structure Input (F : Type) where
  /-- the binding, the configuration, the control, the protection and a sample are in order -/
  ready : Bool
  v_bus_raw : Fin cellCount → F
  v_grid_rms : F
  f_grid : F

/-- What the task of the relay reads from outside. -/
structure RelayInput (F : Type) where
  v_grid_raw : F
  v_grid_rms : F
  f_grid : F

/-- The variables of the module. -/
structure Machine (F : Type) where
  fsm_sta : State
  fsm_sta_is_change : Bool
  fsm_event : FsmEvent
  soft_start_elapsed : ℕ
  soft_start_qualified : ℕ
  main_relay_wait_ms : ℕ
  main_relay : RlyOn F
  main_relay_task_enabled : Bool
  run_allowed : Bool
  clear_requested : Bool
  run_request : Bool
  /-- the calls of `chb_fsm_clear_fault` that have passed the check and not stored the request -/
  clearing : ℕ
  log : List Callback
  /-- the comparisons of the buses in this start, the newest first -/
  verdicts : List Bool

namespace Machine
variable {F : Type} (arith : Arith F) (s : Machine F)

/-- A callback is called. -/
def call (callback : Callback) : Machine F := { s with log := callback :: s.log }

/-- The library is called. -/
def callRelay (r : RlyOn F × List Bool) : Machine F :=
  { s with main_relay := r.1, log := r.2.reverse.map .mainRelay ++ s.log }

/-- `main_relay_prepare` -/
def mainRelayPrepare (f_grid : F) : Machine F :=
  { s with
    main_relay_task_enabled := false
    main_relay :=
      { s.main_relay with
          rly_on_trig := false, rly_off_trig := false, is_equal := false, freq := f_grid }.init
        true true arith.relayTaskHz arith.mainRelayOnTimeS }

/-- `main_relay_force_off` -/
def mainRelayForceOff : Machine F :=
  { s with main_relay_task_enabled := false }.callRelay
    { s.main_relay with rly_on_trig := false, rly_off_trig := false, is_equal := false }.forceOff

/-- `main_relay_task` -/
def mainRelayTask (i : RelayInput F) : Machine F :=
  if s.main_relay_task_enabled = true then
    s.callRelay <|
      { s.main_relay with
          is_equal := arith.isEqual i.v_grid_raw i.v_grid_rms, freq := i.f_grid }.func arith.toArith
  else s

/-- `func_in` -/
def funcIn (i : Input F) : Machine F :=
  match s.fsm_sta with
  | .init => { s with run_allowed := false }
  | .idle => ({ s with run_allowed := false }.mainRelayForceOff).call (.softStartRelay false)
  | .softStart =>
    (({ s with
          soft_start_elapsed := 0, soft_start_qualified := 0, run_allowed := false
          verdicts := [] }.mainRelayForceOff).call .pwmDisable).call (.softStartRelay true)
  | .mainWait =>
    let s := if s.main_relay.sta ≠ .idle then s.mainRelayPrepare arith i.f_grid else s
    { s with
      main_relay := { s.main_relay with is_equal := false, rly_on_trig := true }
      main_relay_wait_ms := 0, main_relay_task_enabled := true, run_allowed := false }
  | .run => { s with run_allowed := false }.call .pwmDisable
  | .fault =>
    ((({ s with run_allowed := false }.call .pwmDisable).mainRelayForceOff).call
      (.softStartRelay false))

/-- `soft_start_exe` behind the check of the request -/
def softStartCount (i : Input F) : Machine F :=
  let verdict := arith.above i.v_bus_raw i.v_grid_rms
  let soft_start_elapsed := s.soft_start_elapsed + 1
  let soft_start_qualified :=
    if verdict = true then
      if s.soft_start_qualified < softStartMs then s.soft_start_qualified + 1
      else s.soft_start_qualified
    else if 0 < s.soft_start_qualified then s.soft_start_qualified - 1
    else s.soft_start_qualified
  { s with
    soft_start_elapsed := soft_start_elapsed
    soft_start_qualified := soft_start_qualified
    verdicts := verdict :: s.verdicts
    fsm_event :=
      if softStartMs ≤ soft_start_qualified then .mainWait
      else if timeoutMs ≤ soft_start_elapsed then .fault
      else s.fsm_event }

/-- `main_wait_exe` behind the check of the request -/
def mainWaitCount : Machine F :=
  if s.main_relay.is_on = true then
    let s := if s.main_relay_wait_ms = 0 then s.call (.softStartRelay false) else s
    let main_relay_wait_ms :=
      if s.main_relay_wait_ms < mainRelayWaitMs then s.main_relay_wait_ms + 1
      else s.main_relay_wait_ms
    { s with
      main_relay_wait_ms := main_relay_wait_ms
      fsm_event := if mainRelayWaitMs ≤ main_relay_wait_ms then .run else s.fsm_event }
  else { s with main_relay_wait_ms := 0 }

/-- `func_exe` -/
def funcExe (i : Input F) : Machine F :=
  match s.fsm_sta with
  | .init =>
    if i.ready = true then { s.mainRelayPrepare arith i.f_grid with fsm_event := .idle } else s
  | .idle => if s.run_request = true then { s with fsm_event := .softStart } else s
  | .softStart =>
    if s.run_request = false then { s with fsm_event := .idle } else s.softStartCount arith i
  | .mainWait =>
    if s.run_request = false then { s with fsm_event := .idle } else s.mainWaitCount
  | .run =>
    if s.run_request = false then { s with run_allowed := false, fsm_event := .idle }
    else { s with run_allowed := true }
  | .fault =>
    if s.clear_requested = true then { s with clear_requested := false, fsm_event := .idle }
    else { s with clear_requested := false }

/-- `func_out` -/
def funcOut : Machine F :=
  match s.fsm_sta with
  | .init => ((s.call .pwmDisable).call (.softStartRelay false)).mainRelayForceOff
  | .softStart => if s.fsm_event ≠ .mainWait then s.call (.softStartRelay false) else s
  | .mainWait => if s.fsm_event ≠ .run then s.mainRelayForceOff else s
  | .run => { (s.call .pwmDisable).mainRelayForceOff with run_allowed := false }
  | .idle | .fault => s

end Machine

/-- `func_chk` -/
def State.funcChk : State → FsmEvent → Option State
  | .init, .idle => some .idle
  | .idle, .softStart => some .softStart
  | .softStart, .fault => some .fault
  | .softStart, .idle => some .idle
  | .softStart, .mainWait => some .mainWait
  | .mainWait, .idle => some .idle
  | .mainWait, .run => some .run
  | .run, .idle => some .idle
  | .fault, .idle => some .idle
  | _, _ => none

namespace Machine
variable {F : Type} (arith : Arith F) (s : Machine F)

/-- `section_fsm_func`, from the check of the event on -/
def check : Machine F :=
  if s.fsm_event = .none then s
  else
    match s.fsm_sta.funcChk s.fsm_event with
    | some next => { s.funcOut with fsm_sta := next, fsm_sta_is_change := true, fsm_event := .none }
    | none => { s with fsm_event := .none }

/-- `section_fsm_func`, the entry of a new state -/
def enter (i : Input F) : Machine F :=
  if s.fsm_sta_is_change = true then { s with fsm_sta_is_change := false }.funcIn arith i else s

/-- `section_fsm_func` -/
def step (i : Input F) : Machine F := ((s.enter arith i).funcExe arith i).check

end Machine

/-- A step of the machine, a call of the relay's task, or a store of a request. -/
inductive Event (F : Type)
  | step (i : Input F)
  | mainRelayTask (i : RelayInput F)
  /-- `chb_cfg_set_run_request` -/
  | setRunRequest (request : ℕ)
  /-- `chb_fsm_clear_fault`, the check -/
  | clearFault
  /-- and the store -/
  | storeClear

/-- One step. -/
def Machine.exec {F : Type} (arith : Arith F) (s : Machine F) : Event F → Machine F
  | .step i => s.step arith i
  | .mainRelayTask i => s.mainRelayTask arith i
  | .setRunRequest request =>
    if 1 < request then s else { s with run_request := decide (request ≠ 0) }
  | .clearFault =>
    if s.fsm_sta ≠ .fault ∨ s.run_request = true then s
    else { s with clearing := s.clearing + 1 }
  | .storeClear =>
    if s.clearing = 0 then s else { s with clear_requested := true, clearing := s.clearing - 1 }

/-- The variables at power-up; what the measured frequency is does not matter. -/
def Machine.reset {F : Type} (f : F) : Machine F where
  fsm_sta := .init
  fsm_sta_is_change := true
  fsm_event := .none
  soft_start_elapsed := 0
  soft_start_qualified := 0
  main_relay_wait_ms := 0
  main_relay := ⟨false, false, false, f, f, f, 0, 0, 0, 0, .init, false, false, false⟩
  main_relay_task_enabled := false
  run_allowed := false
  clear_requested := false
  run_request := false
  clearing := 0
  log := []
  verdicts := []

/-- The runs of the module. -/
def machineRuns {F : Type} (arith : Arith F) : Transition (Machine F) where
  init := fun s => ∃ f, s = .reset f
  next := fun s s' => ∃ event, s' = s.exec arith event

end Atoman.Chb
