import Atoman.Lib.Memory
import Mathlib.Algebra.Group.Nat.Defs
import Mathlib.Logic.Function.Basic

/-!
# The scope

`scope_core.c` samples variables into a ring of `buffer_size` columns, one row for each
variable; a trigger ends the capture `trigger_post_cnt` samples later.
`scope_service.c` starts and stops captures on request, watches the state of the core
once in every poll to announce a capture that has ended, and reads samples out by a
logical index. The sampled values are of any type.
-/

namespace Atoman.Scope
open Lib (Memory)
universe u

/-- `scope_state_e` -/
inductive Phase
  | idle | running | triggered
deriving DecidableEq

/-- The fields of `scope_t` that registration fixes. -/
structure Geometry where
  buffer_size : ℕ
  trigger_post_cnt : ℕ
  var_count : ℕ

/-- The fields of `scope_t` that change. -/
structure Core (α : Type u) where
  write_index : ℕ
  trigger_index : ℕ
  is_triggered : Bool
  is_running : Bool
  trigger_counter : ℕ
  in_trigger : Bool
  buffer : Memory α
  state : Phase

namespace Core
variable {α : Type u}

/-- `SCOPE_CORE_DEFINE` -/
def define (buffer : Memory α) : Core α := ⟨0, 0, false, false, 0, false, buffer, .idle⟩

/-- Store one column: the value of variable `i` goes to row `i`. The offset of a row is
computed in 32 bits. -/
def storeColumn (g : Geometry) (column : ℕ) (values : ℕ → α) (buffer : Memory α) : Memory α :=
  (List.range g.var_count).foldl
    (fun m i => Function.update m (column + i * g.buffer_size % 2 ^ 32) (values i)) buffer

/-- The part of `scope_core_run` behind the start: one sample, and what the trigger
makes of it. -/
def sample (g : Geometry) (c : Core α) (values : ℕ → α) : Core α :=
  let write_idx := c.write_index
  let c := { c with buffer := storeColumn g write_idx values c.buffer }
  let c :=
    if c.state = .running ∧ c.is_triggered then
      { c with
        trigger_index := write_idx
        is_triggered := false
        in_trigger := true
        state := .triggered }
    else if c.state = .triggered then
      if g.trigger_post_cnt ≤ c.trigger_counter + 1 then
        { c with trigger_counter := 0, is_running := false, in_trigger := false, state := .idle }
      else { c with trigger_counter := c.trigger_counter + 1 }
    else c
  { c with write_index := if g.buffer_size ≤ write_idx + 1 then 0 else write_idx + 1 }

/-- `scope_core_run`, with the values that the variables have. -/
def run (g : Geometry) (c : Core α) (values : ℕ → α) : Core α :=
  if c.state = .idle then
    if c.is_running then
      sample g { c with state := .running, write_index := 0, trigger_counter := 0 } values
    else c
  else sample g c values

/-- `scope_core_start` -/
def start (c : Core α) : Core α :=
  if c.state = .idle then
    { c with
      is_running := true
      write_index := 0
      trigger_counter := 0
      in_trigger := false
      is_triggered := false }
  else c

/-- `scope_core_stop` -/
def stop (c : Core α) : Core α :=
  { c with is_running := false, state := .idle, in_trigger := false }

/-- `scope_core_trigger` -/
def trigger (c : Core α) : Core α :=
  if c.state = .running then { c with is_triggered := true } else c

/-- `scope_core_reset` -/
def reset (c : Core α) : Core α :=
  { c with
    write_index := 0
    trigger_counter := 0
    is_triggered := false
    is_running := false
    in_trigger := false
    state := .idle }

end Core

/-! ## The service -/

/-- A scope with the fields of its `scope_registration_t` that change. -/
structure Device (α : Type u) where
  core : Core α
  capture_tag : UInt32
  last_state : Phase
  data_ready : Bool

/-- `scope_tool_status_e`, as far as the handlers below use it. -/
inductive Status
  | ok | sampleIndexInvalid | runningDenied | dataNotReady | captureChanged
deriving DecidableEq

/-- `scope_ctrl_ack_t` -/
structure CtrlAck where
  status : Status
  state : Phase
  data_ready : Bool
  capture_tag : UInt32

/-- `scope_read_mode_e`, or another byte. -/
inductive ReadMode
  | normal | force | other
deriving DecidableEq

/-- `scope_sample_query_t` -/
structure SampleQuery where
  read_mode : ReadMode
  sample_index : ℕ
  expected_capture_tag : UInt32

/-- `scope_sample_ack_t` with the values behind it. -/
structure SampleAck (α : Type u) where
  status : Status
  read_mode : ReadMode
  sample_index : ℕ
  capture_tag : UInt32
  is_last_sample : Bool
  values : List α

namespace Device
variable {α : Type u}

/-- `SCOPE_DEFINE` -/
def define (buffer : Memory α) : Device α := ⟨.define buffer, 0, .idle, false⟩

/-- `scope_service_capture_tag_inc`: the next tag, past zero. -/
def tagInc (tag : UInt32) : UInt32 := if tag + 1 = 0 then tag + 1 + 1 else tag + 1

/-- The comparison that `scope_service_poll_state` makes for one scope. -/
def pollCheck (d : Device α) : Device α :=
  if d.last_state = .triggered ∧ d.core.state = .idle then
    { d with data_ready := true, capture_tag := tagInc d.capture_tag }
  else d

/-- What `scope_service_poll_state` does next: it reads the state once more. -/
def pollStore (d : Device α) : Device α := { d with last_state := d.core.state }

/-- The answer of a handler. -/
def ack (d : Device α) (status : Status) : CtrlAck :=
  ⟨status, d.core.state, d.data_ready, d.capture_tag⟩

/-- `scope_start_act` -/
def startAct (d : Device α) : Device α × CtrlAck :=
  if d.core.state ≠ .idle then (d, d.ack .runningDenied)
  else
    let core := d.core.start
    let d : Device α := ⟨core, tagInc d.capture_tag, core.state, false⟩
    (d, d.ack .ok)

/-- `scope_trigger_act` -/
def triggerAct (d : Device α) : Device α × CtrlAck :=
  if d.core.state ≠ .running then (d, d.ack .runningDenied)
  else
    let d := { d with core := d.core.trigger }
    (d, d.ack .ok)

/-- `scope_stop_act` -/
def stopAct (d : Device α) : Device α × CtrlAck :=
  let core := d.core.stop
  let d : Device α := ⟨core, d.capture_tag, core.state, true⟩
  (d, d.ack .ok)

/-- `scope_reset_act` -/
def resetAct (d : Device α) : Device α × CtrlAck :=
  let core := d.core.reset
  let d : Device α := ⟨core, tagInc d.capture_tag, core.state, false⟩
  (d, d.ack .ok)

/-- `scope_service_get_trigger_display_index` -/
def triggerDisplayIndex (g : Geometry) : ℕ :=
  if g.buffer_size = 0 ∨ g.buffer_size ≤ g.trigger_post_cnt then 0
  else g.buffer_size - g.trigger_post_cnt - 1

/-- `scope_service_get_logical_start_index`, in 32 bits -/
def logicalStartIndex (g : Geometry) (c : Core α) (mode : ReadMode) : ℕ :=
  if g.buffer_size = 0 then 0
  else if mode = .force ∧ c.state = .running ∧ c.in_trigger = false then
    c.write_index % g.buffer_size
  else (c.trigger_index + g.trigger_post_cnt + 1) % 2 ^ 32 % g.buffer_size

/-- `scope_service_logical_to_physical_index`, in 32 bits -/
def physicalIndex (g : Geometry) (c : Core α) (mode : ReadMode) (logical : ℕ) : ℕ :=
  if g.buffer_size = 0 then 0
  else (logicalStartIndex g c mode + logical) % 2 ^ 32 % g.buffer_size

/-- `SCOPE_SERVICE_VAR_COUNT_MAX` -/
abbrev varCountMax : ℕ := 10

/-- An answer without values. -/
def refuse (d : Device α) (q : SampleQuery) (status : Status) : SampleAck α :=
  ⟨status, q.read_mode, q.sample_index, d.capture_tag, false, []⟩

/-- `scope_sample_query_act` -/
def sampleQueryAct (g : Geometry) (d : Device α) (q : SampleQuery) : SampleAck α :=
  if q.read_mode ≠ .normal ∧ q.read_mode ≠ .force then d.refuse q .sampleIndexInvalid
  else if q.read_mode = .normal ∧ d.core.state ≠ .idle then d.refuse q .runningDenied
  else if q.expected_capture_tag ≠ 0 ∧ q.expected_capture_tag ≠ d.capture_tag then
    d.refuse q .captureChanged
  else if d.data_ready = false ∧ q.read_mode ≠ .force then d.refuse q .dataNotReady
  else if g.buffer_size = 0 ∨ g.buffer_size ≤ q.sample_index then d.refuse q .sampleIndexInvalid
  else
    let physical_index := physicalIndex g d.core q.read_mode q.sample_index
    { status := .ok
      read_mode := q.read_mode
      sample_index := q.sample_index
      capture_tag := d.capture_tag
      is_last_sample := decide (g.buffer_size ≤ q.sample_index + 1)
      values := (List.range (min g.var_count varCountMax)).map fun i =>
        d.core.buffer ((physical_index + i * g.buffer_size) % 2 ^ 32) }

end Device

/-! ## What happens to a scope -/

/-- Calls of the application, requests of the protocol and the two parts of a poll. A
request for another scope, or one that is an answer itself, does nothing to this
scope. -/
inductive Event (α : Type u)
  | run (values : ℕ → α)
  | trigger
  | start
  | stop
  | reset
  | startRequest
  | triggerRequest
  | stopRequest
  | resetRequest
  | sampleQuery (q : SampleQuery)
  | pollCheck
  | pollStore

/-- The scope after an event. -/
def Device.exec {α : Type u} (g : Geometry) (d : Device α) : Event α → Device α
  | .run values => { d with core := d.core.run g values }
  | .trigger => { d with core := d.core.trigger }
  | .start => { d with core := d.core.start }
  | .stop => { d with core := d.core.stop }
  | .reset => { d with core := d.core.reset }
  | .startRequest => d.startAct.1
  | .triggerRequest => d.triggerAct.1
  | .stopRequest => d.stopAct.1
  | .resetRequest => d.resetAct.1
  | .sampleQuery _ => d
  | .pollCheck => d.pollCheck
  | .pollStore => d.pollStore

end Atoman.Scope
