import Atoman.Lib.Transition
import Mathlib.Data.Nat.Notation
import Mathlib.Logic.Function.Iterate

/-!
# The relay library

`rly_on_func` closes a relay once both sides match, ahead of the next match by the time that
the relay takes, and confirms it when that time is over. The trigger flags and the measured
values lie with the caller; here they are fields. Single precision is a parameter.

It reads and clears flags that interrupts and other tasks set, and calls back into code that may
set them too. A call with other code in between stops at every such place: before it reads or
clears a flag or a measured value, and within both callbacks. What it reads and writes on its own
(the state and the counters) goes with the access before it. `resume_func` says that a call
without other code in between is `RlyOn.func`.
-/

namespace Atoman.RlyOn

/-- `RLY_ON_STA_E` -/
inductive Sta
  | init | idle | wait | dly | run | err
deriving DecidableEq

/-- The two counts that the library computes in single precision. -/
structure Arith (F : Type) where
  /-- of the control and the grid frequency, and the time the relay takes -/
  dly : F → F → F → ℕ
  on_confirm : F → F → ℕ

end RlyOn

/-- `rly_on_t`, with what its input pointers lead to -/
structure RlyOn (F : Type) where
  rly_on_trig : Bool
  rly_off_trig : Bool
  is_equal : Bool
  freq : F
  ctrl_freq : F
  rly_on_time_def : F
  dly_cnt : ℕ
  dly : ℕ
  on_cnt : ℕ
  on_confirm : ℕ
  sta : RlyOn.Sta
  is_on : Bool
  /-- the input pointers are set -/
  inputs : Bool
  /-- the callbacks are set -/
  callbacks : Bool
deriving DecidableEq

namespace RlyOn
variable {F : Type} (p_str : RlyOn F)

/-- `rly_on_reset_runtime` -/
def resetRuntime : RlyOn F :=
  { p_str with dly_cnt := 0, dly := 0, on_cnt := 0, on_confirm := 0, is_on := false }

/-- `rly_on_is_ready` -/
def isReady : Bool := p_str.inputs && p_str.callbacks

/-- `rly_on_init`, with the input pointers and the callbacks set or not; the caller's flags stay as
they are. -/
def init (inputs callbacks : Bool) (ctrl_freq rly_on_time_def : F) : RlyOn F :=
  let p_str :=
    { p_str.resetRuntime with
      inputs := inputs, callbacks := callbacks
      ctrl_freq := ctrl_freq, rly_on_time_def := rly_on_time_def }
  { p_str with sta := if p_str.isReady = true then .idle else .init }

/-- `rly_on_force_off`, and the callback that it calls: `ON` or `OFF` -/
def forceOff : RlyOn F × List Bool :=
  let p_str :=
    if p_str.inputs = true then { p_str with rly_on_trig := false, rly_off_trig := false }
    else p_str
  ({ p_str.resetRuntime with sta := if p_str.isReady = true then .idle else .init },
    if p_str.callbacks = true then [false] else [])

/-- `rly_on_func` -/
def func (arith : Arith F) : RlyOn F × List Bool :=
  if p_str.inputs = false then (p_str, [])
  else if p_str.rly_off_trig = true then p_str.forceOff
  else match p_str.sta with
  | .init =>
    if p_str.callbacks = false then (p_str, [])
    else ({ p_str with sta := .idle, rly_on_trig := false }, [])
  | .idle =>
    if p_str.rly_on_trig = true then
      ({ p_str.resetRuntime with rly_on_trig := false, sta := .wait }, [])
    else (p_str, [])
  | .wait =>
    if p_str.is_equal = true then
      ({ p_str with
          dly := arith.dly p_str.ctrl_freq p_str.rly_on_time_def p_str.freq
          on_confirm := arith.on_confirm p_str.ctrl_freq p_str.rly_on_time_def
          dly_cnt := 0, on_cnt := 0, is_on := false, sta := .dly }, [])
    else (p_str, [])
  | .dly =>
    if p_str.dly ≤ p_str.dly_cnt then
      ({ p_str with dly_cnt := 0, on_cnt := 0, is_on := false, sta := .run, rly_off_trig := false },
        [true])
    else ({ p_str with dly_cnt := p_str.dly_cnt + 1 }, [])
  | .run =>
    if p_str.is_on = false then
      if p_str.on_confirm ≤ p_str.on_cnt then ({ p_str with is_on := true }, [])
      else ({ p_str with on_cnt := p_str.on_cnt + 1 }, [])
    else (p_str, [])
  | .err => (p_str, [])

end RlyOn

/-! ## Calls with other code in between -/

namespace RlyOn

/-- Where a call of `rly_on_func` stands. -/
inductive Point
  /-- no call -/
  | ready
  /-- the OFF trigger is read next -/
  | entry
  /-- the OFF trigger was set, and `rly_off` is called next -/
  | forceOff
  /-- within `rly_off`; the ON trigger is cleared next -/
  | rlyOff
  /-- `rly_on_force_off` clears the OFF trigger next -/
  | clearOff
  /-- the OFF trigger was not set, and the state is looked up next -/
  | dispatch
  /-- INIT is over, and the ON trigger is cleared next -/
  | initClear
  /-- the ON trigger was set, and is cleared next -/
  | accept
  /-- the synchronisation flag was set, and the frequency is read next -/
  | equal
  /-- within `rly_on` -/
  | rlyOn
  /-- the relay is on, and the OFF trigger is cleared next -/
  | dlyClear
deriving DecidableEq

/-- What happens. -/
inductive Event
  /-- other code sets the ON trigger -/
  | onRequest
  /-- other code sets the OFF trigger -/
  | offRequest
  | callStart
  | callEnd
  /-- a call sees the synchronisation flag set -/
  | equalSeen
  /-- the callback that closes the relay is called -/
  | rlyOn
  /-- the callback that opens the relay is called -/
  | rlyOff
deriving DecidableEq

/-- An instance, the call under way and what has happened so far. -/
structure Running (F : Type) where
  p_str : RlyOn F
  point : Point
  log : List Event
deriving DecidableEq

/-- A step of other code, or of the code that calls `rly_on_func`. -/
inductive Move (F : Type)
  | setOn
  | setOff
  | measure (is_equal : Bool) (freq : F)
  | call
  | resume
deriving DecidableEq

namespace Running
variable {F : Type}

/-- The call is over. -/
def finish (s : Running F) (p_str : RlyOn F) : Running F :=
  { p_str := p_str, point := .ready, log := s.log ++ [.callEnd] }

/-- The call goes on to the next place. -/
def resume (arith : Arith F) (s : Running F) : Running F :=
  let p_str := s.p_str
  match s.point with
  | .ready => s
  | .entry =>
    if p_str.inputs = false then s.finish p_str
    else if p_str.rly_off_trig = true then { s with point := .forceOff }
    else { s with point := .dispatch }
  | .forceOff =>
    { s with
      point := .rlyOff
      log := if p_str.callbacks = true then s.log ++ [.rlyOff] else s.log }
  | .rlyOff => { s with p_str := { p_str with rly_on_trig := false }, point := .clearOff }
  | .clearOff =>
    s.finish { { p_str with rly_off_trig := false }.resetRuntime with
      sta := if p_str.isReady = true then .idle else .init }
  | .dispatch =>
    match p_str.sta with
    | .init =>
      if p_str.callbacks = false then s.finish p_str
      else { s with p_str := { p_str with sta := .idle }, point := .initClear }
    | .idle =>
      if p_str.rly_on_trig = true then { s with point := .accept }
      else s.finish p_str
    | .wait =>
      if p_str.is_equal = true then
        { s with point := .equal, log := s.log ++ [.equalSeen] }
      else s.finish p_str
    | .dly =>
      if p_str.dly ≤ p_str.dly_cnt then { s with point := .rlyOn, log := s.log ++ [.rlyOn] }
      else s.finish { p_str with dly_cnt := p_str.dly_cnt + 1 }
    | .run =>
      if p_str.is_on = false then
        if p_str.on_confirm ≤ p_str.on_cnt then s.finish { p_str with is_on := true }
        else s.finish { p_str with on_cnt := p_str.on_cnt + 1 }
      else s.finish p_str
    | .err => s.finish p_str
  | .initClear => s.finish { p_str with rly_on_trig := false }
  | .accept => s.finish { p_str.resetRuntime with rly_on_trig := false, sta := .wait }
  | .equal =>
    s.finish { p_str with
      dly := arith.dly p_str.ctrl_freq p_str.rly_on_time_def p_str.freq
      on_confirm := arith.on_confirm p_str.ctrl_freq p_str.rly_on_time_def
      dly_cnt := 0, on_cnt := 0, is_on := false, sta := .dly }
  | .rlyOn =>
    { s with
      p_str := { p_str with dly_cnt := 0, on_cnt := 0, is_on := false, sta := .run }
      point := .dlyClear }
  | .dlyClear => s.finish { p_str with rly_off_trig := false }

/-- One step. -/
def move (arith : Arith F) (s : Running F) : Move F → Running F
  | .setOn =>
    { s with p_str := { s.p_str with rly_on_trig := true }, log := s.log ++ [.onRequest] }
  | .setOff =>
    { s with p_str := { s.p_str with rly_off_trig := true }, log := s.log ++ [.offRequest] }
  | .measure is_equal freq =>
    { s with p_str := { s.p_str with is_equal := is_equal, freq := freq } }
  | .call =>
    if s.point = .ready then { s with point := .entry, log := s.log ++ [.callStart] } else s
  | .resume => s.resume arith

/-- After `rly_on_init` with all pointers and both callbacks; triggers that are set already are
requests. -/
def start (p_str : RlyOn F) (ctrl_freq rly_on_time_def : F) : Running F where
  p_str := p_str.init true true ctrl_freq rly_on_time_def
  point := .ready
  log :=
    (if p_str.rly_on_trig = true then [.onRequest] else []) ++
      if p_str.rly_off_trig = true then [.offRequest] else []

/-- Runs of an instance that is fully bound, whose steps meet a condition. -/
def runs (arith : Arith F) (P : Running F → Move F → Prop) : Lib.Transition (Running F) :=
  .driven (fun s => ∃ p_str ctrl_freq rly_on_time_def, s = start p_str ctrl_freq rly_on_time_def)
    (move arith) P

/-! ## Calls alone -/

/-- The callback that an event is, as `RlyOn.func` gives it. -/
def callback : Event → Option Bool
  | .rlyOn => some true
  | .rlyOff => some false
  | _ => none

/-- **A call without other code in between** is `RlyOn.func`. -/
theorem resume_func (arith : Arith F) (p_str : RlyOn F) (log : List Event) :
    ∃ n new, (resume arith)^[n] ⟨p_str, .entry, log⟩ = ⟨(p_str.func arith).1, .ready, log ++ new⟩ ∧
      new.filterMap callback = (p_str.func arith).2 := by
  by_cases hinputs : p_str.inputs = false
  · exact ⟨1, [.callEnd], by simp [resume, func, finish, hinputs],
      by simp [func, hinputs, callback]⟩
  by_cases hoff : p_str.rly_off_trig = true
  · by_cases hcallbacks : p_str.callbacks = true
    · exact ⟨4, [.rlyOff, .callEnd],
        by simp [resume, func, forceOff, isReady, resetRuntime, finish, *],
        by simp [func, forceOff, callback, *]⟩
    · exact ⟨4, [.callEnd], by simp [resume, func, forceOff, isReady, resetRuntime, finish, *],
        by simp [func, forceOff, callback, *]⟩
  cases hsta : p_str.sta with
  | init =>
    by_cases hcallbacks : p_str.callbacks = false
    · exact ⟨2, [.callEnd], by simp [resume, func, finish, *], by simp [func, callback, *]⟩
    · exact ⟨3, [.callEnd], by simp [resume, func, finish, *], by simp [func, callback, *]⟩
  | idle =>
    by_cases hon : p_str.rly_on_trig = true
    · exact ⟨3, [.callEnd], by simp [resume, func, finish, *], by simp [func, callback, *]⟩
    · exact ⟨2, [.callEnd], by simp [resume, func, finish, *], by simp [func, callback, *]⟩
  | wait =>
    by_cases hequal : p_str.is_equal = true
    · exact ⟨3, [.equalSeen, .callEnd], by simp [resume, func, finish, *],
        by simp [func, callback, *]⟩
    · exact ⟨2, [.callEnd], by simp [resume, func, finish, *], by simp [func, callback, *]⟩
  | dly =>
    by_cases hover : p_str.dly ≤ p_str.dly_cnt
    · exact ⟨4, [.rlyOn, .callEnd], by simp [resume, func, finish, *], by simp [func, callback, *]⟩
    · exact ⟨2, [.callEnd], by simp [resume, func, finish, *], by simp [func, callback, *]⟩
  | run =>
    by_cases hon : p_str.is_on = false
    · by_cases hconfirm : p_str.on_confirm ≤ p_str.on_cnt
      · exact ⟨2, [.callEnd], by simp [resume, func, finish, *], by simp [func, callback, *]⟩
      · exact ⟨2, [.callEnd], by simp [resume, func, finish, *], by simp [func, callback, *]⟩
    · exact ⟨2, [.callEnd], by simp [resume, func, finish, *], by simp [func, callback, *]⟩
  | err => exact ⟨2, [.callEnd], by simp [resume, func, finish, *], by simp [func, callback, *]⟩

end Running
end RlyOn
end Atoman
