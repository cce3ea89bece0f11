import Atoman.FalCore.Safety

/-!
# State, operation and result

The entry points each change some of the state, the operation, the result and the stop flag of an
instance. They agree in every reachable state: the operation says whether a request is active, and
the others follow it.
-/

namespace Atoman.FalCore
open Lib

/-- What may be done to an instance. -/
inductive Op
  | init (cfg : Option Cfg) (driverInit : DeviceCfg → Result)
  | act (a : Act)

/-- A call of `fal_init`, or of another function -/
def Fal.op (f : Fal) : Op → Fal
  | .init cfg driverInit => (FalCore.init cfg driverInit).1
  | .act (.read zoneId offset length data) => (f.read zoneId offset length data).1
  | .act (.write zoneId offset length data) => (f.write zoneId offset length data).1
  | .act (.erase zoneId offset length) => (f.erase zoneId offset length).1
  | .act (.process deviceState answer) => (f.process deviceState answer).1
  | .act .stop => f.stopRequest.1

/-- A zeroed instance -/
def Fal.zero : Fal := .blank .uninitialized .success

/-- All runs of an instance -/
def falRuns : Transition Fal where
  init := fun f => f = .zero
  next := fun f f' => ∃ op, f' = f.op op

/-- The runs in which the instance is not initialised again -/
def falService : Transition Fal where
  init := fun _ => False
  next := fun f f' => ∃ a, f' = f.op (.act a)

/-- No request is active in these states. -/
def State.resting (state : State) : Prop :=
  state = .uninitialized ∨ state = .idle ∨ state = .stopped ∨ state = .error

/-- The states in which a chunk is issued -/
def State.issuing (state : State) : Prop := state = .read ∨ state = .write ∨ state = .erase

/-- An active request, and the variables that go with it -/
structure Working (f : Fal) : Prop where
  operation : f.operation ≠ .none
  result : f.result = .inProgress
  operationState : f.operationState.issuing
  flight : ∃ cfg, f.cfg = some cfg ∧ ∃ r, ∃ p : Place cfg r, ∃ ranges calls,
    Flight f p ranges ∧ Phase f p ranges calls

/-- No request is active. -/
structure Resting (f : Fal) : Prop where
  operation : f.operation = .none
  result : f.result ≠ .inProgress
  state : f.state.resting
  stopped : f.stopRequested = true → f.state = .stopped

/-- The invariant of the runs -/
structure Consistent (f : Fal) : Prop where
  valid : ∀ cfg, f.cfg = some cfg → cfg.Valid
  phase : Resting f ∨ Working f

/-- What is left of a request: it is refused, or has nothing to do, or is begun. -/
inductive Handled (f : Fal) : Fal × Result → Prop
  | refused {result : Result} (h : result.refuses) : Handled f (f, result)
  | empty (idle : f.operation = .none) (running : f.state ≠ .stopped) :
      Handled f ({ f with result := .success }, .success)
  | begun {f' : Fal} (idle : f.operation = .none) (running : f.state ≠ .stopped)
      (working : f'.operation ≠ .none) (issuing : f'.operationState.issuing)
      (result : f'.result = .inProgress) (stopRequested : f'.stopRequested = f.stopRequested)
      (cfg : f'.cfg = f.cfg) (mounted : f.cfg ≠ none) : Handled f (f', .inProgress)

variable {f f' : Fal}

theorem requestValidate_cases (f : Fal) (zoneId : UInt16) (offset length : UInt32)
    (permission : UInt8) :
    (∃ result, f.requestValidate zoneId offset length permission = .error result ∧
      result.refuses) ∨
    ∃ found, f.requestValidate zoneId offset length permission = .ok found ∧
      f.operation = .none ∧ f.state ≠ .stopped ∧ f.cfg ≠ none := by
  unfold Fal.requestValidate
  split
  · exact .inl ⟨_, rfl, by decide, by decide⟩
  rename_i hstopped
  split
  · exact .inl ⟨_, rfl, by decide, by decide⟩
  split
  · exact .inl ⟨_, rfl, by decide, by decide⟩
  rename_i cfg hcfg
  split
  · exact .inl ⟨_, rfl, by decide, by decide⟩
  rename_i hidle
  split
  · exact .inl ⟨_, rfl, by decide, by decide⟩
  split
  · exact .inl ⟨_, rfl, by decide, by decide⟩
  split
  · exact .inl ⟨_, rfl, by decide, by decide⟩
  · exact .inr ⟨_, rfl, by simpa [Fal.isBusy] using hidle, hstopped, by simp [hcfg]⟩

theorem read_handled (f : Fal) (zoneId : UInt16) (offset length : UInt32) (data : Pointer) :
    Handled f (f.read zoneId offset length data) := by
  unfold Fal.read
  split
  · exact .refused ⟨by decide, by decide⟩
  obtain ⟨result, hvalidate, hrefuses⟩ | ⟨⟨zone, device, address⟩, hvalidate,
      hidle, hrunning, hcfg⟩ :=
    requestValidate_cases f zoneId offset length permissionRead
  · rw [hvalidate]
    exact .refused hrefuses
  · rw [hvalidate]
    dsimp only
    split
    · exact .empty hidle hrunning
    · exact .begun hidle hrunning nofun (.inl rfl) rfl rfl rfl hcfg

theorem write_handled (f : Fal) (zoneId : UInt16) (offset length : UInt32) (data : Pointer) :
    Handled f (f.write zoneId offset length data) := by
  unfold Fal.write
  split
  · exact .refused ⟨by decide, by decide⟩
  obtain ⟨result, hvalidate, hrefuses⟩ | ⟨⟨zone, device, address⟩, hvalidate,
      hidle, hrunning, hcfg⟩ :=
    requestValidate_cases f zoneId offset length permissionWrite
  · rw [hvalidate]
    exact .refused hrefuses
  · rw [hvalidate]
    dsimp only
    split
    · exact .empty hidle hrunning
    split
    · exact .refused ⟨by decide, by decide⟩
    · exact .begun hidle hrunning nofun (.inr (.inl rfl)) rfl rfl rfl hcfg

theorem erase_handled (f : Fal) (zoneId : UInt16) (offset length : UInt32) :
    Handled f (f.erase zoneId offset length) := by
  unfold Fal.erase
  obtain ⟨result, hvalidate, hrefuses⟩ | ⟨⟨zone, device, address⟩, hvalidate,
      hidle, hrunning, hcfg⟩ :=
    requestValidate_cases f zoneId offset length permissionErase
  · rw [hvalidate]
    exact .refused hrefuses
  · rw [hvalidate]
    dsimp only
    split
    · exact .empty hidle hrunning
    split
    · exact .refused ⟨by decide, by decide⟩
    · exact .begun hidle hrunning nofun (.inr (.inr rfl)) rfl rfl rfl hcfg

/-- The end of a request -/
theorem resting_operationFinish (f : Fal) {result : Result} (h : result ≠ .inProgress) :
    Resting (f.operationFinish result) := by
  unfold Fal.operationFinish
  refine ⟨rfl, h, ?_, fun hstop => ?_⟩
  · dsimp only
    split
    · exact .inr (.inr (.inl rfl))
    · exact .inr (.inl rfl)
  · exact if_pos hstop

/-- What a step of the driver leaves as it is. -/
structure Kept (f f' : Fal) : Prop where
  operation : f'.operation = f.operation
  result : f'.result = f.result
  operationState : f'.operationState = f.operationState

/-- A step of the driver ends the request, or leaves the result as it is. -/
theorem deviceProcess_cases (f : Fal) (device : DeviceCfg) (deviceState : DeviceState)
    (answer : Result) :
    Resting (f.deviceProcess device deviceState answer).1 ∨
      Kept f (f.deviceProcess device deviceState answer).1 := by
  have hfinish (f : Fal) : Resting (f.operationFinish .driverError) :=
    resting_operationFinish f (by decide)
  unfold Fal.deviceProcess
  split
  · exact .inl (hfinish f)
  split
  · split
    · exact .inr ⟨rfl, rfl, rfl⟩
    split
    · dsimp only
      split
      · unfold Fal.operationCompleteOrSync
        split
        · split
          · exact .inl (hfinish _)
          · exact .inr ⟨rfl, rfl, rfl⟩
        · exact .inl (resting_operationFinish _ (by decide))
      · exact .inr ⟨rfl, rfl, rfl⟩
    split
    · exact .inl (resting_operationFinish _ (by decide))
    · exact .inl (resting_operationFinish _ (by decide))
  split
  · exact .inr ⟨rfl, rfl, rfl⟩
  unfold Fal.operationIssue
  split
  · exact .inl (hfinish f)
  split
  · exact .inr ⟨rfl, rfl, rfl⟩
  · exact .inl (hfinish f)

/-- The active device is in the configuration. -/
theorem Working.process_eq (h : Working f) (hv : ∀ cfg, f.cfg = some cfg → cfg.Valid)
    (deviceState : DeviceState) (answer : Result) :
    ∃ cfg, f.cfg = some cfg ∧ ∃ r, ∃ p : Place cfg r, ∃ ranges calls,
      Flight f p ranges ∧ Phase f p ranges calls ∧
      f.process deviceState answer = f.deviceProcess p.device deviceState answer := by
  obtain ⟨cfg, hcfg, r, p, ranges, calls, hflight, hphase⟩ := h.flight
  refine ⟨cfg, hcfg, r, p, ranges, calls, hflight, hphase, ?_⟩
  unfold Fal.process
  rw [hcfg]
  dsimp only
  rw [if_neg h.operation, hflight.device_eq, (hv cfg hcfg).find_device p.zone_at.device_mem]

theorem Working.process (h : Working f) (hv : ∀ cfg, f.cfg = some cfg → cfg.Valid)
    (deviceState : DeviceState) (answer : Result) :
    Resting (f.process deviceState answer).1 ∨ Working (f.process deviceState answer).1 := by
  obtain ⟨cfg, hcfg, r, p, ranges, calls, hflight, hphase, heq⟩ :=
    h.process_eq hv deviceState answer
  rw [heq]
  rcases deviceProcess_cases f p.device deviceState answer with hrest | hkept
  · exact .inl hrest
  obtain ⟨houtcome, -⟩ := hflight.deviceProcess hphase (hv cfg hcfg) deviceState answer
  cases houtcome with
  | going busy ranges' flight phase =>
    exact .inr ⟨busy, hkept.result.trans h.result, hkept.operationState ▸ h.operationState,
      cfg, (deviceProcess_cfg f p.device deviceState answer).trans hcfg, r, p, ranges', _, flight,
      phase⟩
  | ended idle covers => exact absurd (hkept.operation.symm.trans idle) h.operation

theorem consistent_zero : Consistent .zero :=
  ⟨nofun, .inl ⟨rfl, nofun, .inl rfl, nofun⟩⟩

theorem consistent_init (cfg : Option Cfg) (driverInit : DeviceCfg → Result) :
    Consistent (init cfg driverInit).1 := by
  by_cases hsuccess : (init cfg driverInit).2 = .success
  · obtain ⟨c, -, hvalid, heq⟩ := init_spec hsuccess
    rw [heq]
    refine ⟨fun c' hc' => ?_, .inl ⟨rfl, nofun, .inr (.inl rfl), nofun⟩⟩
    cases hc'
    exact hvalid
  · have hblank (result : Result) (h : result ≠ .inProgress) : Consistent (.blank .error result) :=
      ⟨nofun, .inl ⟨rfl, h, .inr (.inr (.inr rfl)), nofun⟩⟩
    unfold init at hsuccess ⊢
    split
    · exact hblank _ (by decide)
    split
    · exact hblank _ (by decide)
    split
    · exact hblank _ (by decide)
    split
    · exact hblank _ (by decide)
    · rename_i hne hvalid hdriver
      exact absurd (by dsimp only; rw [if_neg hne, if_neg hvalid, if_neg hdriver]) hsuccess

/-- A request, from what both summaries say of it -/
theorem Consistent.handled (h : Consistent f) {out : Fal × Result} (hout : Handled f out)
    (hsubmitted : ∀ cfg, f.cfg = some cfg → cfg.Valid → ∃ r, Submitted cfg f r out) :
    Consistent out.1 := by
  cases hout with
  | refused hrefuses => exact h
  | empty idle running =>
    refine ⟨h.valid, .inl ?_⟩
    rcases h.phase with hrest | hwork
    · exact ⟨idle, nofun, hrest.state, hrest.stopped⟩
    · exact absurd idle hwork.operation
  | @begun f' idle running working issuing result stopRequested cfg mounted =>
    obtain ⟨c, hc⟩ := Option.ne_none_iff_exists'.1 mounted
    have hvalid := h.valid c hc
    refine ⟨fun c' hc' => h.valid c' (cfg.symm.trans hc'), .inr ⟨working, result, issuing, c,
      cfg.trans hc, ?_⟩⟩
    obtain ⟨r, hr⟩ := hsubmitted c hc hvalid
    cases hr with
    | refused hrefuses => exact absurd rfl hrefuses.1
    | begun idle cfg_eq p flight phase => exact ⟨r, p, [], [], flight, phase⟩

theorem process_of_none (h : f.operation = .none) (deviceState : DeviceState) (answer : Result) :
    f.process deviceState answer = (f, []) := by
  unfold Fal.process
  split
  · rfl
  · rw [if_pos h]

theorem process_cfg (f : Fal) (deviceState : DeviceState) (answer : Result) :
    (f.process deviceState answer).1.cfg = f.cfg := by
  unfold Fal.process
  split
  · rfl
  split
  · rfl
  split
  · exact deviceProcess_cfg _ _ _ _
  · rfl

theorem Consistent.process (h : Consistent f) (deviceState : DeviceState) (answer : Result) :
    Consistent (f.process deviceState answer).1 := by
  refine ⟨fun cfg hcfg => h.valid cfg ((process_cfg f deviceState answer).symm.trans hcfg), ?_⟩
  rcases h.phase with hrest | hwork
  · rw [process_of_none hrest.operation]
    exact .inl hrest
  · exact hwork.process h.valid deviceState answer

theorem Consistent.stopRequest (h : Consistent f) : Consistent f.stopRequest.1 := by
  unfold Fal.stopRequest
  split
  · exact h
  refine ⟨h.valid, ?_⟩
  rcases h.phase with hrest | hwork
  · refine .inl ⟨hrest.operation, hrest.result, ?_, fun _ => ?_⟩ <;>
      simp [Fal.isBusy, hrest.operation, State.resting]
  · have hbusy : f.isBusy = true := by simpa [Fal.isBusy] using hwork.operation
    obtain ⟨cfg, hcfg, r, p, ranges, calls, hflight, hphase⟩ := hwork.flight
    simp only [hbusy, if_true]
    exact .inr ⟨hwork.operation, hwork.result, hwork.operationState, cfg, hcfg, r, p, ranges, calls,
      hflight.stop hphase⟩

theorem Consistent.op (h : Consistent f) (op : Op) : Consistent (f.op op) := by
  cases op with
  | init cfg driverInit => exact consistent_init cfg driverInit
  | act a =>
    cases a with
    | read zoneId offset length data =>
      exact h.handled (read_handled f zoneId offset length data)
        fun cfg hcfg hv => ⟨_, read_spec hcfg hv zoneId offset length data⟩
    | write zoneId offset length data =>
      exact h.handled (write_handled f zoneId offset length data)
        fun cfg hcfg hv => ⟨_, write_spec hcfg hv zoneId offset length data⟩
    | erase zoneId offset length =>
      exact h.handled (erase_handled f zoneId offset length)
        fun cfg hcfg hv => ⟨_, erase_spec hcfg hv zoneId offset length⟩
    | process deviceState answer => exact h.process deviceState answer
    | stop => exact h.stopRequest

theorem consistent_of_reachable (hf : falRuns.Reachable f) : Consistent f :=
  hf.invariant (fun _ hinit => hinit ▸ consistent_zero) fun _ _ h ⟨op, heq⟩ => heq ▸ h.op op

/-- A request that is begun or done takes an instance that has not been stopped. -/
theorem Consistent.refused (h : Consistent f) (hstop : f.stopRequested = true ∨ f.operation ≠ .none)
    {out : Fal × Result} (hout : Handled f out) : out.1 = f ∧ out.2.refuses := by
  have hnot (idle : f.operation = .none) (running : f.state ≠ .stopped) : False := by
    rcases h.phase with hrest | hwork
    · exact hstop.elim (fun htrue => running (hrest.stopped htrue)) fun hbusy => hbusy idle
    · exact hwork.operation idle
  cases hout with
  | refused hrefuses => exact ⟨rfl, hrefuses⟩
  | empty idle running => exact absurd running (hnot idle)
  | begun idle running => exact absurd running (hnot idle)

/-- A request, if it is one -/
def Fal.request (f : Fal) : Act → Option (Fal × Result)
  | .read zoneId offset length data => some (f.read zoneId offset length data)
  | .write zoneId offset length data => some (f.write zoneId offset length data)
  | .erase zoneId offset length => some (f.erase zoneId offset length)
  | .process _ _ => none
  | .stop => none

theorem request_handled {a : Act} {out : Fal × Result} (h : f.request a = some out) :
    Handled f out ∧ f.op (.act a) = out.1 := by
  cases a with
  | read zoneId offset length data =>
    cases h
    exact ⟨read_handled f zoneId offset length data, rfl⟩
  | write zoneId offset length data =>
    cases h
    exact ⟨write_handled f zoneId offset length data, rfl⟩
  | erase zoneId offset length =>
    cases h
    exact ⟨erase_handled f zoneId offset length, rfl⟩
  | process deviceState answer => cases h
  | stop => cases h

/-- The branch for a wait without a chunk and without a sync -/
theorem deviceProcess_result (hresult : f.result = .inProgress)
    (hwait : f.state = .waitDevice → f.chunkLength = 0 → f.syncIssued = true) (device : DeviceCfg)
    (deviceState : DeviceState) (answer : Result) :
    (f.deviceProcess device deviceState answer).1.result ≠ .configError := by
  have hgoing : f.result ≠ .configError := by rw [hresult]; decide
  unfold Fal.deviceProcess
  split
  · exact nofun
  split
  · rename_i hstate
    split
    · exact hgoing
    split
    · dsimp only
      split
      · unfold Fal.operationCompleteOrSync
        split
        · split
          · exact nofun
          · exact hgoing
        · exact nofun
      · exact hgoing
    rename_i hchunk
    split
    · exact nofun
    · rename_i hsync
      exact absurd (hwait hstate (Decidable.not_not.1 hchunk)) hsync
  split
  · exact hgoing
  unfold Fal.operationIssue
  split
  · exact nofun
  split
  · exact hgoing
  · exact nofun

/-- A request that waits has a chunk in flight, or a sync. -/
theorem Working.wait (h : Working f) (hstate : f.state = .waitDevice) (hchunk : f.chunkLength = 0) :
    f.syncIssued = true := by
  obtain ⟨cfg, hcfg, r, p, ranges, calls, hflight, hphase⟩ := h.flight
  cases hphase with
  | ready state_eq => exact absurd (state_eq.symm.trans hstate) hflight.resumes
  | waiting state_eq chunk_ne => exact absurd hchunk chunk_ne
  | syncing state_eq chunk_eq finished synced => exact synced

theorem Working.state (h : Working f) : ¬f.state.resting := by
  obtain ⟨cfg, hcfg, r, p, ranges, calls, hflight, hphase⟩ := h.flight
  cases hphase with
  | ready state_eq =>
    rw [state_eq]
    rcases h.operationState with heq | heq | heq <;> rw [heq, State.resting] <;> simp
  | waiting state_eq => rw [state_eq, State.resting]; simp
  | syncing state_eq => rw [state_eq, State.resting]; simp

theorem deviceProcess_stopRequested (f : Fal) (device : DeviceCfg) (deviceState : DeviceState)
    (answer : Result) :
    (f.deviceProcess device deviceState answer).1.stopRequested = f.stopRequested := by
  unfold Fal.deviceProcess
  split
  · rfl
  split
  · split
    · rfl
    split
    · dsimp only
      split
      · unfold Fal.operationCompleteOrSync
        split
        · split <;> rfl
        · rfl
      · rfl
    split <;> rfl
  split
  · rfl
  unfold Fal.operationIssue
  split
  · rfl
  split <;> rfl

/-- A stop is not taken back without an initialisation. -/
theorem Consistent.stopRequested_op (h : Consistent f) (hstop : f.stopRequested = true) (a : Act) :
    (f.op (.act a)).stopRequested = true := by
  cases hrequest : f.request a with
  | some out =>
    obtain ⟨hout, heq⟩ := request_handled hrequest
    rw [heq, (h.refused (.inl hstop) hout).1, hstop]
  | none =>
    cases a with
    | read => cases hrequest
    | write => cases hrequest
    | erase => cases hrequest
    | process deviceState answer =>
      unfold Fal.op
      dsimp only
      rcases h.phase with hrest | hwork
      · rw [process_of_none hrest.operation, hstop]
      · obtain ⟨cfg, hcfg, r, p, ranges, calls, hflight, hphase, heq⟩ :=
          hwork.process_eq h.valid deviceState answer
        rw [heq, deviceProcess_stopRequested, hstop]
    | stop =>
      unfold Fal.op Fal.stopRequest
      dsimp only
      split
      · exact hstop
      · rfl

/-- A stopped instance has no request any more. -/
theorem Consistent.operation_op (h : Consistent f) (hstop : f.stopRequested = true)
    (hrest : f.operation = .none) (a : Act) : (f.op (.act a)).operation = .none := by
  cases hrequest : f.request a with
  | some out =>
    obtain ⟨hout, heq⟩ := request_handled hrequest
    rw [heq, (h.refused (.inl hstop) hout).1, hrest]
  | none =>
    cases a with
    | read => cases hrequest
    | write => cases hrequest
    | erase => cases hrequest
    | process deviceState answer =>
      unfold Fal.op
      dsimp only
      rw [process_of_none hrest, hrest]
    | stop =>
      unfold Fal.op Fal.stopRequest
      dsimp only
      split <;> exact hrest

/-- State, operation and result agree; the branch for a wait without a chunk or a sync is not
reached; what is refused changes nothing; and an instance that is to stop takes no request, and is
stopped from the end of its request on. -/
theorem fal_consistent (hf : falRuns.Reachable f) :
    (f.operation = .none ↔ f.state.resting) ∧
    (f.result = .inProgress ↔ f.operation ≠ .none) ∧
    (f.state = .waitDevice → f.chunkLength = 0 → f.syncIssued = true) ∧
    (∀ deviceState answer, f.operation ≠ .none →
      (f.process deviceState answer).1.result ≠ .configError) ∧
    (∀ a out, f.request a = some out → (f.operation ≠ .none → out.2.refuses) ∧
      (out.2.refuses → f.op (.act a) = f)) ∧
    (f.stopRequested = true → ∀ g, falService.Steps f g →
      (∀ a out, g.request a = some out → out.2.refuses ∧ g.op (.act a) = g) ∧
      (g.operation = .none → ∀ g', falService.Steps g g' → g'.state = .stopped)) := by
  have hc := consistent_of_reachable hf
  have hstopping {f g : Fal} (hc : Consistent f) (hstop : f.stopRequested = true)
      (hsteps : falService.Steps f g) : Consistent g ∧ g.stopRequested = true := by
    refine hsteps.invariant (P := fun g => Consistent g ∧ g.stopRequested = true) ⟨hc, hstop⟩
      fun u v h hnext => ?_
    obtain ⟨a, rfl⟩ := hnext
    exact ⟨h.1.op (.act a), h.1.stopRequested_op h.2 a⟩
  refine ⟨?_, ?_, ?_, ?_, ?_, ?_⟩
  · rcases hc.phase with hrest | hwork
    · exact iff_of_true hrest.operation hrest.state
    · exact iff_of_false hwork.operation hwork.state
  · rcases hc.phase with hrest | hwork
    · exact iff_of_false hrest.result fun hne => hne hrest.operation
    · exact iff_of_true hwork.result hwork.operation
  · intro hstate
    rcases hc.phase with hrest | hwork
    · have := hrest.state
      rw [hstate, State.resting] at this
      simp at this
    · exact hwork.wait hstate
  · intro deviceState answer hbusy
    have hwork : Working f := hc.phase.resolve_left fun hrest => hbusy hrest.operation
    obtain ⟨cfg, hcfg, r, p, ranges, calls, hflight, hphase, heq⟩ :=
      hwork.process_eq hc.valid deviceState answer
    rw [heq]
    exact deviceProcess_result hwork.result hwork.wait p.device deviceState answer
  · intro a out hrequest
    obtain ⟨hout, heq⟩ := request_handled hrequest
    refine ⟨fun hbusy => (hc.refused (.inr hbusy) hout).2, fun hrefuses => ?_⟩
    rw [heq]
    cases hout with
    | refused => rfl
    | empty => exact absurd rfl hrefuses.2
    | begun => exact absurd rfl hrefuses.1
  · intro hstop g hg
    obtain ⟨hcg, hstopg⟩ := hstopping hc hstop hg
    refine ⟨fun a out hrequest => ?_, fun hidle g' hg' => ?_⟩
    · obtain ⟨hout, heq⟩ := request_handled hrequest
      obtain ⟨hsame, hrefuses⟩ := hcg.refused (.inl hstopg) hout
      exact ⟨hrefuses, heq.trans hsame⟩
    · obtain ⟨hcg', hstopg'⟩ := hstopping hcg hstopg hg'
      have hidle' : g'.operation = .none := by
        refine (hg'.invariant (P := fun g => (Consistent g ∧ g.stopRequested = true) ∧
          g.operation = .none) ⟨⟨hcg, hstopg⟩, hidle⟩ fun u v h hnext => ?_).2
        obtain ⟨a, rfl⟩ := hnext
        exact ⟨⟨h.1.1.op (.act a), h.1.1.stopRequested_op h.1.2 a⟩,
          h.1.1.operation_op h.1.2 h.2 a⟩
      rcases hcg'.phase with hrest | hwork
      · exact hrest.stopped hstopg'
      · exact absurd hidle' hwork.operation

/-- One device with one zone, which is read in chunks of 8 bytes -/
def demoCfg : Cfg where
  devices := [
    { deviceId := 1, capacity := 64, programPageSize := 8, eraseBlockSize := 16, maxReadSize := 8
      zones := [⟨1, 64, permissionAll⟩], ops := ⟨true, true, true, true, true, false⟩
      programUnitSize := 0 }]

/-- A read of two chunks, the first of which is in flight when the stop comes -/
def demoStopping (acts : List Act) : Fal :=
  ([Act.read 1 0 16 (some 0), .process .ready .success, .stop] ++ acts).foldl
    (fun f a => f.op (.act a)) (Fal.zero.op (.init (some demoCfg) fun _ => .success))

theorem demoStopping_reachable (acts : List Act) : falRuns.Reachable (demoStopping acts) :=
  Transition.Reachable.foldl (T := falRuns) (fun _ a => ⟨.act a, rfl⟩) _
    (.step (.start rfl) ⟨_, rfl⟩)

/-- The driver has finished its step, and the instance goes on with the second chunk. -/
theorem not_stopped_after_chunk :
    falRuns.Reachable (demoStopping [.process .ready .success]) ∧
      (demoStopping [.process .ready .success]).stopRequested = true ∧
      (demoStopping [.process .ready .success]).chunkLength = 0 ∧
      (demoStopping [.process .ready .success]).state = .read :=
  ⟨demoStopping_reachable _, by decide +kernel, by decide +kernel, by decide +kernel⟩

/-- The request ends, and the instance is stopped. -/
theorem stopped_after_request :
    (demoStopping [.process .ready .success, .process .ready .success,
      .process .ready .success]).state = .stopped := by
  have h := (fal_consistent (demoStopping_reachable [.process .ready .success,
    .process .ready .success, .process .ready .success])).2.2.2.2.2
  exact (h (by decide +kernel) _ .refl).2 (by decide +kernel) _ .refl

end Atoman.FalCore
