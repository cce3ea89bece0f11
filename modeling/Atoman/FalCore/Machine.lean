import Mathlib.Data.List.Basic

/-!
# The flash abstraction layer

`fal_core.c`: the check of a configuration, the requests on a zone, and the state
machine that turns an accepted request into driver calls, one step at a time. A
missing table is an empty one, a pointer is a number, and a driver function is there
or not; what the driver answers is a parameter of each step.
-/

namespace Atoman.FalCore

/-- `fal_result_t` -/
inductive Result
  | success | inProgress | busy | invalidArgument | outOfRange | configError | permissionDenied
  | driverError | stopped
  deriving DecidableEq, Repr

/-- `fal_device_state_t` -/
inductive DeviceState
  | ready | busy | error
  deriving DecidableEq, Repr

/-- `fal_state_t` -/
inductive State
  | uninitialized | idle | read | write | erase | waitDevice | stopped | error
  deriving DecidableEq, Repr

/-- `fal_operation_type_t` -/
inductive OperationType
  | none | read | write | erase
  deriving DecidableEq, Repr

/-- `fal_flash_ops_t`: the functions that are mounted. -/
structure FlashOps where
  init : Bool
  getState : Bool
  read : Bool
  program : Bool
  erase : Bool
  sync : Bool
  deriving DecidableEq, Repr

/-- `fal_zone_cfg_t` -/
structure ZoneCfg where
  zoneId : UInt16
  size : UInt32
  permissions : UInt8
  deriving DecidableEq, Repr

/-- `fal_device_cfg_t` -/
structure DeviceCfg where
  deviceId : UInt16
  capacity : UInt32
  programPageSize : UInt32
  eraseBlockSize : UInt32
  maxReadSize : UInt32
  zones : List ZoneCfg
  ops : FlashOps
  programUnitSize : UInt32
  deriving DecidableEq, Repr

/-- `fal_cfg_t` -/
structure Cfg where
  devices : List DeviceCfg
  deriving DecidableEq, Repr

/-- A pointer into the memory of the caller. -/
abbrev Pointer := Option ℕ

/-- `fal_t` -/
structure Fal where
  cfg : Option Cfg
  readData : Pointer
  writeData : Pointer
  physicalAddress : UInt32
  remaining : UInt32
  chunkLength : UInt32
  activeDeviceId : UInt16
  state : State
  operationState : State
  operation : OperationType
  result : Result
  stopRequested : Bool
  syncIssued : Bool
  deriving DecidableEq, Repr

/-- A call of a driver function of a device. -/
inductive Call
  | read (device : UInt16) (address length : UInt32) (data : Pointer)
  | program (device : UInt16) (address length : UInt32) (data : Pointer)
  | erase (device : UInt16) (address length : UInt32)
  | sync (device : UInt16)
  deriving DecidableEq, Repr

/-- `FAL_ZONE_PERMISSION_READ` -/
def permissionRead : UInt8 := 1
/-- `FAL_ZONE_PERMISSION_WRITE` -/
def permissionWrite : UInt8 := 2
/-- `FAL_ZONE_PERMISSION_ERASE` -/
def permissionErase : UInt8 := 4
/-- `FAL_ZONE_PERMISSION_ALL` -/
def permissionAll : UInt8 := permissionRead ||| permissionWrite ||| permissionErase

/-! ## Zones -/

/-- The zone table of a device is searched; a zone starts where the one before ends. -/
def zoneFindIn (zoneId : UInt16) : UInt32 → List ZoneCfg → Option (ZoneCfg × UInt32)
  | _, [] => none
  | deviceOffset, zone :: rest =>
    if zone.zoneId = zoneId then some (zone, deviceOffset)
    else zoneFindIn zoneId (deviceOffset + zone.size) rest

/-- `zone_find`: the zone, its device and its address there. -/
def Cfg.zoneFind (cfg : Cfg) (zoneId : UInt16) : Option (ZoneCfg × DeviceCfg × UInt32) :=
  cfg.devices.findSome? fun device =>
    (zoneFindIn zoneId 0 device.zones).map fun found => (found.1, device, found.2)

/-! ## Validation -/

/-- A loop over a table that stops at the first entry refused; `check` also sees the
entries in front of it. -/
def validateTable {α : Type} (check : List α → α → Result) : List α → List α → Result
  | _, [] => .success
  | before, x :: rest =>
    if check before x = .success then validateTable check (before ++ [x]) rest else check before x

/-- `device_validate`; `before` are the devices in front of it. -/
def deviceValidate (before : List DeviceCfg) (device : DeviceCfg) : Result :=
  if device.capacity = 0 ∨ device.programPageSize = 0 ∨ device.eraseBlockSize = 0 ∨
      device.capacity < device.programPageSize ∨ device.capacity < device.eraseBlockSize ∨
      device.zones = [] ∨ ¬ device.ops.init ∨ ¬ device.ops.getState ∨ ¬ device.ops.read ∨
      ¬ device.ops.program ∨ ¬ device.ops.erase then .configError
  else if device.programUnitSize ≠ 0 ∧
      (device.programPageSize % device.programUnitSize ≠ 0 ∨
        device.eraseBlockSize % device.programUnitSize ≠ 0) then .configError
  else if before.any fun other => other.deviceId == device.deviceId then .configError
  else .success

/-- The address behind the preceding zones, if they fit the device. -/
def precedingOffset (capacity : UInt32) : UInt32 → List ZoneCfg → Option UInt32
  | deviceOffset, [] => some deviceOffset
  | deviceOffset, zone :: rest =>
    if capacity - deviceOffset < zone.size then none
    else precedingOffset capacity (deviceOffset + zone.size) rest

/-- `zone_id_is_duplicate`: an earlier device, or an earlier zone of this one, has it. -/
def zoneIdIsDuplicate (devices : List DeviceCfg) (before : List ZoneCfg) (zone : ZoneCfg) : Bool :=
  (devices.any fun device => device.zones.any fun other => other.zoneId == zone.zoneId) ||
    before.any fun other => other.zoneId == zone.zoneId

/-- `zone_validate`; `before` are the zones in front of it, `devices` the devices in
front of its device. -/
def zoneValidate (devices : List DeviceCfg) (device : DeviceCfg) (before : List ZoneCfg)
    (zone : ZoneCfg) : Result :=
  match precedingOffset device.capacity 0 before with
  | none => .configError
  | some deviceOffset =>
    if zone.size = 0 ∨ zone.permissions &&& ~~~permissionAll ≠ 0 ∨ zone.permissions = 0 ∨
        device.capacity - deviceOffset < zone.size ∨ deviceOffset % device.eraseBlockSize ≠ 0 ∨
        zone.size % device.eraseBlockSize ≠ 0 then .configError
    else if zoneIdIsDuplicate devices before zone then .configError
    else .success

/-- A zeroed instance without a configuration. -/
def Fal.blank (state : State) (result : Result) : Fal :=
  { cfg := none, readData := none, writeData := none, physicalAddress := 0, remaining := 0
    chunkLength := 0, activeDeviceId := 0, state := state, operationState := .uninitialized
    operation := .none, result := result, stopRequested := false, syncIssued := false }

/-- The checks of `fal_init` on the tables. -/
def Cfg.validate (cfg : Cfg) : Result :=
  if validateTable deviceValidate [] cfg.devices = .success then
    validateTable
      (fun devices device => validateTable (zoneValidate devices device) [] device.zones)
      [] cfg.devices
  else validateTable deviceValidate [] cfg.devices

/-- `fal_init`; `driverInit` is what the init function of each device answers. -/
def init (cfg : Option Cfg) (driverInit : DeviceCfg → Result) : Fal × Result :=
  match cfg with
  | none => (.blank .error .configError, .configError)
  | some cfg =>
    if cfg.devices = [] then (.blank .error .configError, .configError)
    else if cfg.validate ≠ .success then (.blank .error .configError, cfg.validate)
    else if cfg.devices.any fun device => driverInit device ≠ .success then
      (.blank .error .driverError, .driverError)
    else
      ({ Fal.blank .idle .success with cfg := some cfg, operationState := .idle }, .success)

/-! ## Requests -/

/-- `fal_is_busy` -/
def Fal.isBusy (f : Fal) : Bool := f.operation ≠ .none

/-- `request_validate`: the zone, its device and its address there. -/
def Fal.requestValidate (f : Fal) (zoneId : UInt16) (offset length : UInt32) (permission : UInt8) :
    Except Result (ZoneCfg × DeviceCfg × UInt32) :=
  if f.state = .stopped then .error .stopped
  else if f.state = .uninitialized ∨ f.state = .error then .error .configError
  else
    match f.cfg with
    | none => .error .configError
    | some cfg =>
      if f.isBusy then .error .busy
      else
        match cfg.zoneFind zoneId with
        | none => .error .invalidArgument
        | some (zone, device, deviceOffset) =>
          if zone.permissions &&& permission = 0 then .error .permissionDenied
          else if zone.size < offset ∨ zone.size - offset < length then .error .outOfRange
          else .ok (zone, device, deviceOffset)

/-- `request_begin` -/
def Fal.requestBegin (f : Fal) (device : DeviceCfg) (operation : OperationType)
    (operationState : State) (physicalAddress length : UInt32) : Fal :=
  { f with
    activeDeviceId := device.deviceId, physicalAddress := physicalAddress, remaining := length
    chunkLength := 0, operation := operation, operationState := operationState
    state := operationState, result := .inProgress, syncIssued := false }

/-- `fal_read` -/
def Fal.read (f : Fal) (zoneId : UInt16) (offset length : UInt32) (data : Pointer) : Fal × Result :=
  if data = none ∧ length ≠ 0 then (f, .invalidArgument)
  else
    match f.requestValidate zoneId offset length permissionRead with
    | .error result => (f, result)
    | .ok (_, device, deviceOffset) =>
      if length = 0 then ({ f with result := .success }, .success)
      else
        ({ f.requestBegin device .read .read (deviceOffset + offset) length with readData := data },
          .inProgress)

/-- `fal_write` -/
def Fal.write (f : Fal) (zoneId : UInt16) (offset length : UInt32) (data : Pointer) :
    Fal × Result :=
  if data = none ∧ length ≠ 0 then (f, .invalidArgument)
  else
    match f.requestValidate zoneId offset length permissionWrite with
    | .error result => (f, result)
    | .ok (_, device, deviceOffset) =>
      if length = 0 then ({ f with result := .success }, .success)
      else if device.programUnitSize ≠ 0 ∧
          ((deviceOffset + offset) % device.programUnitSize ≠ 0 ∨
            length % device.programUnitSize ≠ 0) then (f, .invalidArgument)
      else
        ({ f.requestBegin device .write .write (deviceOffset + offset) length with
            writeData := data }, .inProgress)

/-- The end of a range, rounded up to whole blocks. -/
def eraseEnd (requestedEnd eraseBlockSize : UInt32) : UInt32 :=
  if requestedEnd % eraseBlockSize ≠ 0 then
    requestedEnd + (eraseBlockSize - requestedEnd % eraseBlockSize)
  else requestedEnd

/-- `fal_erase` -/
def Fal.erase (f : Fal) (zoneId : UInt16) (offset length : UInt32) : Fal × Result :=
  match f.requestValidate zoneId offset length permissionErase with
  | .error result => (f, result)
  | .ok (zone, device, deviceOffset) =>
    if length = 0 then ({ f with result := .success }, .success)
    else
      let eraseOffset := offset - offset % device.eraseBlockSize
      let eraseEnd := eraseEnd (offset + length) device.eraseBlockSize
      if zone.size < eraseEnd then (f, .outOfRange)
      else
        (f.requestBegin device .erase .erase (deviceOffset + eraseOffset) (eraseEnd - eraseOffset),
          .inProgress)

/-- `fal_stop_request` -/
def Fal.stopRequest (f : Fal) : Fal × Result :=
  if f.state = .uninitialized ∨ f.state = .error then (f, .configError)
  else
    ({ f with stopRequested := true, state := if f.isBusy then f.state else .stopped }, .success)

/-! ## The state machine -/

/-- `operation_finish`, with `operation_clear`. -/
def Fal.operationFinish (f : Fal) (result : Result) : Fal :=
  { f with
    readData := none, writeData := none, physicalAddress := 0, remaining := 0, chunkLength := 0
    activeDeviceId := 0, operationState := .idle, operation := .none, syncIssued := false
    result := result, state := if f.stopRequested then .stopped else .idle }

/-- `read_chunk_get` -/
def Fal.readChunkGet (f : Fal) (device : DeviceCfg) : UInt32 :=
  if device.maxReadSize ≠ 0 ∧ device.maxReadSize < f.remaining then device.maxReadSize
  else f.remaining

/-- `write_chunk_get` -/
def Fal.writeChunkGet (f : Fal) (device : DeviceCfg) : UInt32 :=
  let pageAvailable := device.programPageSize - f.physicalAddress % device.programPageSize
  if f.remaining < pageAvailable then f.remaining else pageAvailable

/-- The next chunk of the active request, with the driver call for it. -/
def Fal.nextCall (f : Fal) (device : DeviceCfg) : Option (UInt32 × Call) :=
  match f.operation with
  | .none => none
  | .read =>
    let chunk := f.readChunkGet device
    some (chunk, .read device.deviceId f.physicalAddress chunk f.readData)
  | .write =>
    let chunk := f.writeChunkGet device
    some (chunk, .program device.deviceId f.physicalAddress chunk f.writeData)
  | .erase =>
    let chunk := device.eraseBlockSize
    some (chunk, .erase device.deviceId f.physicalAddress chunk)

/-- `operation_issue`, with what is done on its result: the driver answers `answer`. -/
def Fal.operationIssue (f : Fal) (device : DeviceCfg) (answer : Result) : Fal × List Call :=
  match f.nextCall device with
  | none => (f.operationFinish .driverError, [])
  | some (chunk, call) =>
    if answer = .success then ({ f with chunkLength := chunk, state := .waitDevice }, [call])
    else (f.operationFinish .driverError, [call])

/-- `completed_chunk_commit` -/
def Fal.completedChunkCommit (f : Fal) : Fal :=
  { f with
    physicalAddress := f.physicalAddress + f.chunkLength
    remaining := f.remaining - f.chunkLength
    readData := if f.operation = .read then f.readData.map (· + f.chunkLength.toNat) else f.readData
    writeData :=
      if f.operation = .write then f.writeData.map (· + f.chunkLength.toNat) else f.writeData
    chunkLength := 0 }

/-- `operation_complete_or_sync`; the driver answers `answer`. -/
def Fal.operationCompleteOrSync (f : Fal) (device : DeviceCfg) (answer : Result) :
    Fal × List Call :=
  if device.ops.sync ∧ ¬ f.syncIssued then
    if answer ≠ .success then (f.operationFinish .driverError, [.sync device.deviceId])
    else
      ({ f with syncIssued := true, chunkLength := 0, state := .waitDevice },
        [.sync device.deviceId])
  else (f.operationFinish .success, [])

/-- `device_process`: the driver reports `deviceState`, and answers `answer` if it is
called. -/
def Fal.deviceProcess (f : Fal) (device : DeviceCfg) (deviceState : DeviceState)
    (answer : Result) : Fal × List Call :=
  if deviceState = .error then (f.operationFinish .driverError, [])
  else if f.state = .waitDevice then
    if deviceState = .busy then (f, [])
    else if f.chunkLength ≠ 0 then
      let f := f.completedChunkCommit
      if f.remaining = 0 then f.operationCompleteOrSync device answer
      else ({ f with state := f.operationState }, [])
    else if f.syncIssued then (f.operationFinish .success, [])
    else (f.operationFinish .configError, [])
  else if deviceState = .busy then (f, [])
  else f.operationIssue device answer

/-- `fal_process` -/
def Fal.process (f : Fal) (deviceState : DeviceState) (answer : Result) : Fal × List Call :=
  match f.cfg with
  | none => (f, [])
  | some cfg =>
    if f.operation = .none then (f, [])
    else
      match cfg.devices.find? fun device => device.deviceId == f.activeDeviceId with
      | some device => f.deviceProcess device deviceState answer
      | none => (f.operationFinish .configError, [])

end Atoman.FalCore
