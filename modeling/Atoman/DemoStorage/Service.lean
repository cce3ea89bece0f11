import Mathlib.Logic.Function.Basic
import Atoman.DemoStorage.Record
import Atoman.FalCore.Machine

/-!
# The storage service

`demo_storage_service.c`: one transaction at a time, advanced by one call after the
other. A scan reads both parameter slots and the log; a save then erases the slot that
is not active, writes the data page, reads it back, and only then the commit page. The
flash is behind `transfer`; what it answers, the pool and the mounting of a device are
inputs of a call. Diagnostics of the hardware are left out.
-/

namespace Atoman.DemoStorage
open Lib
open FalCore (Result)

/-- `DEMO_FAL_DEVICE_E` -/
inductive Device
  | nor | nand
  deriving DecidableEq, Repr

/-- The page of a device. -/
def Device.programPageSize : Device → ℕ
  | .nor => 256
  | .nand => 2048

/-- The erase block of a device. -/
def Device.eraseBlockSize : Device → ℕ
  | .nor => 4096
  | .nand => 131072

/-- `DEMO_FAL_LOG_BLOCKS` -/
def logBlocks : ℕ := 4

/-- `DEMO_STORAGE_COMMAND_E` -/
inductive Command
  | scan | save | load | test | log | defaults
  deriving DecidableEq, Repr

/-- `demo_storage_request_t` -/
structure Request where
  params : Params
  command : Command
  id : UInt32
  device : Device
  deriving DecidableEq, Repr

/-- What the transactions use of `demo_storage_device_t`. -/
structure View where
  online : Bool
  valid : Bool
  sequence : UInt32
  logSequence : UInt32
  lastLog : Params
  deriving DecidableEq, Repr

/-- `STORAGE_PHASE_E` -/
inductive Phase
  | idle | scanData | scanCommit | decide | erase | write | verify | commit | verifyCommit | finish
  deriving DecidableEq, Repr

/-- A transfer of the flash layer, on a zone of the device that is worked on. -/
inductive Op
  | read (zone offset length : ℕ)
  | write (zone offset : ℕ) (data : List UInt8)
  | erase (zone offset length : ℕ)
  deriving DecidableEq, Repr

/-- The variables of the module. -/
structure Service where
  views : Device → View
  recovered : Device → Params
  request : Request
  phase : Phase
  dataPage : List UInt8
  commitPage : List UInt8
  verifyPage : List UInt8
  activeSlot : Device → ℕ
  logSlot : Device → ℕ
  logSequence : Device → UInt32
  scanSlot : ℕ
  scanFailed : Bool
  waiting : Bool
  booting : Bool
  restore : Bool
  targetZone : ℕ
  targetOffset : ℕ
  nextSequence : UInt32
  outcome : Int
  ioResult : Result

/-- What the flash layer does with a transfer: the result of a submission; whether the
instance is busy, and if not, its result; and what a read has put into the buffer. -/
structure Answer where
  submit : Result
  busy : Bool
  result : Result
  data : List UInt8
  deriving DecidableEq, Repr

/-- What a call finds outside: a request in the pool, the result of mounting, the answer
of the flash layer, and whether the pool takes the result. -/
structure Input where
  taken : Option Request
  mounted : Bool
  answer : Answer
  finished : Bool
  deriving DecidableEq, Repr

/-- `defaults` -/
def defaults : Params := ⟨1000, 1000, 1500⟩

/-- The number of a `fal_result_t`. -/
def resultCode : Result → Int
  | .success => 0
  | .inProgress => 1
  | .busy => 2
  | .invalidArgument => -1
  | .outOfRange => -2
  | .configError => -3
  | .permissionDenied => -4
  | .driverError => -5
  | .stopped => -6

namespace Service
variable (s : Service)

/-- `views[request.device]` -/
def view : View := s.views s.request.device

def setView (v : View) : Service := { s with views := Function.update s.views s.request.device v }

/-- The page of the device that is worked on. -/
def page : ℕ := s.request.device.programPageSize

/-- Its erase block. -/
def block : ℕ := s.request.device.eraseBlockSize

/-- `mount` -/
def mount (mounted : Bool) : Service := s.setView { s.view with online := mounted }

/-- `scan_begin` -/
def scanBegin : Service :=
  { s.setView
      { s.view with valid := false, sequence := 0, logSequence := 0, lastLog := ⟨0, 0, 0⟩ } with
    scanSlot := 0, scanFailed := false
    logSequence := Function.update s.logSequence s.request.device 0
    logSlot := Function.update s.logSlot s.request.device (logBlocks - 1), phase := .scanData }

/-- `demo_storage_service_init` after a reset; `online` is what mounting has found. -/
def init (online : Device → Bool) : Service :=
  scanBegin
    { views := fun d => ⟨online d, false, 0, 0, ⟨0, 0, 0⟩⟩, recovered := fun _ => ⟨0, 0, 0⟩
      request := ⟨⟨0, 0, 0⟩, .scan, 0, .nor⟩, phase := .idle
      dataPage := List.replicate 2048 0, commitPage := List.replicate 2048 0
      verifyPage := List.replicate 2048 0, activeSlot := fun _ => 0, logSlot := fun _ => 0
      logSequence := fun _ => 0, scanSlot := 0, scanFailed := false, waiting := false
      booting := true, restore := false, targetZone := 0, targetOffset := 0, nextSequence := 0
      outcome := 0, ioResult := .success }

/-- `transfer`; the second component says whether it has ended. -/
def transfer (a : Answer) : Service × Bool :=
  if s.waiting then
    if a.busy then (s, false) else ({ s with ioResult := a.result, waiting := false }, true)
  else if a.submit = .inProgress then ({ s with ioResult := a.submit, waiting := true }, false)
  else ({ s with ioResult := a.submit }, true)

/-! ## The scan -/

/-- The zone that is scanned: a parameter slot or the log. -/
def scanZone : ℕ := if s.scanSlot < 2 then s.scanSlot + 1 else 4

def scanOffset : ℕ := if s.scanSlot < 2 then 0 else (s.scanSlot - 2) * s.block

/-- The kind of record that is expected there. -/
def scanKind : UInt32 := if s.scanSlot < 2 then 1 else 2

/-- `scan_advance` -/
def scanAdvance (mounted : Bool) : Service :=
  let s := if s.ioResult ≠ .success then { s with scanFailed := true } else s
  let s := if s.ioResult = .driverError then s.mount mounted else s
  { s with
    scanSlot := s.scanSlot + 1
    phase := if s.scanSlot + 1 < logBlocks + 2 then .scanData else .decide }

/-- A record is complete: it counts if it is newer than what was found before. -/
def recordFound : Service :=
  let d := s.request.device
  let sequence := readU32Le s.dataPage 8
  if s.scanSlot < 2 then
    if newer sequence s.view.sequence then
      { s.setView { s.view with sequence := sequence, valid := true } with
        activeSlot := Function.update s.activeSlot d s.scanSlot
        recovered := Function.update s.recovered d (recordDecode s.dataPage) }
    else s
  else if newer sequence (s.logSequence d) then
    { s.setView { s.view with logSequence := sequence, lastLog := recordDecode s.dataPage } with
      logSequence := Function.update s.logSequence d sequence
      logSlot := Function.update s.logSlot d (s.scanSlot - 2) }
  else s

/-! ## The decision -/

/-- The transaction ends. -/
def conclude (outcome : Int) : Service := { s with outcome := outcome, phase := .finish }

/-- The target of a save or a log entry, and its record. -/
def prepare : Service :=
  let d := s.request.device
  let save := s.request.command = .save
  let sequence := DemoStorage.nextSequence (if save then s.view.sequence else s.logSequence d)
  let pages := recordEncode (s.dataPage, s.commitPage) s.page (if save then 1 else 2) sequence
    s.request.params
  { s with
    targetZone := if save then (if s.view.valid then 2 - s.activeSlot d else 1) else 4
    targetOffset := if save then 0 else (s.logSlot d + 1) % logBlocks * s.block
    nextSequence := sequence, dataPage := pages.1, commitPage := pages.2, phase := .erase }

/-- `decide` -/
def decide : Service :=
  if s.booting then
    match s.request.device with
    | .nor => { s with request := { s.request with device := .nand } }.scanBegin
    | .nand =>
      { s with
        request := { s.request with device := .nor }, restore := (s.views .nor).valid
        phase := .finish }
  else if s.request.command = .scan then
    s.conclude (if ¬ s.view.online ∨ s.scanFailed then -22 else 0)
  else if s.request.command = .load then
    { s with restore := s.view.valid }.conclude
      (if s.view.valid then 0 else if ¬ s.view.online then -22 else -20)
  else if ¬ s.view.online then s.conclude (-22)
  else if s.scanFailed then s.conclude (-23)
  else if ¬ s.request.params.valid then s.conclude (resultCode .invalidArgument)
  else s.prepare

/-! ## One call -/

/-- The bytes of the test page behind the record. -/
def testPattern (page : ℕ) : List UInt8 :=
  (List.range' 32 (page - 32)).map fun i => UInt8.ofNat (i ^^^ (i >>> 8))

/-- A request is taken from the pool. -/
def begin (r : Request) (mounted : Bool) : Service :=
  let s := { s with request := r, outcome := 0, restore := false, waiting := false }
  match r.command with
  | .defaults =>
    { s with
      recovered := Function.update s.recovered r.device defaults, restore := true
      phase := .finish }
  | .test =>
    if ¬ s.view.online then s.conclude (-22)
    else
      let pages := recordEncode (s.dataPage, s.commitPage) s.page 3 r.id defaults
      { s with
        targetZone := 3, targetOffset := s.block - s.page, nextSequence := r.id
        dataPage := pages.1.take 32 ++ testPattern s.page, commitPage := pages.2
        phase := .erase }
  | _ => (s.mount mounted).scanBegin

/-- What every operation of a transaction ends with: on an error the device is offline. -/
def ioChecked : Service :=
  if s.ioResult ≠ .success then
    (s.setView { s.view with online := false }).conclude (resultCode s.ioResult)
  else s

/-- The end of the last read: a save or a log entry is entered in the view. -/
def committedAfter : Service :=
  let s :=
    if s.ioResult = .success ∧ s.commitPage ≠ s.verifyPage then { s with outcome := -21 }
    else s
  let s :=
    if s.ioResult = .success ∧ s.outcome = 0 ∧ s.request.command = .save then
      { s.setView { s.view with valid := true, sequence := s.nextSequence } with
        activeSlot := Function.update s.activeSlot s.request.device (s.targetZone - 1) }
    else s
  let s :=
    if s.ioResult = .success ∧ s.outcome = 0 ∧ s.request.command = .log then
      s.setView { s.view with logSequence := s.nextSequence, lastLog := s.request.params }
    else s
  { s with phase := .finish }.ioChecked

/-- What follows when the transfer of a phase has ended. -/
def transferred (i : Input) : Service :=
  match s.phase with
  | .scanData =>
    let s := { s with dataPage := i.answer.data }
    if s.ioResult = .success ∧ dataValid s.dataPage s.scanKind then { s with phase := .scanCommit }
    else s.scanAdvance i.mounted
  | .scanCommit =>
    let s := { s with commitPage := i.answer.data }
    if s.ioResult = .success ∧ committed s.dataPage s.commitPage then
      s.recordFound.scanAdvance i.mounted
    else s.scanAdvance i.mounted
  | .erase => { s with phase := .write }.ioChecked
  | .write => { s with phase := .verify }.ioChecked
  | .verify =>
    let s := { s with verifyPage := i.answer.data }
    if s.ioResult = .success ∧ s.dataPage ≠ s.verifyPage then s.conclude (-21)
    else { s with phase := .commit }.ioChecked
  | .commit => { s with phase := .verifyCommit }.ioChecked
  | .verifyCommit => { s with verifyPage := i.answer.data }.committedAfter
  | .idle | .decide | .finish => s

/-- What a phase transfers. -/
def operation : Option Op :=
  match s.phase with
  | .scanData =>
    if s.view.online then some (.read s.scanZone s.scanOffset s.page) else none
  | .scanCommit => some (.read s.scanZone (s.scanOffset + s.page) s.page)
  | .erase =>
    some (if s.request.command = .test then .erase s.targetZone 0 (2 * s.block)
      else .erase s.targetZone s.targetOffset s.block)
  | .write => some (.write s.targetZone s.targetOffset s.dataPage)
  | .verify => some (.read s.targetZone s.targetOffset s.page)
  | .commit => some (.write s.targetZone (s.targetOffset + s.page) s.commitPage)
  | .verifyCommit => some (.read s.targetZone (s.targetOffset + s.page) s.page)
  | .idle | .decide | .finish => none

/-- `demo_storage_service_process` -/
def process (i : Input) : Service :=
  match s.phase with
  | .idle =>
    match i.taken with
    | none => s
    | some r => s.begin r i.mounted
  | .decide => s.decide
  | .finish => if i.finished then { s with phase := .idle, booting := false } else s
  | _ =>
    match s.operation with
    | none => { s with phase := .decide }.decide
    | some _ =>
      let out := s.transfer i.answer
      if out.2 then out.1.transferred i else out.1

end Service

end Atoman.DemoStorage
