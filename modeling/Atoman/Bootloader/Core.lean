import Atoman.Lib.LittleEndian
import Atoman.Lib.Memory

/-!
# Redundant upgrade metadata

The persistent record of the bootloader and its 42-byte encoding: a magic word,
a format version, the fields in little-endian order, a CRC over what precedes it
and a commit marker in the last four bytes. The marker comes last, so a record
cut short while it is programmed over erased cells never decodes.
`metadataSelect` picks the newer of the two copies by wrapping comparison.
-/

namespace Atoman.Bootloader
open Lib

/-- Persistent recovery states, in the order of their encoding. -/
inductive MetadataState
  | empty | downloadDirect | downloadStaged | installPending | copying | valid | failed
  deriving DecidableEq, Repr

/-- Download straight into the IAP region, or into staging first. -/
inductive UpgradeMode
  | direct | staged
  deriving DecidableEq, Repr

/-- The logical regions the core names; the layout region is never accessed by it. -/
inductive FlashZone
  | iap | staging | metaA | metaB
  deriving DecidableEq, Repr

def MetadataState.toByte : MetadataState → UInt8
  | .empty => 0
  | .downloadDirect => 1
  | .downloadStaged => 2
  | .installPending => 3
  | .copying => 4
  | .valid => 5
  | .failed => 6

/-- `state_valid`: seven encodings are admitted. -/
def MetadataState.ofByte (b : UInt8) : Option MetadataState :=
  if b = 0 then some .empty
  else if b = 1 then some .downloadDirect
  else if b = 2 then some .downloadStaged
  else if b = 3 then some .installPending
  else if b = 4 then some .copying
  else if b = 5 then some .valid
  else if b = 6 then some .failed
  else none

def UpgradeMode.toByte : UpgradeMode → UInt8
  | .direct => 0
  | .staged => 1

def UpgradeMode.ofByte (b : UInt8) : Option UpgradeMode :=
  if b = 0 then some .direct else if b = 1 then some .staged else none

@[simp] theorem MetadataState.ofByte_toByte (s : MetadataState) : ofByte s.toByte = some s := by
  cases s <;> rfl

@[simp] theorem UpgradeMode.ofByte_toByte (m : UpgradeMode) : ofByte m.toByte = some m := by
  cases m <;> rfl

structure Metadata where
  state : MetadataState
  mode : UpgradeMode
  moduleId : UInt8
  retryCount : UInt8
  sequence : UInt32
  version : UInt32
  fileSize : UInt32
  expectedCrc : UInt16
  receivedLength : UInt32
  runningCrc : UInt16
  copyOffset : UInt32
  errorCode : UInt16
  deriving DecidableEq, Repr

/-- `BOOTLOADER_METADATA_ENCODED_SIZE` -/
abbrev metadataEncodedSize : ℕ := 42

def metadataMagic : UInt32 := 0x424C4D44
def metadataFormatVersion : UInt16 := 1
def metadataCommitMarker : UInt32 := 0x434F4D54

/-- Wrap-aware order: the distance from `reference` forward is below half the range. -/
def sequenceIsNewer (candidate reference : UInt32) : Bool :=
  candidate - reference ≠ 0 && candidate - reference < 0x80000000

/-- One bit of the CRC shift register. -/
def crcShift (crc : UInt16) : UInt16 :=
  if crc &&& 0x8000 ≠ 0 then (crc <<< 1) ^^^ 0x1021 else crc <<< 1

/-- CRC16-CCITT, bit by bit, from `0xFFFF`. -/
def metadataCrc16 (data : List UInt8) : UInt16 :=
  data.foldl (fun crc b => Nat.iterate crcShift 8 (crc ^^^ (b.toUInt16 <<< (8 : UInt16)))) 0xFFFF

/-- The 36 bytes the CRC covers. -/
def metadataBody (m : Metadata) : List UInt8 :=
  u32Le metadataMagic ++ u16Le metadataFormatVersion ++
  [m.state.toByte, m.mode.toByte, m.moduleId, m.retryCount] ++
  u32Le m.sequence ++ u32Le m.version ++ u32Le m.fileSize ++ u16Le m.expectedCrc ++
  u32Le m.receivedLength ++ u16Le m.runningCrc ++ u32Le m.copyOffset ++ u16Le m.errorCode

/-- The encoded record. State and mode are in range by their types; the check of
the capacity stays with the caller, which knows the buffer. -/
def metadataEncode (m : Metadata) : List UInt8 :=
  metadataBody m ++ u16Le (metadataCrc16 (metadataBody m)) ++ u32Le metadataCommitMarker

/-- Validate and read a record; `none` stands for `IMAGE_INVALID`. -/
def metadataDecode (p : List UInt8) : Option Metadata :=
  match MetadataState.ofByte (p.getD 6 0), UpgradeMode.ofByte (p.getD 7 0) with
  | some state, some mode =>
    if readU32Le p 0 ≠ metadataMagic
        ∨ readU16Le p 4 ≠ metadataFormatVersion
        ∨ readU16Le p 36 ≠ metadataCrc16 (p.take 36)
        ∨ readU32Le p 38 ≠ metadataCommitMarker then none
    else some
      { state, mode
        moduleId := p.getD 8 0
        retryCount := p.getD 9 0
        sequence := readU32Le p 10
        version := readU32Le p 14
        fileSize := readU32Le p 18
        expectedCrc := readU16Le p 22
        receivedLength := readU32Le p 24
        runningCrc := readU16Le p 28
        copyOffset := readU32Le p 30
        errorCode := readU16Le p 34 }
  | _, _ => none

/-- The newest valid copy and where it came from. -/
def metadataSelect (metaA metaB : List UInt8) : Option (Metadata × FlashZone) :=
  match metadataDecode metaA, metadataDecode metaB with
  | none, none => none
  | some a, none => some (a, .metaA)
  | none, some b => some (b, .metaB)
  | some a, some b =>
    if sequenceIsNewer b.sequence a.sequence then some (b, .metaB) else some (a, .metaA)

@[simp] theorem length_metadataBody (m : Metadata) : (metadataBody m).length = 36 := rfl
@[simp] theorem length_metadataEncode (m : Metadata) : (metadataEncode m).length = 42 := rfl

/-- **Round trip.** A decoded encoding is the record itself. -/
@[simp] theorem metadataDecode_encode (m : Metadata) :
    metadataDecode (metadataEncode m) = some m := by
  have hcrc : (metadataEncode m).take 36 = metadataBody m := by
    rw [metadataEncode, List.append_assoc, List.take_left' (length_metadataBody m)]
  have hc : readU16Le (metadataEncode m) 36 = metadataCrc16 (metadataBody m) :=
    readU16Le_append (metadataBody m) (u32Le metadataCommitMarker) _
  have hk : readU32Le (metadataEncode m) 38 = metadataCommitMarker := by
    have h := readU32Le_append (metadataBody m ++ u16Le (metadataCrc16 (metadataBody m))) []
      metadataCommitMarker
    rwa [List.append_nil] at h
  unfold metadataDecode
  rw [hcrc, hc, hk]
  simp [metadataEncode, metadataBody, readU32Le, readU16Le, u32Le, u16Le, u32OfBytes_u32Le,
    u16OfBytes_u16Le]

/-- A record needs its magic: a copy whose first byte is erased does not decode. -/
theorem metadataDecode_erased_first {p : List UInt8} (h : p.getD 0 0 = 0xFF) :
    metadataDecode p = none := by
  have hne : readU32Le p 0 ≠ metadataMagic := by
    intro heq
    have hlow := u32OfBytes_low (p.getD 0 0) (p.getD 1 0) (p.getD 2 0) (p.getD 3 0)
    rw [show u32OfBytes (p.getD 0 0) (p.getD 1 0) (p.getD 2 0) (p.getD 3 0) = metadataMagic
      from heq, h] at hlow
    exact absurd hlow (by decide)
  unfold metadataDecode
  split
  · rw [if_pos (Or.inl hne)]
  · rfl

/-- A record needs its commit marker: a copy whose last byte is erased does not decode. -/
theorem metadataDecode_erased_last {p : List UInt8} (h : p.getD 41 0 = 0xFF) :
    metadataDecode p = none := by
  have hne : readU32Le p 38 ≠ metadataCommitMarker := by
    intro heq
    have hhigh := u32OfBytes_high (p.getD 38 0) (p.getD 39 0) (p.getD 40 0) (p.getD 41 0)
    rw [show u32OfBytes (p.getD 38 0) (p.getD 39 0) (p.getD 40 0) (p.getD 41 0)
      = metadataCommitMarker from heq, h] at hhigh
    exact absurd hhigh (by decide)
  unfold metadataDecode
  split
  · rw [if_pos (Or.inr (Or.inr (Or.inr hne)))]
  · rfl

@[simp] theorem sequenceIsNewer_self (s : UInt32) : sequenceIsNewer s s = false := by
  simp [sequenceIsNewer]

/-- The successor is newer, also across the wrap. -/
@[simp] theorem sequenceIsNewer_succ (s : UInt32) : sequenceIsNewer (s + 1) s = true := by
  have h : s + 1 - s = 1 := by grind
  simp only [sequenceIsNewer, h]
  decide

/-- A sequence is not newer than its successor. -/
@[simp] theorem sequenceIsNewer_of_succ (s : UInt32) : sequenceIsNewer s (s + 1) = false := by
  have h : s - (s + 1) = -1 := by grind
  simp only [sequenceIsNewer, h]
  decide

end Atoman.Bootloader

/-!
## The boot and installation state machine

A translation of the platform-independent bootloader core. Storage and platform
are reached through mounted callbacks; their answers to one call of the core are
collected in an `Env`, and the calls the core makes are returned as `Call`s.
Reads and writes name their buffer, because a read fills it only when the storage
completes. A call submits at most one storage operation.
-/

namespace Atoman.Bootloader
open Lib

/-- `bootloader_result_t` -/
inductive Result
  | success | inProgress | busy | invalidArgument | outOfRange | configError
  | permissionDenied | storageError | protocolError | imageInvalid | recoveryRequired
  deriving DecidableEq, Repr

/-- The storage took the operation, finished or not. -/
def Result.accepted (r : Result) : Bool := r = .success || r = .inProgress

/-- `bootloader_state_t` -/
inductive BootState
  | uninitialized
  | metaARead | metaAWait | metaBRead | metaBWait
  | startupRead | startupWait
  | waitUpgrade
  | downloadErase | downloadEraseWait | downloadReady | packetWriteWait
  | copyErase | copyEraseWait | copyRead | copyReadWait | copyWrite | copyWriteWait
  | copyVerifyRead | copyVerifyReadWait
  | verifyRead | verifyReadWait
  | finalRead | finalReadWait
  | metadataErase | metadataEraseWait | metadataWrite | metadataWriteWait
  | jumpPending | configError
  deriving DecidableEq, Repr

inductive BootReason
  | powerOn | iapRequest | recovery
  deriving DecidableEq, Repr

structure ZoneInfo where
  size : UInt32
  readable : Bool
  writable : Bool
  erasable : Bool
  deriving DecidableEq, Repr

structure UpgradeInfo where
  moduleId : UInt8
  fileSize : UInt32
  version : UInt32
  updateType : UInt8
  deriving DecidableEq, Repr

/-- `bootloader_config_t` without its pointers. `defaultMode` is `none` for a value
outside the enumeration; the CRC callbacks are arbitrary functions. -/
structure Config where
  expectedModuleId : UInt8
  defaultMode : Option UpgradeMode
  imageHeaderLength : UInt32
  packetBufferSize : UInt32
  copyBufferSize : UInt32
  crc16Init : UInt16
  crc16Update : List UInt8 → UInt16 → UInt16

/-- Where a read puts its bytes. -/
inductive ReadTarget
  | packetBuffer
  | copyBuffer (offset : ℕ)
  deriving DecidableEq, Repr

/-- An operation handed to the flash table. -/
inductive FlashOp
  | read (zone : FlashZone) (offset length : ℕ) (target : ReadTarget)
  | write (zone : FlashZone) (offset : ℕ) (data : List UInt8)
  | erase (zone : FlashZone) (offset length : ℕ)
  deriving DecidableEq, Repr

/-- Calls of the core that leave it. -/
inductive Call
  | flash (op : FlashOp)
  | headerIsValid (header : List UInt8) (imageSize : UInt32) (accepted : Bool)
  | jumpToIap
  deriving DecidableEq, Repr

/-- The callbacks' answers during one call of the core. -/
structure Env where
  zoneInfo : FlashZone → Result × ZoneInfo
  /-- Answer to a submitted operation. -/
  submit : Result
  /-- Whether the storage reports busy to the waiting phase. -/
  busy : Bool
  /-- Latest storage result. -/
  result : Result
  /-- Whether the storage reports busy to `upgradeBegin`. -/
  beginBusy : Bool
  headerCheck : List UInt8 → UInt32 → Result × Bool
  reasonClear : Result
  jump : Result

/-- `bootloader_t`, with the two buffers it points to. -/
structure Core where
  config : Config
  upgradeInfo : UpgradeInfo
  startupUpgradeInfo : UpgradeInfo
  state : BootState
  result : Result
  mode : UpgradeMode
  downloadZone : FlashZone
  receivedLength : UInt32
  pendingPacketOffset : UInt32
  pendingPacketLength : UInt32
  lastPacketOffset : UInt32
  lastPacketLength : UInt32
  copyOffset : UInt32
  copyChunkLength : UInt32
  verifyOffset : UInt32
  copyChunkCrc : UInt16
  verifyCrc : UInt16
  runningCrc : UInt16
  expectedCrc : UInt16
  footerBuffer : Memory UInt8
  footerLength : ℕ
  sessionActive : Bool
  jumpCalled : Bool
  bootReason : BootReason
  metadataNextState : BootState
  metadataSourceZone : FlashZone
  metadataTargetZone : FlashZone
  metadataSequence : UInt32
  metadataState : MetadataState
  metadataRetryCount : UInt8
  metadataValid : Bool
  startupUpgradeInfoValid : Bool
  packetBuffer : Memory UInt8
  copyBuffer : Memory UInt8

/-- `BOOTLOADER_PACKET_DATA_SIZE` -/
abbrev packetDataSize : ℕ := 1024
/-- `BOOTLOADER_FOOTER_SIZE` -/
abbrev footerSize : ℕ := 34

/-- Reflected CRC32 without final inversion. -/
def footerCrc32Calculate (data : List UInt8) : UInt32 :=
  let shift (crc : UInt32) : UInt32 :=
    if crc &&& 1 ≠ 0 then (crc >>> 1) ^^^ 0xEDB88320 else crc >>> 1
  data.foldl (fun crc b => Nat.iterate shift 8 (crc ^^^ b.toUInt32)) 0xFFFFFFFF

/-- Keep the last 34 bytes of the received stream. -/
def footerTailUpdate (c : Core) (data : List UInt8) : Core :=
  if footerSize ≤ data.length then
    { c with
      footerBuffer := c.footerBuffer.write 0 (data.drop (data.length - footerSize))
      footerLength := footerSize }
  else
    let keep := if c.footerLength + data.length > footerSize then footerSize - data.length
      else c.footerLength
    let kept := c.footerBuffer.write 0 (c.footerBuffer.slice (c.footerLength - keep) keep)
    { c with footerBuffer := kept.write keep data, footerLength := keep + data.length }

def footerIsValid (c : Core) : Bool :=
  let footer := c.footerBuffer.slice 0 footerSize
  let imageSize := c.upgradeInfo.fileSize
  let footerFileSize := readU32Le footer 9
  let sizeValid := footerFileSize = imageSize
    ∨ (34 ≤ imageSize ∧ footerFileSize = imageSize - 34)
  c.footerLength = footerSize ∧ footer.getD 4 0 = 1
    ∧ readU32Le footer 5 = c.upgradeInfo.version ∧ sizeValid
    ∧ footer.getD 29 0 = c.upgradeInfo.moduleId
    ∧ footerCrc32Calculate (footer.take 30) = readU32Le footer 30

def residentFailure (c : Core) (r : Result) : Core :=
  { c with
    sessionActive := false
    pendingPacketOffset := 0
    pendingPacketLength := 0
    copyChunkLength := 0
    state := .waitUpgrade
    result := r }

/-- The record the next commit writes. -/
def metadataCurrent (c : Core) : Metadata where
  state := c.metadataState
  mode := c.mode
  moduleId := c.upgradeInfo.moduleId
  retryCount := c.metadataRetryCount
  sequence := c.metadataSequence + 1
  version := c.upgradeInfo.version
  fileSize := c.upgradeInfo.fileSize
  expectedCrc := c.expectedCrc
  receivedLength := c.receivedLength
  runningCrc := c.runningCrc
  copyOffset := c.copyOffset
  errorCode := 0

/-- Encode the current record into the copy buffer. -/
def metadataEncodeCurrent (c : Core) : Except Result (Memory UInt8) :=
  if c.config.copyBufferSize < 42 then .error .invalidArgument
  else .ok (c.copyBuffer.write 0 (metadataEncode (metadataCurrent c)))

/-- The copy a commit replaces: the one that is not the source. -/
def otherCopy (z : FlashZone) : FlashZone := if z = .metaA then .metaB else .metaA

def metadataCommitStart (c : Core) (state : MetadataState) (next : BootState) : Core :=
  let c := { c with
    metadataState := state
    metadataNextState := next
    metadataTargetZone := otherCopy c.metadataSourceZone }
  match metadataEncodeCurrent c with
  | .error r => residentFailure c r
  | .ok buffer => { c with copyBuffer := buffer, state := .metadataErase, result := .inProgress }

/-- Hand `op` to the storage and enter `wait`, or stay resident when it is refused. -/
def submitOp (env : Env) (c : Core) (op : FlashOp) (wait : BootState) : Core × List Call :=
  (if env.submit.accepted then { c with state := wait } else residentFailure c env.submit,
    [.flash op])

def metadataReadSubmit (env : Env) (c : Core) (zone : FlashZone) (bufferOffset : ℕ)
    (wait : BootState) : Core × List Call :=
  submitOp env c (.read zone 0 metadataEncodedSize (.copyBuffer bufferOffset)) wait

def zoneRequirementsCheck (env : Env) (zone : FlashZone) (requiredSize : UInt32) : Result :=
  let (r, info) := env.zoneInfo zone
  if r ≠ .success then r
  else if requiredSize > info.size ∨ !info.readable ∨ !info.writable ∨ !info.erasable then
    .configError
  else .success

/-- Fields of a fresh session; the commit is started by the caller. -/
def sessionReset (c : Core) (info : UpgradeInfo) (mode : UpgradeMode) : Core :=
  { c with
    upgradeInfo := info
    mode := mode
    downloadZone := if mode = .staged then .staging else .iap
    receivedLength := 0
    pendingPacketOffset := 0
    pendingPacketLength := 0
    lastPacketOffset := 0
    lastPacketLength := 0
    copyOffset := 0
    copyChunkLength := 0
    verifyOffset := 0
    copyChunkCrc := 0
    verifyCrc := c.config.crc16Init
    runningCrc := c.config.crc16Init
    expectedCrc := 0
    footerLength := 0
    footerBuffer := fun _ => 0
    sessionActive := true
    jumpCalled := false
    metadataRetryCount := 0 }

/-- The record state of a download in `mode`. -/
def downloadState (mode : UpgradeMode) : MetadataState :=
  if mode = .staged then .downloadStaged else .downloadDirect

/-- `bootloader_upgrade_begin`; `info` is `none` for a null pointer, `mode` for a value
outside the enumeration. -/
def upgradeBegin (env : Env) (c : Core) (info : Option UpgradeInfo) (mode : Option UpgradeMode) :
    Core × Result :=
  match info with
  | none => (c, .invalidArgument)
  | some info =>
    if c.state ≠ .waitUpgrade ∨ env.beginBusy then (c, .busy)
    else
      match mode with
      | none => (c, .invalidArgument)
      | some mode =>
        if info.moduleId ≠ c.config.expectedModuleId ∨ info.fileSize = 0 then
          (c, .invalidArgument)
        else
          let iap := zoneRequirementsCheck env .iap info.fileSize
          let staging := zoneRequirementsCheck env .staging info.fileSize
          if iap ≠ .success then (c, iap)
          else if mode = .staged ∧ staging ≠ .success then (c, staging)
          else
            (metadataCommitStart (sessionReset c info mode) (downloadState mode) .downloadErase,
              .success)

/-- Copy a selected record into the core. -/
def metadataLoad (c : Core) (m : Metadata) (source : FlashZone) : Core :=
  { c with
    metadataValid := true
    metadataSourceZone := source
    metadataSequence := m.sequence
    metadataState := m.state
    metadataRetryCount := m.retryCount
    mode := m.mode
    upgradeInfo := { c.upgradeInfo with
      moduleId := m.moduleId, version := m.version, fileSize := m.fileSize }
    receivedLength := m.receivedLength
    runningCrc := m.runningCrc
    expectedCrc := m.expectedCrc
    copyOffset := m.copyOffset }

/-- The tail of `metadata_startup_evaluate`, reached when the record allows a start. -/
def startupDecide (env : Env) (c : Core) : Core :=
  match c.bootReason with
  | .powerOn => { c with state := .startupRead, result := .success }
  | .recovery => { c with state := .waitUpgrade, result := .success }
  | .iapRequest =>
    let c := { c with state := .waitUpgrade }
    if c.startupUpgradeInfoValid then
      match upgradeBegin env c (some c.startupUpgradeInfo) c.config.defaultMode with
      | (c, .success) => c
      | (c, r) => residentFailure c r
    else { c with result := .success }

def metadataStartupEvaluate (env : Env) (c : Core) : Core :=
  match metadataSelect (c.copyBuffer.slice 0 metadataEncodedSize)
      (c.copyBuffer.slice metadataEncodedSize metadataEncodedSize) with
  | some (m, source) =>
    let c := metadataLoad c m source
    if (m.state = .installPending ∨ m.state = .copying) ∧ m.mode = .staged ∧ m.fileSize ≠ 0 then
      if m.retryCount ≥ 3 then residentFailure c .recoveryRequired
      else
        metadataCommitStart
          { c with metadataRetryCount := c.metadataRetryCount + 1, copyOffset := 0 }
          .copying .copyErase
    else if (m.state = .downloadDirect ∨ m.state = .downloadStaged ∨ m.state = .failed)
        ∧ (c.bootReason ≠ .iapRequest ∨ !c.startupUpgradeInfoValid) then
      residentFailure c .recoveryRequired
    else startupDecide env c
  | none =>
    startupDecide env
      { c with metadataValid := false, metadataSourceZone := .metaB, metadataSequence := 0 }

def startupReadSubmit (env : Env) (c : Core) : Core × List Call :=
  let (r, info) := env.zoneInfo .iap
  if r ≠ .success ∨ !info.readable ∨ c.config.imageHeaderLength > info.size then
    (residentFailure c .configError, [])
  else
    submitOp env c (.read .iap 0 c.config.imageHeaderLength.toNat .packetBuffer) .startupWait

/-- Validate the header in the packet buffer. A provisioned image without a record takes
its size from the zone. -/
def installedHeaderEvaluate (env : Env) (c : Core) (finalImage : Bool) : Core × List Call :=
  let (r, info) := env.zoneInfo .iap
  if c.upgradeInfo.fileSize = 0 ∧ r ≠ .success then (residentFailure c r, [])
  else
    let c := if c.upgradeInfo.fileSize = 0 then
      { c with upgradeInfo := { c.upgradeInfo with fileSize := info.size } } else c
    let header := c.packetBuffer.slice 0 c.config.imageHeaderLength.toNat
    let (checked, valid) := env.headerCheck header c.upgradeInfo.fileSize
    let ok : Bool := checked = .success && valid
    let call := Call.headerIsValid header c.upgradeInfo.fileSize ok
    if !ok then (residentFailure c .imageInvalid, [call])
    else if finalImage then
      (metadataCommitStart { c with metadataRetryCount := 0 } .valid .jumpPending, [call])
    else ({ c with state := .jumpPending, result := .success }, [call])

def finalReadSubmit (env : Env) (c : Core) : Core × List Call :=
  submitOp env c (.read .iap 0 c.config.imageHeaderLength.toNat .packetBuffer) .finalReadWait

/-- The next chunk of `total` bytes, bounded by the copy buffer. -/
def chunkLength (c : Core) (offset : UInt32) : UInt32 :=
  let remaining := c.upgradeInfo.fileSize - offset
  if remaining < c.config.copyBufferSize then remaining else c.config.copyBufferSize

def copyReadSubmit (env : Env) (c : Core) : Core × List Call :=
  let c := { c with copyChunkLength := chunkLength c c.copyOffset }
  submitOp env c (.read .staging c.copyOffset.toNat c.copyChunkLength.toNat (.copyBuffer 0))
    .copyReadWait

def copyVerifyReadSubmit (env : Env) (c : Core) : Core × List Call :=
  submitOp env c (.read .iap c.copyOffset.toNat c.copyChunkLength.toNat (.copyBuffer 0))
    .copyVerifyReadWait

def verifyReadSubmit (env : Env) (c : Core) : Core × List Call :=
  let chunk := chunkLength c c.verifyOffset
  (if env.submit.accepted then { c with copyChunkLength := chunk, state := .verifyReadWait }
    else residentFailure c env.submit,
    [.flash (.read .iap c.verifyOffset.toNat chunk.toNat (.copyBuffer 0))])

def packetWriteDone (c : Core) : Core :=
  let data := c.packetBuffer.slice 0 c.pendingPacketLength.toNat
  let c := footerTailUpdate c data
  { c with
    runningCrc := c.config.crc16Update data c.runningCrc
    lastPacketOffset := c.pendingPacketOffset
    lastPacketLength := c.pendingPacketLength
    receivedLength := c.receivedLength + c.pendingPacketLength
    pendingPacketOffset := 0
    pendingPacketLength := 0
    state := .downloadReady
    result := .success }

/-- CRC of the chunk in the copy buffer. -/
def chunkCrc (c : Core) (seed : UInt16) : UInt16 :=
  c.config.crc16Update (c.copyBuffer.slice 0 c.copyChunkLength.toNat) seed

def copyVerifyDone (c : Core) : Core :=
  if chunkCrc c c.config.crc16Init ≠ c.copyChunkCrc then residentFailure c .imageInvalid
  else
    let c := { c with copyOffset := c.copyOffset + c.copyChunkLength, copyChunkLength := 0 }
    if c.copyOffset ≥ c.upgradeInfo.fileSize then
      metadataCommitStart { c with verifyOffset := 0, verifyCrc := c.config.crc16Init }
        .copying .verifyRead
    else metadataCommitStart c .copying .copyRead

def verifyReadDone (c : Core) : Core :=
  let c := { c with
    verifyCrc := chunkCrc c c.verifyCrc
    verifyOffset := c.verifyOffset + c.copyChunkLength
    copyChunkLength := 0 }
  if c.verifyOffset ≥ c.upgradeInfo.fileSize then
    if c.verifyCrc ≠ c.expectedCrc then residentFailure c .imageInvalid
    else { c with state := .finalRead }
  else { c with state := .verifyRead }

def metadataWriteDone (c : Core) : Core :=
  { c with
    metadataSequence := c.metadataSequence + 1
    metadataSourceZone := c.metadataTargetZone
    metadataValid := true
    state := c.metadataNextState
    result := if c.metadataNextState = .downloadReady then .success else .inProgress }

/-- The successful completion of the operation `storage_wait_handle` waits for. -/
def storageDone (env : Env) (c : Core) : Core × List Call :=
  match c.state with
  | .metaAWait => ({ c with state := .metaBRead }, [])
  | .metaBWait => (metadataStartupEvaluate env c, [])
  | .startupWait => installedHeaderEvaluate env c false
  | .downloadEraseWait =>
    (metadataCommitStart c (downloadState c.mode) .downloadReady, [])
  | .packetWriteWait => (packetWriteDone c, [])
  | .copyEraseWait => ({ c with copyOffset := 0, state := .copyRead }, [])
  | .copyReadWait =>
    ({ c with copyChunkCrc := chunkCrc c c.config.crc16Init, state := .copyWrite }, [])
  | .copyWriteWait => ({ c with state := .copyVerifyRead }, [])
  | .copyVerifyReadWait => (copyVerifyDone c, [])
  | .verifyReadWait => (verifyReadDone c, [])
  | .finalReadWait => installedHeaderEvaluate env c true
  | .metadataEraseWait => ({ c with state := .metadataWrite }, [])
  | .metadataWriteWait => (metadataWriteDone c, [])
  | _ => (residentFailure c .configError, [])

def storageWaitHandle (env : Env) (c : Core) : Core × List Call :=
  if env.busy then (c, [])
  else if env.result ≠ .success then (residentFailure c env.result, [])
  else storageDone env c

/-- The phases in which `process` polls the storage. -/
def BootState.waiting : BootState → Bool
  | .metaAWait | .metaBWait | .startupWait | .downloadEraseWait | .packetWriteWait
  | .copyEraseWait | .copyReadWait | .copyWriteWait | .copyVerifyReadWait | .verifyReadWait
  | .finalReadWait | .metadataEraseWait | .metadataWriteWait => true
  | _ => false

def jumpStep (env : Env) (c : Core) : Core × List Call :=
  if c.jumpCalled then (c, [])
  else if env.reasonClear ≠ .success then (residentFailure c env.reasonClear, [])
  else
    let c := { c with jumpCalled := true }
    (if env.jump ≠ .success then residentFailure c env.jump else c, [.jumpToIap])

/-- What `process` does in a phase that does not poll. -/
def processPhase (env : Env) (c : Core) : BootState → Core × List Call
  | .metaARead => metadataReadSubmit env c .metaA 0 .metaAWait
  | .metaBRead => metadataReadSubmit env c .metaB metadataEncodedSize .metaBWait
  | .startupRead => startupReadSubmit env c
  | .downloadErase =>
    submitOp env c (.erase c.downloadZone 0 c.upgradeInfo.fileSize.toNat) .downloadEraseWait
  | .copyErase =>
    submitOp env c (.erase .iap 0 c.upgradeInfo.fileSize.toNat) .copyEraseWait
  | .copyRead => copyReadSubmit env c
  | .copyWrite =>
    submitOp env c (.write .iap c.copyOffset.toNat
      (c.copyBuffer.slice 0 c.copyChunkLength.toNat)) .copyWriteWait
  | .copyVerifyRead => copyVerifyReadSubmit env c
  | .verifyRead => verifyReadSubmit env c
  | .finalRead => finalReadSubmit env c
  | .metadataErase =>
    submitOp env c (.erase c.metadataTargetZone 0 metadataEncodedSize) .metadataEraseWait
  | .metadataWrite =>
    submitOp env c (.write c.metadataTargetZone 0 (c.copyBuffer.slice 0 metadataEncodedSize))
      .metadataWriteWait
  | .jumpPending => jumpStep env c
  | _ => (c, [])

/-- `bootloader_process` -/
def process (env : Env) (c : Core) : Core × List Call :=
  if c.state.waiting then storageWaitHandle env c else processPhase env c c.state

/-- `bootloader_packet_submit`; `data` is `none` for a null pointer. -/
def packetSubmit (env : Env) (c : Core) (offset : UInt32) (data : Option (List UInt8)) :
    Core × Result × List Call :=
  match data with
  | none => (c, .invalidArgument, [])
  | some data =>
    if data.length = 0 ∨ packetDataSize < data.length then (c, .invalidArgument, [])
    else if c.state ≠ .downloadReady ∨ !c.sessionActive then (c, .busy, [])
    else if c.lastPacketLength ≠ 0 ∧ offset = c.lastPacketOffset
        ∧ data.length = c.lastPacketLength.toNat ∧ c.packetBuffer.slice 0 data.length = data then
      (c, .success, [])
    else if offset ≠ c.receivedLength
        ∨ (c.upgradeInfo.fileSize - c.receivedLength).toNat < data.length then
      (c, .protocolError, [])
    else
      let c := { c with packetBuffer := c.packetBuffer.write 0 data }
      let call := Call.flash (.write c.downloadZone offset.toNat data)
      if !env.submit.accepted then (residentFailure c env.submit, env.submit, [call])
      else
        ({ c with
            pendingPacketOffset := offset
            pendingPacketLength := data.length.toUInt32
            state := .packetWriteWait
            result := .inProgress }, .success, [call])

/-- `bootloader_upgrade_end` -/
def upgradeEnd (c : Core) (expectedCrc : UInt16) : Core × Result :=
  if c.state ≠ .downloadReady ∨ !c.sessionActive then (c, .busy)
  else if c.receivedLength ≠ c.upgradeInfo.fileSize ∨ c.runningCrc ≠ expectedCrc
      ∨ !footerIsValid c then
    (residentFailure c .imageInvalid, .imageInvalid)
  else
    let c := { c with expectedCrc := expectedCrc, sessionActive := false }
    let c := if c.mode = .staged then metadataCommitStart c .installPending .copyErase
      else { c with verifyOffset := 0, verifyCrc := c.config.crc16Init, state := .verifyRead }
    ({ c with result := .inProgress }, .success)

/-- What a boot starts from: the arguments of `bootloader_init`, the platform's answers
to it and the undefined contents of the two buffers. -/
structure InitArgs where
  config : Config
  /-- Every required table, buffer and callback pointer is non-null. -/
  mounted : Bool
  bootReason : BootReason
  /-- A retained request that was read successfully. -/
  upgradeInfo : Option UpgradeInfo
  packetBuffer : Memory UInt8
  copyBuffer : Memory UInt8

def UpgradeInfo.zero : UpgradeInfo := ⟨0, 0, 0, 0⟩

def Config.zero : Config where
  expectedModuleId := 0
  defaultMode := some .direct
  imageHeaderLength := 0
  packetBufferSize := 0
  copyBufferSize := 0
  crc16Init := 0
  crc16Update := fun _ crc => crc

/-- A cleared instance that has failed its configuration. -/
def Core.cleared (packetBuffer copyBuffer : Memory UInt8) : Core where
  config := .zero
  upgradeInfo := .zero
  startupUpgradeInfo := .zero
  state := .configError
  result := .configError
  mode := .direct
  downloadZone := .iap
  receivedLength := 0
  pendingPacketOffset := 0
  pendingPacketLength := 0
  lastPacketOffset := 0
  lastPacketLength := 0
  copyOffset := 0
  copyChunkLength := 0
  verifyOffset := 0
  copyChunkCrc := 0
  verifyCrc := 0
  runningCrc := 0
  expectedCrc := 0
  footerBuffer := fun _ => 0
  footerLength := 0
  sessionActive := false
  jumpCalled := false
  bootReason := .powerOn
  metadataNextState := .uninitialized
  metadataSourceZone := .iap
  metadataTargetZone := .iap
  metadataSequence := 0
  metadataState := .empty
  metadataRetryCount := 0
  metadataValid := false
  startupUpgradeInfoValid := false
  packetBuffer := packetBuffer
  copyBuffer := copyBuffer

def Config.valid (cfg : Config) : Bool :=
  1024 ≤ cfg.packetBufferSize ∧ 84 ≤ cfg.copyBufferSize ∧ cfg.imageHeaderLength ≠ 0
    ∧ cfg.imageHeaderLength ≤ cfg.packetBufferSize ∧ cfg.defaultMode.isSome

/-- `bootloader_init` -/
def bootloaderInit (args : InitArgs) : Core :=
  let c := Core.cleared args.packetBuffer args.copyBuffer
  if !args.mounted ∨ !args.config.valid then c
  else
    { c with
      config := args.config
      mode := args.config.defaultMode.getD .direct
      bootReason := args.bootReason
      startupUpgradeInfo := if args.bootReason = .iapRequest then
        args.upgradeInfo.getD .zero else .zero
      startupUpgradeInfoValid := args.bootReason = .iapRequest && args.upgradeInfo.isSome
      metadataSourceZone := .metaB
      state := .metaARead
      result := .success }

end Atoman.Bootloader
