import Atoman.Bootloader.Core

/-!
# The upgrade protocol

The four commands of the protocol, over the core. The requests and the replies are packed
structures with little-endian fields. A command that is malformed gets no reply.
-/

namespace Atoman.Bootloader
open Lib

/-- `bootloader_protocol_t`, initialised; the mode has been checked by that. -/
structure Protocol where
  core : Core
  crc16 : List UInt8 → UInt16
  upgradeMode : UpgradeMode

/-- What a command leaves, and `*p_ack_length` bytes of the reply -/
structure Reply where
  core : Core
  calls : List Call
  result : Result
  ack : List UInt8

/-- `sizeof(bootloader_protocol_info_request_t)` -/
abbrev infoLength : ℕ := 10
/-- `sizeof(bootloader_protocol_data_request_t)` -/
abbrev dataLength : ℕ := 1033
/-- `offsetof(bootloader_protocol_data_request_t, packet_crc)` -/
abbrev packetCrcOffset : ℕ := 1031

/-- `BOOTLOADER_PROTOCOL_REJECT_OVERSIZE_MASK` -/
def rejectOversizeMask : UInt16 := 0x0001
/-- `BOOTLOADER_PROTOCOL_REJECT_MODULE_MASK` -/
def rejectModuleMask : UInt16 := 0x0004

/-- The core is not reached. -/
def Protocol.refuse (p : Protocol) : Reply := ⟨p.core, [], .protocolError, []⟩

/-- The fields of a request for an upgrade -/
def infoRequest (payload : List UInt8) : UpgradeInfo where
  moduleId := payload.getD 0 0
  version := readU32Le payload 1
  fileSize := readU32Le payload 5
  updateType := payload.getD 9 0

/-- The bits that stand for a result of `upgradeBegin` -/
def rejectReason : Result → UInt16
  | .outOfRange => rejectOversizeMask
  | .invalidArgument => rejectModuleMask
  | _ => 0

/-- `info_handle`; the payload is `none` for a null pointer. -/
def infoHandle (env : Env) (p : Protocol) (payload : Option (List UInt8)) (ackCapacity : ℕ) :
    Reply :=
  match payload with
  | none => p.refuse
  | some payload =>
    if payload.length ≠ infoLength ∨ ackCapacity < 3 then p.refuse
    else
      match upgradeBegin env p.core (some (infoRequest payload)) (some p.upgradeMode) with
      | (core, result) =>
        ⟨core, [], result, (if result = .success then 1 else 2) :: u16Le (rejectReason result)⟩

/-- `ready_handle`, with `bootloader_is_download_ready` -/
def readyHandle (p : Protocol) (payload : Option (List UInt8)) (ackCapacity : ℕ) : Reply :=
  if (payload.getD []).length ≠ 0 ∨ ackCapacity < 1 then p.refuse
  else
    ⟨p.core, [], .success, [if p.core.state = .downloadReady then 1 else 0]⟩

/-- `data_handle` -/
def dataHandle (env : Env) (p : Protocol) (payload : Option (List UInt8)) (ackCapacity : ℕ) :
    Reply :=
  match payload with
  | none => p.refuse
  | some payload =>
    if payload.length ≠ dataLength ∨ ackCapacity < 1 then p.refuse
    else
      let length := (readU16Le payload 5).toNat
      if payload.getD 4 0 ≠ p.core.config.expectedModuleId ∨ length = 0 ∨ packetDataSize < length
          ∨ readU16Le payload packetCrcOffset ≠ p.crc16 (payload.take packetCrcOffset) then
        ⟨p.core, [], .protocolError, [0]⟩
      else
        match packetSubmit env p.core (readU32Le payload 0)
          (some ((payload.drop 7).take length)) with
        | (core, result, calls) => ⟨core, calls, result, [if result = .success then 1 else 0]⟩

/-- `end_handle` -/
def endHandle (p : Protocol) (payload : Option (List UInt8)) (ackCapacity : ℕ) : Reply :=
  match payload with
  | none => p.refuse
  | some payload =>
    if payload.length ≠ 2 ∨ ackCapacity < 1 then p.refuse
    else
      match upgradeEnd p.core (readU16Le payload 0) with
      | (core, result) => ⟨core, [], result, [if result = .success then 1 else 0]⟩

/-- `bootloader_protocol_handle` -/
def protocolHandle (env : Env) (p : Protocol) (cmdWord : UInt8) (payload : Option (List UInt8))
    (ackCapacity : ℕ) : Reply :=
  if cmdWord = 0x08 then infoHandle env p payload ackCapacity
  else if cmdWord = 0x09 then readyHandle p payload ackCapacity
  else if cmdWord = 0x0A then dataHandle env p payload ackCapacity
  else if cmdWord = 0x0B then endHandle p payload ackCapacity
  else p.refuse

/-- The zones that a session in `mode` writes -/
def targetZones : UpgradeMode → List FlashZone
  | .direct => [.iap]
  | .staged => [.iap, .staging]

/-- The zone is mounted, and may be read, written and erased. -/
def Accessible (env : Env) (zone : FlashZone) : Prop :=
  (env.zoneInfo zone).1 = .success ∧ (env.zoneInfo zone).2.readable = true ∧
    (env.zoneInfo zone).2.writable = true ∧ (env.zoneInfo zone).2.erasable = true

/-- The image is too large for a target zone. -/
def Oversize (env : Env) (mode : UpgradeMode) (fileSize : UInt32) : Prop :=
  ∃ zone ∈ targetZones mode, (env.zoneInfo zone).2.size < fileSize

instance (env : Env) (mode : UpgradeMode) (fileSize : UInt32) :
    Decidable (Oversize env mode fileSize) :=
  inferInstanceAs (Decidable (∃ zone ∈ targetZones mode, (env.zoneInfo zone).2.size < fileSize))

/-- The reply says of the request what is so. -/
structure Classified (env : Env) (p : Protocol) (info : UpgradeInfo) (ack : List UInt8) : Prop where
  allow : ack.getD 0 0 = 1 ↔ info.moduleId = p.core.config.expectedModuleId ∧
    1 ≤ info.fileSize ∧ ¬Oversize env p.upgradeMode info.fileSize
  oversize : ack.getD 0 0 ≠ 1 →
    (readU16Le ack 1 &&& rejectOversizeMask ≠ 0 ↔ Oversize env p.upgradeMode info.fileSize)
  module : ack.getD 0 0 ≠ 1 →
    (readU16Le ack 1 &&& rejectModuleMask ≠ 0 ↔ info.moduleId ≠ p.core.config.expectedModuleId)

variable {env : Env} {p : Protocol} {info : UpgradeInfo}

theorem zoneRequirementsCheck_of_accessible {zone : FlashZone} (h : Accessible env zone)
    (size : UInt32) :
    zoneRequirementsCheck env zone size =
      if (env.zoneInfo zone).2.size < size then .configError else .success := by
  obtain ⟨hmounted, hread, hwrite, herase⟩ := h
  simp [zoneRequirementsCheck, hmounted, hread, hwrite, herase]

/-- What a session is begun with, where the core waits and the zones are accessible. -/
theorem upgradeBegin_result (hstate : p.core.state = .waitUpgrade)
    (hzones : ∀ zone ∈ targetZones p.upgradeMode, Accessible env zone) :
    (upgradeBegin env p.core (some info) (some p.upgradeMode)).2 =
      if env.beginBusy = true then .busy
      else if info.moduleId ≠ p.core.config.expectedModuleId ∨ info.fileSize = 0 then
        .invalidArgument
      else if Oversize env p.upgradeMode info.fileSize then .configError
      else .success := by
  have hiap : Accessible env .iap := hzones .iap (by cases p.upgradeMode <;> simp [targetZones])
  unfold upgradeBegin
  cases hbusy : env.beginBusy with
  | true => simp
  | false =>
    simp only [hstate, ne_eq, not_true_eq_false, false_or, Bool.false_eq_true, if_false]
    by_cases hbad : ¬info.moduleId = p.core.config.expectedModuleId ∨ info.fileSize = 0
    · rw [if_pos hbad, if_pos hbad]
    rw [if_neg hbad, if_neg hbad]
    cases hmode : p.upgradeMode with
    | direct =>
      by_cases hlt : (env.zoneInfo .iap).2.size < info.fileSize <;>
        simp [zoneRequirementsCheck_of_accessible hiap, Oversize, targetZones, hlt]
    | staged =>
      have hstaging : Accessible env .staging := hzones .staging (by simp [hmode, targetZones])
      by_cases hlt : (env.zoneInfo .iap).2.size < info.fileSize <;>
        by_cases hlt' : (env.zoneInfo .staging).2.size < info.fileSize <;>
        simp [zoneRequirementsCheck_of_accessible hiap,
          zoneRequirementsCheck_of_accessible hstaging, Oversize, targetZones, hlt, hlt']

/-- The reply to a well-formed request, by the result -/
theorem infoHandle_ack {payload : List UInt8} (hlen : payload.length = infoLength) {ackCapacity : ℕ}
    (hack : 3 ≤ ackCapacity) :
    (infoHandle env p (some payload) ackCapacity).ack =
      (if (upgradeBegin env p.core (some (infoRequest payload)) (some p.upgradeMode)).2 = .success
        then 1 else 2) ::
        u16Le (rejectReason
          (upgradeBegin env p.core (some (infoRequest payload)) (some p.upgradeMode)).2) := by
  simp [infoHandle, hlen, not_lt.2 hack]

theorem classified_cons_iff (b : UInt8) (reason : UInt16) :
    Classified env p info (b :: u16Le reason) ↔
      (b = 1 ↔ info.moduleId = p.core.config.expectedModuleId ∧ 1 ≤ info.fileSize ∧
        ¬Oversize env p.upgradeMode info.fileSize) ∧
      (b ≠ 1 → (reason &&& rejectOversizeMask ≠ 0 ↔ Oversize env p.upgradeMode info.fileSize) ∧
        (reason &&& rejectModuleMask ≠ 0 ↔ info.moduleId ≠ p.core.config.expectedModuleId)) := by
  have hread : readU16Le (b :: u16Le reason) 1 = reason := by
    have := readU16Le_append [b] [] reason
    rwa [List.append_nil] at this
  constructor
  · rintro ⟨hallow, hoversize, hmodule⟩
    rw [hread] at hoversize hmodule
    exact ⟨hallow, fun hb => ⟨hoversize hb, hmodule hb⟩⟩
  · rintro ⟨hallow, hreason⟩
    refine ⟨hallow, fun hb => ?_, fun hb => ?_⟩
    · rw [hread]
      exact (hreason hb).1
    · rw [hread]
      exact (hreason hb).2

/-- The reply is right if the image fits and the storage is not busy, except to a request for the
right module with an empty image; to that one it is right if the storage is busy. -/
theorem classified_iff (hstate : p.core.state = .waitUpgrade)
    (hzones : ∀ zone ∈ targetZones p.upgradeMode, Accessible env zone) {payload : List UInt8}
    (hlen : payload.length = infoLength) {ackCapacity : ℕ} (hack : 3 ≤ ackCapacity) :
    Classified env p (infoRequest payload)
        (protocolHandle env p 0x08 (some payload) ackCapacity).ack ↔
      ¬Oversize env p.upgradeMode (infoRequest payload).fileSize ∧
      (env.beginBusy = true ↔ (infoRequest payload).moduleId = p.core.config.expectedModuleId ∧
        (infoRequest payload).fileSize = 0) := by
  rw [protocolHandle, if_pos rfl, infoHandle_ack hlen hack, upgradeBegin_result hstate hzones]
  generalize infoRequest payload = info
  have hpos : 1 ≤ info.fileSize ↔ info.fileSize ≠ 0 := by
    rw [UInt32.le_iff_toNat_le, ne_eq, ← UInt32.toNat_inj, UInt32.toNat_one, UInt32.toNat_zero]
    omega
  have hfits : ¬Oversize env p.upgradeMode 0 := by
    rintro ⟨zone, -, hlt⟩
    exact absurd hlt (by simp)
  rw [classified_cons_iff, hpos]
  cases hbusy : env.beginBusy with
  | true =>
    by_cases hmodule : info.moduleId = p.core.config.expectedModuleId
    · by_cases hzero : info.fileSize = 0
      · simp [hmodule, hzero, hfits, rejectReason]
      · by_cases hover : Oversize env p.upgradeMode info.fileSize <;>
          simp [hmodule, hzero, hover, rejectReason]
    · by_cases hover : Oversize env p.upgradeMode info.fileSize <;>
        simp [hmodule, hover, rejectReason]
  | false =>
    by_cases hmodule : info.moduleId = p.core.config.expectedModuleId
    · by_cases hzero : info.fileSize = 0
      · simp [hmodule, hzero, hfits, rejectReason]
        decide
      · by_cases hover : Oversize env p.upgradeMode info.fileSize
        · simp [hmodule, hzero, hover, rejectReason]
        · simp [hmodule, hzero, hover, rejectReason]
    · by_cases hover : Oversize env p.upgradeMode info.fileSize
      · simp [hmodule, hover, rejectReason]
        decide
      · simp [hmodule, hover, rejectReason]
        decide

/-- A direct session for module 7, with zones of 1000 bytes -/
def demoProtocol : Protocol where
  core := { Core.cleared (fun _ => 0) (fun _ => 0) with
    config := { Config.zero with expectedModuleId := 7, copyBufferSize := 84 }
    state := .waitUpgrade }
  crc16 := fun _ => 0
  upgradeMode := .direct

def demoEnv : Env where
  zoneInfo := fun _ => (.success, ⟨1000, true, true, true⟩)
  submit := .success
  busy := false
  result := .success
  beginBusy := false
  headerCheck := fun _ _ => (.success, true)
  reasonClear := .success
  jump := .success

/-- A request for module `moduleId`, of version 0 -/
def demoRequest (moduleId : UInt8) (fileSize : UInt32) : List UInt8 :=
  [moduleId, 0, 0, 0, 0] ++ u32Le fileSize ++ [1]

theorem demoEnv_accessible (zone : FlashZone) : Accessible demoEnv zone := ⟨rfl, rfl, rfl, rfl⟩

/-- A request for another module, which says so -/
theorem classified_other_module :
    Classified demoEnv demoProtocol (infoRequest (demoRequest 8 900))
      (protocolHandle demoEnv demoProtocol 0x08 (some (demoRequest 8 900)) 3).ack := by
  refine (classified_iff rfl (fun zone _ => demoEnv_accessible zone) rfl le_rfl).2 ⟨?_, ?_⟩
  · decide +kernel
  · decide +kernel

/-- An image that is too large, and an empty one: the reply to the one names no reason, the reply to
the other blames the module. -/
theorem misclassified :
    (protocolHandle demoEnv demoProtocol 0x08 (some (demoRequest 7 2000)) 3).ack = [2, 0, 0] ∧
    ¬Classified demoEnv demoProtocol (infoRequest (demoRequest 7 2000))
      (protocolHandle demoEnv demoProtocol 0x08 (some (demoRequest 7 2000)) 3).ack ∧
    (protocolHandle demoEnv demoProtocol 0x08 (some (demoRequest 7 0)) 3).ack = [2, 4, 0] ∧
    ¬Classified demoEnv demoProtocol (infoRequest (demoRequest 7 0))
      (protocolHandle demoEnv demoProtocol 0x08 (some (demoRequest 7 0)) 3).ack := by
  have hlarge : (protocolHandle demoEnv demoProtocol 0x08 (some (demoRequest 7 2000)) 3).ack =
      [2, 0, 0] := by
    decide +kernel
  have hempty : (protocolHandle demoEnv demoProtocol 0x08 (some (demoRequest 7 0)) 3).ack =
      [2, 4, 0] := by
    decide +kernel
  refine ⟨hlarge, fun h => ?_, hempty, fun h => ?_⟩
  · have := (h.oversize (by rw [hlarge]; decide)).2 (by decide +kernel)
    rw [hlarge] at this
    exact this (by decide)
  · have := (h.module (by rw [hempty]; decide)).1 (by rw [hempty]; decide)
    exact this rfl

end Atoman.Bootloader
