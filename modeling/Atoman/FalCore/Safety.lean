import Atoman.FalCore.Flight
import Mathlib.Logic.Function.Basic

/-!
# Every call stays in its zone

A request that is accepted starts a flight over its place, and the invariant of the
system is that the active request is on its way. The calls of any step are then calls
that the place allows, and they touch no other zone.
-/

namespace Atoman.FalCore
open Lib

/-! ## Accepting a request -/

/-- What `request_validate` has found, when it accepts. -/
structure Accepted (cfg : Cfg) (zoneId : UInt16) (offset length : UInt32) (permission : UInt8)
    (before : List ZoneCfg) (found : ZoneCfg × DeviceCfg × UInt32) : Prop where
  zone_at : ZoneAt cfg found.2.1 before found.1
  zoneId_eq : found.1.zoneId = zoneId
  permitted : found.1.permissions &&& permission ≠ 0
  fits : offset.toNat + length.toNat ≤ found.1.size.toNat
  base_eq : found.2.2.toNat = zonesSize before

/-- A result that leaves everything as it was. -/
def Result.refuses (result : Result) : Prop := result ≠ .inProgress ∧ result ≠ .success

section requests
variable {cfg : Cfg} {f : Fal} (hcfg : f.cfg = some cfg) (hv : cfg.Valid)
include hcfg hv

theorem requestValidate_spec (zoneId : UInt16) (offset length : UInt32) (permission : UInt8) :
    (∃ result, f.requestValidate zoneId offset length permission = .error result ∧
        result.refuses) ∨
      ∃ found before, f.requestValidate zoneId offset length permission = .ok found ∧
        f.operation = .none ∧ Accepted cfg zoneId offset length permission before found := by
  unfold Fal.requestValidate
  split
  · exact Or.inl ⟨_, rfl, by decide, by decide⟩
  · split
    · exact Or.inl ⟨_, rfl, by decide, by decide⟩
    · rw [hcfg]
      dsimp only
      split
      · exact Or.inl ⟨_, rfl, by decide, by decide⟩
      · next hidle =>
        split
        · exact Or.inl ⟨_, rfl, by decide, by decide⟩
        · next zone device deviceOffset hfind =>
          obtain ⟨hid, before, hat, hbase⟩ := hv.zoneFind_spec hfind
          split
          · exact Or.inl ⟨_, rfl, by decide, by decide⟩
          · next hpermitted =>
            split
            · exact Or.inl ⟨_, rfl, by decide, by decide⟩
            · next hrange =>
              refine Or.inr ⟨_, before, rfl, by simpa [Fal.isBusy] using hidle, hat, hid,
                hpermitted, ?_, hbase⟩
              rw [not_or, UInt32.not_lt, UInt32.not_lt, UInt32.le_iff_toNat_le,
                UInt32.le_iff_toNat_le] at hrange
              have := UInt32.toNat_sub_of_le _ _ (UInt32.le_iff_toNat_le.mpr hrange.1)
              change offset.toNat + length.toNat ≤ zone.size.toNat
              omega

end requests

/-- **No address computation of a request wraps**: each is what it is in numbers. -/
structure Exact (device : DeviceCfg) (base : ℕ) (deviceOffset offset length : UInt32) : Prop where
  start : (deviceOffset + offset).toNat = base + offset.toNat
  stop : (offset + length).toNat = offset.toNat + length.toNat
  erase_start : (deviceOffset + (offset - offset % device.eraseBlockSize)).toNat =
    base + offset.toNat / device.eraseBlockSize.toNat * device.eraseBlockSize.toNat
  erase_stop : (eraseEnd (offset + length) device.eraseBlockSize).toNat =
    roundUp (offset.toNat + length.toNat) device.eraseBlockSize.toNat
  erase_length : (eraseEnd (offset + length) device.eraseBlockSize -
      (offset - offset % device.eraseBlockSize)).toNat +
    offset.toNat / device.eraseBlockSize.toNat * device.eraseBlockSize.toNat =
      roundUp (offset.toNat + length.toNat) device.eraseBlockSize.toNat

section accepted
variable {cfg : Cfg} {zoneId : UInt16} {offset length : UInt32} {permission : UInt8}
variable {before : List ZoneCfg} {found : ZoneCfg × DeviceCfg × UInt32}

theorem Accepted.exact (h : Accepted cfg zoneId offset length permission before found)
    (hv : cfg.Valid) : Exact found.2.1 (zonesSize before) found.2.2 offset length := by
  have hzone := hv.zone_ok _ _ _ h.zone_at
  have hblock := (hv.device_ok _ h.zone_at.device_mem).block_pos
  have hcapacity := found.2.1.capacity.toNat_lt
  have hsize := hzone.fits
  have hrange := h.fits
  have hbase := h.base_eq
  have hstop : (offset + length).toNat = offset.toNat + length.toNat := by
    rw [UInt32.toNat_add]; omega
  have hdiv := Nat.div_add_mod' offset.toNat found.2.1.eraseBlockSize.toNat
  have hmod : (offset % found.2.1.eraseBlockSize).toNat =
      offset.toNat % found.2.1.eraseBlockSize.toNat := UInt32.toNat_mod _ _
  have hround : (offset - offset % found.2.1.eraseBlockSize).toNat =
      offset.toNat / found.2.1.eraseBlockSize.toNat * found.2.1.eraseBlockSize.toNat := by
    rw [UInt32.toNat_sub_of_le _ _ (UInt32.le_iff_toNat_le.mpr (by omega)), hmod]
    omega
  have hup := roundUp_le hblock hzone.size_block hrange
  have hend : (eraseEnd (offset + length) found.2.1.eraseBlockSize).toNat =
      roundUp (offset.toNat + length.toNat) found.2.1.eraseBlockSize.toNat := by
    rw [eraseEnd_toNat hblock (by rw [hstop]; omega), hstop]
  have hle := le_roundUp (n := offset.toNat + length.toNat) hblock
  refine ⟨by rw [UInt32.toNat_add]; omega, hstop, ?_, hend, ?_⟩
  · rw [UInt32.toNat_add, hround]; omega
  · rw [UInt32.toNat_sub_of_le _ _ (UInt32.le_iff_toNat_le.mpr (by omega)), hend, hround]
    omega

end accepted

/-- What is left of a call of `fal_read`, `fal_write` or `fal_erase`: it was refused, it
had nothing to do, or the request is on its way. -/
inductive Submitted (cfg : Cfg) (f : Fal) (r : Request) : Fal × Result → Prop
  | refused {result : Result} (h : result.refuses) : Submitted cfg f r (f, result)
  | empty (idle : f.operation = .none) (length_eq : r.length = 0) :
      Submitted cfg f r ({ f with result := .success }, .success)
  | begun {f' : Fal} (idle : f.operation = .none) (cfg_eq : f'.cfg = f.cfg) (p : Place cfg r)
      (flight : Flight f' p []) (phase : Phase f' p [] []) : Submitted cfg f r (f', .inProgress)

section submit
variable {cfg : Cfg} {f : Fal}

/-- The place of an accepted request. -/
def Accepted.place {r : Request} {before : List ZoneCfg} {found : ZoneCfg × DeviceCfg × UInt32}
    (h : Accepted cfg r.zoneId r.offset r.length (permissionFor r.operation) before found)
    (hunit : r.operation = .write → found.2.1.programUnitSize ≠ 0 →
      found.2.1.programUnitSize.toNat ∣ zonesSize before + r.offset.toNat)
    (hdata : r.operation ≠ .erase → r.data ≠ none) : Place cfg r where
  device := found.2.1
  before := before
  zone := found.1
  zone_at := h.zone_at
  zoneId_eq := h.zoneId_eq
  permitted := h.permitted
  fits := h.fits
  unit_start := hunit
  buffered := hdata

/-- **The start of a flight.** -/
theorem Flight.begin {r : Request} (p : Place cfg r) (hv : cfg.Valid) {g : Fal}
    (hoperation : g.operation = r.operation) (hworking : r.operation ≠ .none)
    (hdevice : g.activeDeviceId = p.device.deviceId) (hresumes : g.operationState ≠ .waitDevice)
    (haddress : g.physicalAddress.toNat = p.start)
    (htotal : p.start + g.remaining.toNat = p.stop) (hchunk : g.chunkLength = 0)
    (hdata : r.operation ≠ .erase → g.data = r.data) (hstate : g.state = g.operationState)
    (hsynced : g.syncIssued = false) (hlength : r.length ≠ 0) :
    Flight g p [] ∧ Phase g p [] [] := by
  have hzero : g.chunkLength.toNat = 0 := by rw [hchunk]; rfl
  have hlt := p.start_lt_stop hv (toNat_pos_of_ne_zero hlength)
  constructor
  · exact {
      operation_eq := hoperation
      working := hworking
      device_eq := hdevice
      resumes := hresumes
      start_le := by omega
      total := by omega
      chunk_le := by omega
      tiles := by rw [haddress, hzero]; exact rfl
      chunk_pos := by simp
      aligned := fun _ => by rw [haddress, hzero]; exact p.aligned_start hv
      data_eq := fun hop => by
        rw [hdata hop, haddress, Nat.sub_self]
        simp }
  · refine .ready hstate hchunk (fun hnone => ?_) hsynced rfl
    rw [hnone] at htotal
    have : p.start + 0 = p.stop := htotal
    omega

variable (hcfg : f.cfg = some cfg) (hv : cfg.Valid)
include hcfg hv

theorem read_spec (zoneId : UInt16) (offset length : UInt32) (data : Pointer) :
    Submitted cfg f ⟨.read, zoneId, offset, length, data⟩ (f.read zoneId offset length data) := by
  unfold Fal.read
  split
  · exact .refused (by constructor <;> decide)
  · next hdata =>
    obtain ⟨result, hvalidate, hrefuses⟩ | ⟨⟨zone, device, deviceOffset⟩, before,
        hvalidate, hidle, haccepted⟩ :=
      requestValidate_spec hcfg hv zoneId offset length permissionRead
    · rw [hvalidate]
      exact .refused hrefuses
    · rw [hvalidate]
      dsimp only
      split
      · next hlength => exact .empty hidle hlength
      · next hlength =>
        have hexact := haccepted.exact hv
        let p : Place cfg ⟨.read, zoneId, offset, length, data⟩ :=
          haccepted.place (by simp) fun _ hnone => hdata ⟨hnone, hlength⟩
        obtain ⟨hflight, hphase⟩ := Flight.begin (g := { f.requestBegin device .read .read
            (deviceOffset + offset) length with readData := data }) p hv rfl (by simp) rfl
          (by simp [Fal.requestBegin]) hexact.start (Nat.add_assoc _ _ _) rfl (fun _ => rfl) rfl rfl
          hlength
        exact .begun hidle rfl p hflight hphase

theorem write_spec (zoneId : UInt16) (offset length : UInt32) (data : Pointer) :
    Submitted cfg f ⟨.write, zoneId, offset, length, data⟩ (f.write zoneId offset length data) := by
  unfold Fal.write
  split
  · exact .refused (by constructor <;> decide)
  · next hdata =>
    obtain ⟨result, hvalidate, hrefuses⟩ | ⟨⟨zone, device, deviceOffset⟩, before,
        hvalidate, hidle, haccepted⟩ :=
      requestValidate_spec hcfg hv zoneId offset length permissionWrite
    · rw [hvalidate]
      exact .refused hrefuses
    · rw [hvalidate]
      dsimp only
      split
      · next hlength => exact .empty hidle hlength
      · next hlength =>
        split
        · exact .refused (by constructor <;> decide)
        · next hunit =>
          have hexact := haccepted.exact hv
          have hstart : device.programUnitSize ≠ 0 →
              device.programUnitSize.toNat ∣ zonesSize before + offset.toNat := by
            intro hne
            rw [← hexact.start]
            refine toNat_dvd_of_mod_eq_zero (Decidable.not_not.mp fun hrest => ?_)
            exact hunit ⟨hne, Or.inl hrest⟩
          let p : Place cfg ⟨.write, zoneId, offset, length, data⟩ :=
            haccepted.place (fun _ => hstart) fun _ hnone => hdata ⟨hnone, hlength⟩
          obtain ⟨hflight, hphase⟩ := Flight.begin (g := { f.requestBegin device .write .write
              (deviceOffset + offset) length with writeData := data }) p hv rfl (by simp) rfl
            (by simp [Fal.requestBegin]) hexact.start (Nat.add_assoc _ _ _)
              rfl (fun _ => rfl) rfl rfl
            hlength
          exact .begun hidle rfl p hflight hphase

theorem erase_spec (zoneId : UInt16) (offset length : UInt32) :
    Submitted cfg f ⟨.erase, zoneId, offset, length, none⟩ (f.erase zoneId offset length) := by
  unfold Fal.erase
  obtain ⟨result, hvalidate, hrefuses⟩ | ⟨⟨zone, device, deviceOffset⟩, before, hvalidate, hidle,
      haccepted⟩ :=
    requestValidate_spec hcfg hv zoneId offset length permissionErase
  · rw [hvalidate]
    exact .refused hrefuses
  · rw [hvalidate]
    dsimp only
    split
    · next hlength => exact .empty hidle hlength
    · next hlength =>
      split
      · exact .refused (by constructor <;> decide)
      · have hexact := haccepted.exact hv
        let p : Place cfg ⟨.erase, zoneId, offset, length, none⟩ :=
          haccepted.place (by simp) (by simp)
        have htotal : p.start + (eraseEnd (offset + length) device.eraseBlockSize -
            (offset - offset % device.eraseBlockSize)).toNat = p.stop := by
          have := hexact.erase_length
          change zonesSize before + _ + _ = zonesSize before + _
          rw [if_pos rfl, if_pos rfl, Nat.add_assoc, Nat.add_comm (_ * _)]
          exact congrArg _ this
        obtain ⟨hflight, hphase⟩ := Flight.begin (g := f.requestBegin device .erase .erase
            (deviceOffset + (offset - offset % device.eraseBlockSize))
            (eraseEnd (offset + length) device.eraseBlockSize -
              (offset - offset % device.eraseBlockSize))) p hv rfl (by simp) rfl
          (by simp [Fal.requestBegin]) hexact.erase_start htotal rfl (by simp) rfl rfl hlength
        exact .begun hidle rfl p hflight hphase

end submit

/-! ## The invariant -/

/-- What a request has done that ended with success. -/
inductive Ended (cfg : Cfg) (a : Active) : Prop
  | empty (length_eq : a.request.length = 0) (calls_eq : a.calls = [])
  | covered (working : a.request.operation ≠ .none) (p : Place cfg a.request)
      (ranges : List (ℕ × ℕ)) (covers : p.Covers ranges a.calls)

/-- The active request is on its way. -/
structure Inv (cfg : Cfg) (s : System) : Prop where
  cfg_eq : s.fal.cfg = some cfg
  idle : s.active = none → s.fal.operation = .none
  active : ∀ a, s.active = some a → ∃ p : Place cfg a.request, ∃ ranges, Flight s.fal p ranges ∧
    Phase s.fal p ranges a.calls
  done : ∀ d ∈ s.done, d.2 = .success → Ended cfg d.1

section cfg
variable (f : Fal) (device : DeviceCfg) (deviceState : DeviceState) (answer : Result)

theorem operationIssue_cfg : (f.operationIssue device answer).1.cfg = f.cfg := by
  unfold Fal.operationIssue
  split
  · rfl
  · split <;> rfl

theorem operationCompleteOrSync_cfg :
    (f.operationCompleteOrSync device answer).1.cfg = f.cfg := by
  unfold Fal.operationCompleteOrSync
  split
  · split <;> rfl
  · rfl

theorem deviceProcess_cfg : (f.deviceProcess device deviceState answer).1.cfg = f.cfg := by
  unfold Fal.deviceProcess
  split
  · rfl
  · split
    · split
      · rfl
      · split
        · dsimp only
          split
          · exact operationCompleteOrSync_cfg _ device answer
          · rfl
        · split <;> rfl
    · split
      · rfl
      · exact operationIssue_cfg f device answer

end cfg

section inv
variable {cfg : Cfg} {s : System}

theorem Inv.active_eq_none (h : Inv cfg s) (hidle : s.fal.operation = .none) : s.active = none := by
  cases hactive : s.active with
  | none => rfl
  | some a =>
    obtain ⟨p, ranges, hflight, -⟩ := h.active a hactive
    exact absurd hidle hflight.busy

theorem Inv.submitted (h : Inv cfg s) {r : Request} {out : Fal × Result}
    (hout : Submitted cfg s.fal r out) : Inv cfg (s.submitted r out) := by
  cases hout with
  | @refused result hrefuses =>
    have hsame : s.submitted r (s.fal, result) = s := by
      cases result <;> first | rfl | exact absurd rfl hrefuses.1 | exact absurd rfl hrefuses.2
    rwa [hsame]
  | empty idle length_eq =>
    have hnone := h.active_eq_none idle
    refine ⟨h.cfg_eq, fun _ => idle, fun a ha => ?_, fun d hmem hsuccess => ?_⟩
    · exact absurd (hnone.symm.trans ha) (by simp)
    · rcases List.mem_append.mp hmem with hmem | hmem
      · exact h.done d hmem hsuccess
      · obtain rfl := List.mem_singleton.mp hmem
        exact .empty length_eq rfl
  | begun idle cfg_eq p flight phase =>
    refine ⟨cfg_eq.trans h.cfg_eq, fun hnone => absurd hnone (by simp [System.submitted]),
      fun a ha => ?_, h.done⟩
    obtain rfl := Option.some.inj ha
    exact ⟨p, [], flight, phase⟩

theorem Inv.process_idle (h : Inv cfg s) (hidle : s.active = none) (deviceState : DeviceState)
    (answer : Result) : s.fal.process deviceState answer = (s.fal, []) := by
  unfold Fal.process
  rw [h.cfg_eq]
  exact if_pos (h.idle hidle)

/-- **A busy instance works on its device.** -/
theorem Inv.process_busy (h : Inv cfg s) (hv : cfg.Valid) {r : Request} {p : Place cfg r}
    {ranges : List (ℕ × ℕ)} (hflight : Flight s.fal p ranges) (deviceState : DeviceState)
    (answer : Result) :
    s.fal.process deviceState answer = s.fal.deviceProcess p.device deviceState answer := by
  unfold Fal.process
  rw [h.cfg_eq]
  dsimp only
  rw [if_neg hflight.busy, hflight.device_eq, hv.find_device p.zone_at.device_mem]

theorem Inv.processed (h : Inv cfg s) (hv : cfg.Valid) (deviceState : DeviceState)
    (answer : Result) : Inv cfg (s.processed answer (s.fal.process deviceState answer)) := by
  cases hactive : s.active with
  | none =>
    have hsame : s.processed answer (s.fal.process deviceState answer) = s := by
      rw [h.process_idle hactive, System.processed, if_pos (h.idle hactive), hactive]
      change System.mk s.fal none (s.done ++ []) = s
      rw [List.append_nil, ← hactive]
    rwa [hsame]
  | some a =>
    obtain ⟨p, ranges, hflight, hphase⟩ := h.active a hactive
    obtain ⟨houtcome, -⟩ := hflight.deviceProcess hphase hv deviceState answer
    have hcfg := (deviceProcess_cfg s.fal p.device deviceState answer).trans h.cfg_eq
    rw [h.process_busy hv hflight, System.processed, hactive]
    cases houtcome with
    | going busy ranges flight phase =>
      rw [if_neg busy]
      refine ⟨hcfg, fun hnone => absurd hnone (by simp), fun a' ha => ?_, h.done⟩
      obtain rfl := Option.some.inj ha
      exact ⟨p, ranges, flight, phase⟩
    | ended idle covers =>
      rw [if_pos idle]
      refine ⟨hcfg, fun _ => idle, fun a' ha => absurd ha (by simp), fun d hmem hsuccess => ?_⟩
      rcases List.mem_append.mp hmem with hmem | hmem
      · exact h.done d hmem hsuccess
      · obtain rfl := List.mem_singleton.mp hmem
        obtain ⟨ranges, hcovers⟩ := covers hsuccess
        exact .covered hflight.working p ranges hcovers

theorem Inv.stopped (h : Inv cfg s) : Inv cfg { s with fal := s.fal.stopRequest.1 } := by
  unfold Fal.stopRequest
  split
  · exact h
  · refine ⟨h.cfg_eq, h.idle, fun a ha => ?_, h.done⟩
    obtain ⟨p, ranges, hflight, hphase⟩ := h.active a ha
    have hbusy : s.fal.isBusy = true := by simpa [Fal.isBusy] using hflight.busy
    simp only [hbusy, if_true]
    exact ⟨p, ranges, hflight.stop hphase⟩

/-- **The invariant is kept by every action.** -/
theorem Inv.act (h : Inv cfg s) (hv : cfg.Valid) (a : Act) : Inv cfg (s.act a) := by
  cases a with
  | read zoneId offset length data =>
    exact h.submitted (read_spec h.cfg_eq hv zoneId offset length data)
  | write zoneId offset length data =>
    exact h.submitted (write_spec h.cfg_eq hv zoneId offset length data)
  | erase zoneId offset length => exact h.submitted (erase_spec h.cfg_eq hv zoneId offset length)
  | process deviceState answer => exact h.processed hv deviceState answer
  | stop => exact h.stopped

variable {driverInit : DeviceCfg → Result}

theorem reachable_valid (h : (falSystem cfg driverInit).Reachable s) : cfg.Valid := by
  induction h with
  | start h =>
    obtain ⟨c, hc, hv, -⟩ := init_spec h.1
    obtain rfl := Option.some.inj hc
    exact hv
  | step _ _ ih => exact ih

theorem reachable_inv (h : (falSystem cfg driverInit).Reachable s) : Inv cfg s := by
  have hv := reachable_valid h
  refine h.invariant (fun s hinit => ?_) fun s t hs hstep => ?_
  · obtain ⟨c, hc, -, heq⟩ := init_spec hinit.1
    obtain rfl := Option.some.inj hc
    rw [hinit.2, heq]
    exact ⟨rfl, fun _ => rfl, fun a ha => absurd ha (by simp), fun d hmem => absurd hmem (by simp)⟩
  · obtain ⟨a, rfl⟩ := hstep
    exact hs.act hv a

end inv

/-! ## Calls and bytes -/

/-- The bytes a call reads, programs or erases. -/
def Call.Touches : Call → UInt16 → ℕ → Prop
  | .read device address length _, d, i | .program device address length _, d, i
  | .erase device address length, d, i =>
    device = d ∧ address.toNat ≤ i ∧ i < address.toNat + length.toNat
  | .sync _, _, _ => False

section bytes
variable {cfg : Cfg} {r : Request} {p : Place cfg r} {c : Call} {d : UInt16} {i : ℕ}

/-- A call that is allowed touches bytes of the zone. -/
theorem Place.Allows.inside (h : p.Allows c) (htouches : c.Touches d i) :
    d = p.device.deviceId ∧ p.base ≤ i ∧ i < p.base + p.zone.size.toNat := by
  cases c with
  | read device address length data =>
    obtain ⟨rfl, hfrom, hto⟩ := htouches
    obtain ⟨-, -, hdevice, hbase, hend, -⟩ := h
    exact ⟨hdevice, by omega, by omega⟩
  | program device address length data =>
    obtain ⟨rfl, hfrom, hto⟩ := htouches
    obtain ⟨-, -, hdevice, hbase, hend, -⟩ := h
    exact ⟨hdevice, by omega, by omega⟩
  | erase device address length =>
    obtain ⟨rfl, hfrom, hto⟩ := htouches
    obtain ⟨-, -, hdevice, hbase, hend, -⟩ := h
    exact ⟨hdevice, by omega, by omega⟩
  | sync device => exact absurd htouches (by simp [Call.Touches])

/-- **No byte of another zone is touched.** -/
theorem Place.Allows.not_touches (h : p.Allows c) (hv : cfg.Valid) {device : DeviceCfg}
    {before : List ZoneCfg} {zone : ZoneCfg} (hat : ZoneAt cfg device before zone)
    (hother : zone.zoneId ≠ r.zoneId) (hfrom : zonesSize before ≤ i)
    (hto : i < zonesSize before + zone.size.toNat) : ¬ c.Touches device.deviceId i := by
  intro htouches
  obtain ⟨hdevice, hbase, hend⟩ := h.inside htouches
  obtain rfl := hv.device_inj _ hat.device_mem _ p.zone_at.device_mem hdevice
  have hne : before ≠ p.before := by
    rintro rfl
    obtain ⟨behind, hsplit⟩ := hat.split
    obtain ⟨behind', hsplit'⟩ := p.zone_at.split
    have hcons := List.append_cancel_left (hsplit.symm.trans hsplit')
    exact hother ((congrArg ZoneCfg.zoneId (List.cons.inj hcons).1).trans p.zoneId_eq)
  have hbase' : zonesSize p.before ≤ i := hbase
  have hend' : i < zonesSize p.before + p.zone.size.toNat := hend
  rcases hat.disjoint p.zone_at hne with hle | hle
  · omega
  · omega

end bytes

/-! ## Safety -/

/-- **Every call stays in its zone.** In a reachable state what the active request still
has to do is a range in its zone and on its device; any call of any next step belongs to
the active request, is one its place allows, and touches no byte of another zone; and no
address computation of a request that is accepted, or of a commit, wraps. -/
theorem calls_stay_in_zone {cfg : Cfg} {driverInit : DeviceCfg → Result} {s : System}
    (h : (falSystem cfg driverInit).Reachable s) :
    (∀ a, s.active = some a → ∃ p : Place cfg a.request,
      p.start ≤ s.fal.physicalAddress.toNat ∧
      s.fal.physicalAddress.toNat + s.fal.remaining.toNat = p.stop ∧
      p.stop ≤ p.base + p.zone.size.toNat ∧
      p.base + p.zone.size.toNat ≤ p.device.capacity.toNat ∧
      (s.fal.physicalAddress + s.fal.chunkLength).toNat =
        s.fal.physicalAddress.toNat + s.fal.chunkLength.toNat ∧
      (s.fal.remaining - s.fal.chunkLength).toNat + s.fal.chunkLength.toNat =
        s.fal.remaining.toNat) ∧
    (∀ deviceState answer, ∀ c ∈ (s.fal.process deviceState answer).2,
      ∃ a, s.active = some a ∧ ∃ p : Place cfg a.request, p.Allows c ∧
        ∀ device before zone i, ZoneAt cfg device before zone → zone.zoneId ≠ a.request.zoneId →
          zonesSize before ≤ i → i < zonesSize before + zone.size.toNat →
          ¬ c.Touches device.deviceId i) ∧
    ∀ zoneId offset length permission zone device deviceOffset,
      s.fal.requestValidate zoneId offset length permission = .ok (zone, device, deviceOffset) →
      ∃ before, ZoneAt cfg device before zone ∧ deviceOffset.toNat = zonesSize before ∧
        Exact device (zonesSize before) deviceOffset offset length := by
  have hv := reachable_valid h
  have hinv := reachable_inv h
  refine ⟨fun a ha => ?_, fun deviceState answer c hc => ?_,
    fun zoneId offset length permission zone device deviceOffset hok => ?_⟩
  · obtain ⟨p, ranges, hflight, -⟩ := hinv.active a ha
    have htotal := hflight.total
    have hchunk := hflight.chunk_le
    have hlt := p.stop_lt hv
    refine ⟨p, hflight.start_le, htotal, p.stop_le hv, (p.zone_ok hv).fits, ?_, ?_⟩
    · rw [UInt32.toNat_add]; omega
    · rw [UInt32.toNat_sub_of_le _ _ (UInt32.le_iff_toNat_le.mpr hchunk)]; omega
  · cases hactive : s.active with
    | none =>
      rw [hinv.process_idle hactive] at hc
      exact absurd hc (by simp)
    | some a =>
      obtain ⟨p, ranges, hflight, hphase⟩ := hinv.active a hactive
      rw [hinv.process_busy hv hflight] at hc
      have hallows := (hflight.deviceProcess hphase hv deviceState answer).2 c hc
      exact ⟨a, rfl, p, hallows, fun device before zone i => hallows.not_touches hv⟩
  · obtain ⟨result, hvalidate, -⟩ | ⟨found, before, hvalidate, -, haccepted⟩ :=
      requestValidate_spec hinv.cfg_eq hv zoneId offset length permission
    · exact absurd (hok.symm.trans hvalidate) (by simp)
    · obtain rfl := Except.ok.inj (hok.symm.trans hvalidate)
      exact ⟨before, haccepted.zone_at, haccepted.base_eq, haccepted.exact hv⟩

/-- Two zones on one device, which puts no limit on a read. -/
def twoZones : Cfg where
  devices := [
    { deviceId := 1, capacity := 64, programPageSize := 8, eraseBlockSize := 16, maxReadSize := 0
      zones := [⟨1, 32, permissionAll⟩, ⟨2, 32, permissionAll⟩]
      ops := ⟨true, true, true, true, true, true⟩, programUnitSize := 4 }]

/-- A read of the second zone has begun. -/
def readingSecond : System :=
  (System.mk (init (some twoZones) fun _ => .success).1 none []).act (.read 2 4 20 (some 0))

theorem readingSecond_reachable :
    (falSystem twoZones fun _ => .success).Reachable readingSecond :=
  .step (.start ⟨by decide, rfl⟩) ⟨.read 2 4 20 (some 0), rfl⟩

theorem calls_stay_in_zone_demo :
    (readingSecond.fal.process .ready .success).2 = [.read 1 36 20 (some 0)] ∧
      ∀ c ∈ (readingSecond.fal.process .ready .success).2,
        ∃ a, readingSecond.active = some a ∧ ∃ p : Place twoZones a.request, p.Allows c ∧
          ∀ device before zone i, ZoneAt twoZones device before zone →
            zone.zoneId ≠ a.request.zoneId → zonesSize before ≤ i →
            i < zonesSize before + zone.size.toNat → ¬ c.Touches device.deviceId i :=
  ⟨by decide, (calls_stay_in_zone readingSecond_reachable).2.1 .ready .success⟩

/-- A device without a limit is read in one call. -/
theorem read_call_unlimited :
    ¬ ∀ (cfg : Cfg) (driverInit : DeviceCfg → Result) (s : System),
      (falSystem cfg driverInit).Reachable s →
      ∀ deviceState answer device address length data,
        Call.read device address length data ∈ (s.fal.process deviceState answer).2 →
        ∀ d ∈ cfg.devices, d.deviceId = device → length ≤ d.maxReadSize := by
  intro h
  have hcall : Call.read 1 36 20 (some 0) ∈ (readingSecond.fal.process .ready .success).2 := by
    decide
  exact absurd (h _ _ _ readingSecond_reachable .ready .success 1 36 20 (some 0) hcall _
    (List.mem_singleton.mpr rfl) rfl) (by decide)

end Atoman.FalCore
