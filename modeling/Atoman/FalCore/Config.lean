import Atoman.FalCore.Machine
import Mathlib.Algebra.Group.Nat.Defs
import Mathlib.Algebra.GroupWithZero.Nat
import Mathlib.Data.List.Basic

/-!
# Accepted configurations

What `fal_init` has checked of the tables, in numbers: every zone lies in its device,
made of whole blocks; zones of one device follow each other; and an identifier finds
one device and one zone.
-/

namespace Atoman.FalCore

/-- The size of some zones. -/
def zonesSize (zones : List ZoneCfg) : ℕ := (zones.map fun zone => zone.size.toNat).sum

@[simp] theorem zonesSize_nil : zonesSize [] = 0 := rfl

@[simp] theorem zonesSize_cons (zone : ZoneCfg) (rest : List ZoneCfg) :
    zonesSize (zone :: rest) = zone.size.toNat + zonesSize rest := by simp [zonesSize]

@[simp] theorem zonesSize_append (zones rest : List ZoneCfg) :
    zonesSize (zones ++ rest) = zonesSize zones + zonesSize rest := by simp [zonesSize]

/-- A zone of a device, with the zones in front of it. -/
structure ZoneAt (cfg : Cfg) (device : DeviceCfg) (before : List ZoneCfg) (zone : ZoneCfg) :
    Prop where
  device_mem : device ∈ cfg.devices
  split : ∃ behind, device.zones = before ++ zone :: behind

/-- What is checked of a device. -/
structure DeviceOk (device : DeviceCfg) : Prop where
  page_pos : 0 < device.programPageSize.toNat
  block_pos : 0 < device.eraseBlockSize.toNat
  unit_page : device.programUnitSize ≠ 0 →
    device.programUnitSize.toNat ∣ device.programPageSize.toNat

/-- What is checked of a zone. -/
structure ZoneOk (device : DeviceCfg) (before : List ZoneCfg) (zone : ZoneCfg) : Prop where
  fits : zonesSize before + zone.size.toNat ≤ device.capacity.toNat
  start_block : device.eraseBlockSize.toNat ∣ zonesSize before
  size_block : device.eraseBlockSize.toNat ∣ zone.size.toNat

/-- An accepted configuration. -/
structure Cfg.Valid (cfg : Cfg) : Prop where
  device_ok : ∀ device ∈ cfg.devices, DeviceOk device
  zone_ok : ∀ device before zone, ZoneAt cfg device before zone → ZoneOk device before zone
  device_inj : ∀ device ∈ cfg.devices, ∀ other ∈ cfg.devices, device.deviceId = other.deviceId →
    device = other
  zone_inj : ∀ device before zone other before' zone', ZoneAt cfg device before zone →
    ZoneAt cfg other before' zone' → zone.zoneId = zone'.zoneId →
    device = other ∧ before = before' ∧ zone = zone'

/-! ## Validation -/

section table
variable {α : Type} {check : List α → α → Result}

/-- A table passes when each entry does. -/
theorem validateTable_eq_success {before xs : List α} :
    validateTable check before xs = .success ↔
      ∀ pre x post, xs = pre ++ x :: post → check (before ++ pre) x = .success := by
  induction xs generalizing before with
  | nil =>
    refine ⟨fun _ pre x post h => ?_, fun _ => rfl⟩
    exact absurd h.symm (by simp)
  | cons y xs ih =>
    rw [validateTable]
    constructor
    · intro h pre x post hsplit
      by_cases hy : check before y = .success
      · rw [if_pos hy] at h
        cases pre with
        | nil =>
          obtain ⟨rfl, -⟩ := List.cons.inj hsplit
          simpa using hy
        | cons z pre =>
          obtain ⟨rfl, hrest⟩ := List.cons.inj hsplit
          simpa using ih.mp h pre x post hrest
      · rw [if_neg hy] at h
        exact absurd h hy
    · intro h
      have hy : check before y = .success := by simpa using h [] y xs rfl
      rw [if_pos hy]
      refine ih.mpr fun pre x post hsplit => ?_
      simpa using h (y :: pre) x post (by rw [hsplit]; rfl)

end table

/-- The offset behind the preceding zones does not wrap. -/
theorem precedingOffset_spec {capacity deviceOffset result : UInt32} {zones : List ZoneCfg}
    (h : precedingOffset capacity deviceOffset zones = some result)
    (hle : deviceOffset.toNat ≤ capacity.toNat) :
    result.toNat = deviceOffset.toNat + zonesSize zones ∧ result.toNat ≤ capacity.toNat := by
  induction zones generalizing deviceOffset with
  | nil =>
    obtain rfl := Option.some.inj h
    exact ⟨rfl, hle⟩
  | cons zone zones ih =>
    rw [precedingOffset] at h
    split at h
    · exact absurd h (by simp)
    · next hroom =>
      have hroom' : zone.size.toNat ≤ capacity.toNat - deviceOffset.toNat := by
        rw [← UInt32.toNat_sub_of_le _ _ (UInt32.le_iff_toNat_le.mpr hle)]
        exact UInt32.le_iff_toNat_le.mp (UInt32.not_lt.mp hroom)
      have hcap := capacity.toNat_lt
      have hadd : (deviceOffset + zone.size).toNat = deviceOffset.toNat + zone.size.toNat := by
        rw [UInt32.toNat_add]; omega
      obtain ⟨hresult, hresultLe⟩ := ih h (by rw [hadd]; omega)
      exact ⟨by rw [hresult, hadd, zonesSize_cons]; omega, hresultLe⟩

theorem toNat_dvd_of_mod_eq_zero {a b : UInt32} (h : a % b = 0) : b.toNat ∣ a.toNat := by
  apply Nat.dvd_of_mod_eq_zero
  rw [← UInt32.toNat_mod, h]
  rfl

theorem toNat_pos_of_ne_zero {a : UInt32} (h : a ≠ 0) : 0 < a.toNat :=
  Nat.pos_of_ne_zero fun h' => h (UInt32.toNat_inj.mp h')

theorem deviceOk_of_validate {before : List DeviceCfg} {device : DeviceCfg}
    (h : deviceValidate before device = .success) :
    DeviceOk device ∧ ∀ other ∈ before, other.deviceId ≠ device.deviceId := by
  unfold deviceValidate at h
  split at h
  · exact absurd h (by decide)
  · next hfields =>
    split at h
    · exact absurd h (by decide)
    · next hunit =>
      split at h
      · exact absurd h (by decide)
      · next hids =>
        simp only [not_or] at hfields
        simp only [not_and, not_or, Decidable.not_not] at hunit
        refine ⟨⟨toNat_pos_of_ne_zero hfields.2.1, toNat_pos_of_ne_zero hfields.2.2.1,
          fun h => toNat_dvd_of_mod_eq_zero (hunit h).1⟩, fun other hmem heq => ?_⟩
        exact hids (List.any_eq_true.mpr ⟨other, hmem, by simpa using heq⟩)

theorem zoneOk_of_validate {devices : List DeviceCfg} {device : DeviceCfg} {before : List ZoneCfg}
    {zone : ZoneCfg} (h : zoneValidate devices device before zone = .success) :
    ZoneOk device before zone ∧
      (∀ other ∈ devices, ∀ zone' ∈ other.zones, zone'.zoneId ≠ zone.zoneId) ∧
      ∀ zone' ∈ before, zone'.zoneId ≠ zone.zoneId := by
  unfold zoneValidate at h
  split at h
  · exact absurd h (by decide)
  · next deviceOffset hoffset =>
    obtain ⟨hsum, hle⟩ := precedingOffset_spec hoffset (Nat.zero_le _)
    split at h
    · exact absurd h (by decide)
    · next hfields =>
      split at h
      · exact absurd h (by decide)
      · next hids =>
        simp only [not_or, Decidable.not_not] at hfields
        obtain ⟨-, -, -, hroom, hstart, hsize⟩ := hfields
        have hroom' : zone.size.toNat ≤ device.capacity.toNat - deviceOffset.toNat := by
          rw [← UInt32.toNat_sub_of_le _ _ (UInt32.le_iff_toNat_le.mpr hle)]
          exact UInt32.le_iff_toNat_le.mp (UInt32.not_lt.mp hroom)
        have hbase : deviceOffset.toNat = zonesSize before := by
          rw [hsum]; exact Nat.zero_add _
        rw [zoneIdIsDuplicate, Bool.or_eq_true, not_or] at hids
        refine ⟨⟨by omega, by rw [← hbase]; exact toNat_dvd_of_mod_eq_zero hstart,
          toNat_dvd_of_mod_eq_zero hsize⟩, fun other hmem zone' hmem' heq => ?_,
          fun zone' hmem heq => ?_⟩
        · refine hids.1 (List.any_eq_true.mpr ⟨other, hmem, ?_⟩)
          exact List.any_eq_true.mpr ⟨zone', hmem', by simpa using heq⟩
        · exact hids.2 (List.any_eq_true.mpr ⟨zone', hmem, by simpa using heq⟩)

/-- Two splits of a list are the same, or one entry is in front of the other. -/
theorem append_cons_eq_cases {α : Type} {a b c d : List α} {x y : α}
    (h : a ++ x :: b = c ++ y :: d) : (a = c ∧ x = y ∧ b = d) ∨ x ∈ c ∨ y ∈ a := by
  rcases List.append_eq_append_iff.mp h with ⟨as, rfl, hx⟩ | ⟨bs, rfl, hy⟩
  · cases as with
    | nil =>
      obtain ⟨rfl, rfl⟩ := List.cons.inj hx
      exact Or.inl ⟨(List.append_nil a).symm, rfl, rfl⟩
    | cons z as =>
      obtain ⟨rfl, -⟩ := List.cons.inj hx
      exact Or.inr (Or.inl (by simp))
  · cases bs with
    | nil =>
      obtain ⟨rfl, rfl⟩ := List.cons.inj hy
      exact Or.inl ⟨List.append_nil c, rfl, rfl⟩
    | cons z bs =>
      obtain ⟨rfl, -⟩ := List.cons.inj hy
      exact Or.inr (Or.inr (by simp))

theorem ZoneAt.mem {cfg : Cfg} {device : DeviceCfg} {before : List ZoneCfg} {zone : ZoneCfg}
    (h : ZoneAt cfg device before zone) : zone ∈ device.zones := by
  obtain ⟨behind, hsplit⟩ := h.split
  rw [hsplit]
  simp

/-- **A configuration that `fal_init` validates is valid.** -/
theorem Cfg.valid_of_validate {cfg : Cfg} (h : cfg.validate = .success) : cfg.Valid := by
  unfold Cfg.validate at h
  split at h
  case isFalse hdevices => exact absurd h hdevices
  case isTrue hdevices =>
  rw [validateTable_eq_success] at hdevices h
  have hdevice := fun pre device post hsplit =>
    deviceOk_of_validate (hdevices pre device post hsplit)
  have hzone := fun pre device post hsplit before zone behind hsplit' =>
    zoneOk_of_validate (validateTable_eq_success.mp (h pre device post hsplit) before zone behind
      hsplit')
  simp only [List.nil_append] at hdevice hzone
  refine ⟨fun device hmem => ?_, fun device before zone hat => ?_,
    fun device hmem other hmem' hid => ?_,
    fun device before zone other before' zone' hat hat' hid => ?_⟩
  · obtain ⟨pre, post, hsplit⟩ := List.append_of_mem hmem
    exact (hdevice pre device post hsplit).1
  · obtain ⟨pre, post, hsplit⟩ := List.append_of_mem hat.device_mem
    obtain ⟨behind, hsplit'⟩ := hat.split
    exact (hzone pre device post hsplit before zone behind hsplit').1
  · obtain ⟨pre, post, hsplit⟩ := List.append_of_mem hmem
    obtain ⟨pre', post', hsplit'⟩ := List.append_of_mem hmem'
    rcases append_cons_eq_cases (hsplit.symm.trans hsplit') with ⟨-, heq, -⟩ | hin | hin
    · exact heq
    · exact absurd hid ((hdevice pre' other post' hsplit').2 device hin)
    · exact absurd hid.symm ((hdevice pre device post hsplit).2 other hin)
  · obtain ⟨pre, post, hsplit⟩ := List.append_of_mem hat.device_mem
    obtain ⟨pre', post', hsplit'⟩ := List.append_of_mem hat'.device_mem
    obtain ⟨behind, hzones⟩ := hat.split
    obtain ⟨behind', hzones'⟩ := hat'.split
    obtain ⟨-, hearlier, hfront⟩ := hzone pre device post hsplit before zone behind hzones
    obtain ⟨-, hearlier', hfront'⟩ := hzone pre' other post' hsplit' before' zone' behind' hzones'
    rcases append_cons_eq_cases (hsplit.symm.trans hsplit') with ⟨-, rfl, -⟩ | hin | hin
    · rcases append_cons_eq_cases (hzones.symm.trans hzones') with ⟨hbefore, hsame, -⟩ | hin | hin
      · exact ⟨rfl, hbefore, hsame⟩
      · exact absurd hid (hfront' zone hin)
      · exact absurd hid.symm (hfront zone' hin)
    · exact absurd hid (hearlier' device hin zone hat.mem)
    · exact absurd hid.symm (hearlier other hin zone' hat'.mem)

/-! ## Searching -/

/-- The zones of a device fit it. -/
theorem Cfg.Valid.zonesSize_le {cfg : Cfg} (h : cfg.Valid) {device : DeviceCfg}
    (hmem : device ∈ cfg.devices) : zonesSize device.zones ≤ device.capacity.toNat := by
  rcases List.eq_nil_or_concat device.zones with hnil | ⟨before, zone, hconcat⟩
  · rw [hnil]; exact Nat.zero_le _
  · have hok := h.zone_ok device before zone ⟨hmem, [], by rw [hconcat, List.concat_eq_append]⟩
    rw [hconcat, List.concat_eq_append, zonesSize_append, zonesSize_cons, zonesSize_nil]
    exact hok.fits

/-- The address that is found for a zone does not wrap. -/
theorem zoneFindIn_spec {zoneId : UInt16} {deviceOffset address : UInt32} {zones : List ZoneCfg}
    {zone : ZoneCfg} (h : zoneFindIn zoneId deviceOffset zones = some (zone, address))
    (hfit : deviceOffset.toNat + zonesSize zones < 2 ^ 32) :
    zone.zoneId = zoneId ∧ ∃ before behind, zones = before ++ zone :: behind ∧
      address.toNat = deviceOffset.toNat + zonesSize before := by
  induction zones generalizing deviceOffset with
  | nil => exact absurd h (by simp [zoneFindIn])
  | cons z zones ih =>
    rw [zonesSize_cons] at hfit
    rw [zoneFindIn] at h
    split at h
    · next hid =>
      obtain ⟨rfl, rfl⟩ := Prod.mk.inj (Option.some.inj h)
      exact ⟨hid, [], zones, rfl, rfl⟩
    · have hadd : (deviceOffset + z.size).toNat = deviceOffset.toNat + z.size.toNat := by
        rw [UInt32.toNat_add]; omega
      obtain ⟨hid, before, behind, hsplit, haddress⟩ := ih h (by rw [hadd]; omega)
      refine ⟨hid, z :: before, behind, by rw [hsplit]; rfl, ?_⟩
      rw [haddress, hadd, zonesSize_cons, Nat.add_assoc]

/-- **A zone is found where it lies.** -/
theorem Cfg.Valid.zoneFind_spec {cfg : Cfg} (h : cfg.Valid) {zoneId : UInt16} {zone : ZoneCfg}
    {device : DeviceCfg} {address : UInt32}
    (hfind : cfg.zoneFind zoneId = some (zone, device, address)) :
    zone.zoneId = zoneId ∧ ∃ before, ZoneAt cfg device before zone ∧
      address.toNat = zonesSize before := by
  obtain ⟨d, hmem, hd⟩ := List.exists_of_findSome?_eq_some hfind
  obtain ⟨found, hfound, heq⟩ := Option.map_eq_some_iff.mp hd
  obtain ⟨rfl, rfl, rfl⟩ : found.1 = zone ∧ d = device ∧ found.2 = address := by
    simpa only [Prod.mk.injEq] using heq
  have hsize := h.zonesSize_le hmem
  have hcap := d.capacity.toNat_lt
  obtain ⟨hid, before, behind, hsplit, haddress⟩ := zoneFindIn_spec hfound
    (by rw [UInt32.toNat_zero]; omega)
  exact ⟨hid, before, ⟨hmem, behind, hsplit⟩, by rw [haddress, UInt32.toNat_zero, Nat.zero_add]⟩

/-- The device of an identifier is found. -/
theorem Cfg.Valid.find_device {cfg : Cfg} (h : cfg.Valid) {device : DeviceCfg}
    (hmem : device ∈ cfg.devices) :
    (cfg.devices.find? fun other => other.deviceId == device.deviceId) = some device := by
  cases hfind : cfg.devices.find? fun other => other.deviceId == device.deviceId with
  | none =>
    have := List.find?_eq_none.mp hfind device hmem
    simp at this
  | some other =>
    have hid : other.deviceId = device.deviceId := by simpa using List.find?_some hfind
    rw [h.device_inj other (List.mem_of_find?_eq_some hfind) device hmem hid]

/-- **Zones of one device are disjoint.** -/
theorem ZoneAt.disjoint {cfg : Cfg} {device : DeviceCfg} {before before' : List ZoneCfg}
    {zone zone' : ZoneCfg} (h : ZoneAt cfg device before zone)
    (h' : ZoneAt cfg device before' zone') (hne : before ≠ before') :
    zonesSize before + zone.size.toNat ≤ zonesSize before' ∨
      zonesSize before' + zone'.size.toNat ≤ zonesSize before := by
  obtain ⟨behind, hsplit⟩ := h.split
  obtain ⟨behind', hsplit'⟩ := h'.split
  rcases List.append_eq_append_iff.mp (hsplit.symm.trans hsplit') with ⟨as, rfl, hx⟩ | ⟨bs, rfl, hy⟩
  · cases as with
    | nil => exact absurd (List.append_nil before).symm hne
    | cons z as =>
      obtain ⟨rfl, -⟩ := List.cons.inj hx
      left
      rw [zonesSize_append, zonesSize_cons]
      omega
  · cases bs with
    | nil => exact absurd (List.append_nil before') hne
    | cons z bs =>
      obtain ⟨rfl, -⟩ := List.cons.inj hy
      right
      rw [zonesSize_append, zonesSize_cons]
      omega

/-- An instance that `fal_init` accepts is idle with a valid configuration. -/
theorem init_spec {cfg : Option Cfg} {driverInit : DeviceCfg → Result}
    (h : (init cfg driverInit).2 = .success) : ∃ c, cfg = some c ∧ c.Valid ∧
      (init cfg driverInit).1 =
        { Fal.blank .idle .success with cfg := some c, operationState := .idle } := by
  unfold init at h ⊢
  cases cfg with
  | none => exact absurd h (by simp)
  | some c =>
    dsimp only at h ⊢
    split at h
    · exact absurd h (by simp)
    · next hne =>
      split at h
      · next hinvalid => exact absurd h hinvalid
      · next hvalid =>
        split at h
        · exact absurd h (by simp)
        · next hdriver =>
          rw [if_neg hne, if_neg hvalid, if_neg hdriver]
          exact ⟨c, rfl, Cfg.valid_of_validate (Decidable.not_not.mp hvalid), rfl⟩

end Atoman.FalCore
