import Atoman.FalCore.Config
import Atoman.Lib.Tiling
import Atoman.Lib.Transition

/-!
# Requests and their driver calls

An instance observed from outside: the request it works on with the driver calls made
for it and their answers, and the requests it has finished. The place of a request is
its zone and the range it stands for, in numbers; `Flight` says how far an active
request has come, and is what every step keeps.
-/

namespace Atoman.FalCore
open Lib

/-- A call of `fal_read`, `fal_write` or `fal_erase`. -/
structure Request where
  operation : OperationType
  zoneId : UInt16
  offset : UInt32
  length : UInt32
  data : Pointer
  deriving DecidableEq, Repr

/-- A request with the driver calls made for it and their answers. -/
structure Active where
  request : Request
  calls : List (Call × Result)
  deriving DecidableEq, Repr

/-- An instance with the request it works on, and the finished ones with their results. -/
structure System where
  fal : Fal
  active : Option Active
  done : List (Active × Result)
  deriving DecidableEq, Repr

/-- What the owner of an instance may do. -/
inductive Act
  | read (zoneId : UInt16) (offset length : UInt32) (data : Pointer)
  | write (zoneId : UInt16) (offset length : UInt32) (data : Pointer)
  | erase (zoneId : UInt16) (offset length : UInt32)
  | process (deviceState : DeviceState) (answer : Result)
  | stop
  deriving DecidableEq, Repr

/-- A request that starts is active, one that succeeds at once is done. -/
def System.submitted (s : System) (r : Request) (out : Fal × Result) : System :=
  match out.2 with
  | .inProgress => { s with fal := out.1, active := some ⟨r, []⟩ }
  | .success => { s with fal := out.1, done := s.done ++ [(⟨r, []⟩, .success)] }
  | _ => { s with fal := out.1 }

/-- The calls of a step belong to the active request; it is done when the instance is
no longer busy. -/
def System.processed (s : System) (answer : Result) (out : Fal × List Call) : System :=
  let active := s.active.map fun a => { a with calls := a.calls ++ out.2.map fun c => (c, answer) }
  if out.1.operation = .none then
    ⟨out.1, none, s.done ++ active.toList.map fun a => (a, out.1.result)⟩
  else ⟨out.1, active, s.done⟩

def System.act (s : System) : Act → System
  | .read zoneId offset length data =>
    s.submitted ⟨.read, zoneId, offset, length, data⟩ (s.fal.read zoneId offset length data)
  | .write zoneId offset length data =>
    s.submitted ⟨.write, zoneId, offset, length, data⟩ (s.fal.write zoneId offset length data)
  | .erase zoneId offset length =>
    s.submitted ⟨.erase, zoneId, offset, length, none⟩ (s.fal.erase zoneId offset length)
  | .process deviceState answer => s.processed answer (s.fal.process deviceState answer)
  | .stop => { s with fal := s.fal.stopRequest.1 }

/-- An accepted configuration with any actions on it. -/
def falSystem (cfg : Cfg) (driverInit : DeviceCfg → Result) : Transition System where
  init s := (init (some cfg) driverInit).2 = .success ∧
    s = ⟨(init (some cfg) driverInit).1, none, []⟩
  next s t := ∃ a, t = s.act a

/-! ## The place of a request -/

/-- The permission an operation needs. -/
def permissionFor : OperationType → UInt8
  | .none => 0
  | .read => permissionRead
  | .write => permissionWrite
  | .erase => permissionErase

/-- Round up to a multiple. -/
def roundUp (n block : ℕ) : ℕ := (n + (block - 1)) / block * block

/-- Where a request works: its zone, which it has the right to. -/
structure Place (cfg : Cfg) (r : Request) where
  device : DeviceCfg
  before : List ZoneCfg
  zone : ZoneCfg
  zone_at : ZoneAt cfg device before zone
  zoneId_eq : zone.zoneId = r.zoneId
  permitted : zone.permissions &&& permissionFor r.operation ≠ 0
  fits : r.offset.toNat + r.length.toNat ≤ zone.size.toNat
  unit_start : r.operation = .write → device.programUnitSize ≠ 0 →
    device.programUnitSize.toNat ∣ zonesSize before + r.offset.toNat
  buffered : r.operation ≠ .erase → r.data ≠ none

namespace Place
variable {cfg : Cfg} {r : Request} (p : Place cfg r)

/-- The address of the zone on its device. -/
def base : ℕ := zonesSize p.before

def block : ℕ := p.device.eraseBlockSize.toNat

/-- The first address: an erase starts with a whole block. -/
def start : ℕ :=
  p.base + if r.operation = .erase then r.offset.toNat / p.block * p.block else r.offset.toNat

/-- The end: an erase ends with a whole block. -/
def stop : ℕ :=
  p.base + if r.operation = .erase then roundUp (r.offset.toNat + r.length.toNat) p.block
    else r.offset.toNat + r.length.toNat

/-- The call for a range of addresses; the buffer goes along with the address. -/
def call (range : ℕ × ℕ) : Call :=
  let data := r.data.map (· + (range.1 - p.start))
  match r.operation with
  | .read => .read p.device.deviceId (UInt32.ofNat range.1) (UInt32.ofNat range.2) data
  | .write => .program p.device.deviceId (UInt32.ofNat range.1) (UInt32.ofNat range.2) data
  | _ => .erase p.device.deviceId (UInt32.ofNat range.1) (UInt32.ofNat range.2)

/-- The chunk respects what the device asks for. -/
def ChunkOk (range : ℕ × ℕ) : Prop :=
  match r.operation with
  | .read => p.device.maxReadSize = 0 ∨ range.2 ≤ p.device.maxReadSize.toNat
  | .write =>
    (p.device.programUnitSize ≠ 0 → p.device.programUnitSize.toNat ∣ range.1) ∧
      range.1 % p.device.programPageSize.toNat + range.2 ≤ p.device.programPageSize.toNat
  | _ => p.block ∣ range.1 ∧ range.2 = p.block

/-- An address a chunk may start at. -/
def Aligned (address : ℕ) : Prop :=
  match r.operation with
  | .write => p.device.programUnitSize ≠ 0 → p.device.programUnitSize.toNat ∣ address
  | .erase => p.block ∣ address
  | _ => True

end Place

/-! ## Rounding -/

theorem roundUp_le {n m block : ℕ} (hblock : 0 < block) (hm : block ∣ m) (h : n ≤ m) :
    roundUp n block ≤ m := by
  obtain ⟨k, rfl⟩ := hm
  rw [roundUp, Nat.mul_comm block k]
  refine Nat.mul_le_mul_right _ ?_
  have hlt : n + (block - 1) < (k + 1) * block := by
    rw [Nat.add_mul, Nat.one_mul, Nat.mul_comm k]
    omega
  exact Nat.le_of_lt_succ ((Nat.div_lt_iff_lt_mul hblock).mpr hlt)

theorem le_roundUp {n block : ℕ} (hblock : 0 < block) : n ≤ roundUp n block := by
  rw [roundUp]
  have := Nat.div_add_mod' (n + (block - 1)) block
  have := Nat.mod_lt (n + (block - 1)) hblock
  omega

/-- What the code computes, when it does not wrap. -/
theorem eraseEnd_toNat {requestedEnd eraseBlockSize : UInt32} (hblock : 0 < eraseBlockSize.toNat)
    (hfit : roundUp requestedEnd.toNat eraseBlockSize.toNat < 2 ^ 32) :
    (eraseEnd requestedEnd eraseBlockSize).toNat =
      roundUp requestedEnd.toNat eraseBlockSize.toNat := by
  have hdiv := Nat.div_add_mod' requestedEnd.toNat eraseBlockSize.toNat
  have hlt := Nat.mod_lt requestedEnd.toNat hblock
  have hmod : (requestedEnd % eraseBlockSize).toNat =
      requestedEnd.toNat % eraseBlockSize.toNat := UInt32.toNat_mod _ _
  rw [eraseEnd]
  split
  · next hrest =>
    have hpos : 0 < requestedEnd.toNat % eraseBlockSize.toNat := by
      rw [← hmod]; exact toNat_pos_of_ne_zero hrest
    have hround : roundUp requestedEnd.toNat eraseBlockSize.toNat =
        requestedEnd.toNat +
          (eraseBlockSize.toNat - requestedEnd.toNat % eraseBlockSize.toNat) := by
      rw [roundUp]
      have hq : (requestedEnd.toNat + (eraseBlockSize.toNat - 1)) / eraseBlockSize.toNat =
          requestedEnd.toNat / eraseBlockSize.toNat + 1 := by
        rw [Nat.div_eq_iff hblock]
        constructor
        · rw [Nat.add_mul, Nat.one_mul]; omega
        · rw [Nat.add_mul, Nat.one_mul]; omega
      rw [hq, Nat.add_mul, Nat.one_mul]
      omega
    have hsub : (eraseBlockSize - requestedEnd % eraseBlockSize).toNat =
        eraseBlockSize.toNat - requestedEnd.toNat % eraseBlockSize.toNat := by
      rw [UInt32.toNat_sub_of_le _ _ (UInt32.le_iff_toNat_le.mpr (by rw [hmod]; omega)), hmod]
    rw [UInt32.toNat_add, hsub, hround]
    rw [hround] at hfit
    exact Nat.mod_eq_of_lt hfit
  · next hnone =>
    have hzero : requestedEnd.toNat % eraseBlockSize.toNat = 0 := by
      rw [← hmod, Decidable.not_not.mp hnone]; rfl
    have hround : roundUp requestedEnd.toNat eraseBlockSize.toNat = requestedEnd.toNat := by
      refine Nat.le_antisymm ?_ (le_roundUp hblock)
      exact roundUp_le hblock (Nat.dvd_of_mod_eq_zero hzero) (Nat.le_refl _)
    rw [hround]

end Atoman.FalCore
