import Atoman.FalCore.Safety

/-!
# Chunked requests do what one call would

A faithful device reads, programs and erases what it is asked to. Over such devices the
calls of a request that ended with success have the effect of one operation on the
whole range.
-/

namespace Atoman.FalCore
open Lib

/-- The contents of the devices, and of the memory of the caller. -/
structure World where
  flash : UInt16 → Memory UInt8
  ram : Memory UInt8

namespace World

/-- The contents of a device are replaced. -/
def setFlash (w : World) (device : UInt16) (contents : Memory UInt8) : World :=
  { w with flash := Function.update w.flash device contents }

/-- A call, as a faithful device carries it out. -/
def exec (erased : UInt8) (w : World) : Call → World
  | .read device address length (some data) =>
    { w with ram := w.ram.write data ((w.flash device).slice address.toNat length.toNat) }
  | .program device address length (some data) =>
    w.setFlash device ((w.flash device).write address.toNat (w.ram.slice data length.toNat))
  | .erase device address length =>
    w.setFlash device ((w.flash device).write address.toNat (List.replicate length.toNat erased))
  | .read _ _ _ none | .program _ _ _ none | .sync _ => w

/-- Calls carried out in turn. -/
def run (erased : UInt8) (w : World) (calls : List Call) : World := calls.foldl (exec erased) w

@[simp] theorem setFlash_flash (w : World) (device : UInt16) (contents : Memory UInt8) :
    (w.setFlash device contents).flash device = contents := Function.update_self ..

@[simp] theorem setFlash_ram (w : World) (device : UInt16) (contents : Memory UInt8) :
    (w.setFlash device contents).ram = w.ram := rfl

@[simp] theorem setFlash_setFlash (w : World) (device : UInt16)
    (contents contents' : Memory UInt8) :
    (w.setFlash device contents).setFlash device contents' = w.setFlash device contents' := by
  simp [setFlash]

@[simp] theorem setFlash_self (w : World) (device : UInt16) :
    w.setFlash device (w.flash device) = w := by simp [setFlash]

end World

/-- **What a request is for**, as one operation on its range. -/
def Place.oneShot {cfg : Cfg} {r : Request} (p : Place cfg r) (erased : UInt8) (w : World) :
    World :=
  let flash := w.flash p.device.deviceId
  match r.operation, r.data with
  | .read, some data =>
    { w with ram := w.ram.write data (flash.slice (p.base + r.offset.toNat) r.length.toNat) }
  | .write, some data =>
    w.setFlash p.device.deviceId
      (flash.write (p.base + r.offset.toNat) (w.ram.slice data r.length.toNat))
  | .erase, _ =>
    w.setFlash p.device.deviceId
      (flash.write p.start (List.replicate (p.stop - p.start) erased))
  | _, _ => w

section refinement
variable {cfg : Cfg} {r : Request} {p : Place cfg r} {ranges : List (ℕ × ℕ)} (erased : UInt8)

/-- A constant block is a slice of a constant memory. -/
theorem replicate_eq_slice (off len : ℕ) :
    List.replicate len erased = Memory.slice (fun _ => erased) off len := by
  simp [Memory.slice]

/-- A fold over part of a state. -/
theorem foldl_hom_of_mem {α β γ : Type} {f : α → β} {g : α → γ → α} {g' : β → γ → β} {l : List γ}
    (h : ∀ a, ∀ c ∈ l, g' (f a) c = f (g a c)) (a : α) : l.foldl g' (f a) = f (l.foldl g a) := by
  induction l generalizing a with
  | nil => rfl
  | cons c l ih =>
    rw [List.foldl_cons, List.foldl_cons, h a c List.mem_cons_self]
    exact ih (fun a c hc => h a c (List.mem_cons_of_mem _ hc)) _

/-- **The chunks of a range** do what one operation would. -/
theorem Place.run_ranges (hv : cfg.Valid) (hworking : r.operation ≠ .none)
    (htiles : Tiles p.start ranges p.stop) (w : World) :
    w.run erased (ranges.map p.call) = p.oneShot erased w := by
  have hstop := p.stop_lt hv
  have hin := htiles.range_le
  have haddress : ∀ range ∈ ranges, (UInt32.ofNat range.1).toNat =
      p.start + (range.1 - p.start) := by
    intro range hmem
    have := hin range hmem
    rw [UInt32.toNat_ofNat']
    omega
  have hsize : ∀ range ∈ ranges, (UInt32.ofNat range.2).toNat = range.2 := by
    intro range hmem
    have := hin range hmem
    rw [UInt32.toNat_ofNat']
    omega
  have hlength : r.operation ≠ .erase →
      p.start = p.base + r.offset.toNat ∧ p.stop - p.start = r.length.toNat := by
    intro hop
    rw [Place.start, Place.stop, if_neg hop, if_neg hop]
    omega
  rw [World.run, List.foldl_map]
  cases hop : r.operation with
  | none => exact absurd hop hworking
  | read =>
    obtain ⟨data, hdata⟩ := Option.ne_none_iff_exists'.mp (p.buffered (by rw [hop]; decide))
    obtain ⟨hstart, hlen⟩ := hlength (by rw [hop]; decide)
    have hcopy := htiles.foldl_copy (Nat.le_refl _) (w.flash p.device.deviceId) w.ram p.start data
    rw [Nat.sub_self, Nat.add_zero, Nat.add_zero, hlen] at hcopy
    simp only [Place.oneShot, hop, hdata]
    rw [← hstart, ← hcopy]
    refine foldl_hom_of_mem (f := fun ram => { w with ram := ram }) (fun ram range hmem => ?_) w.ram
    simp only [Place.call, hop, hdata, Option.map_some, World.exec, haddress range hmem,
      hsize range hmem]
  | write =>
    obtain ⟨data, hdata⟩ := Option.ne_none_iff_exists'.mp (p.buffered (by rw [hop]; decide))
    obtain ⟨hstart, hlen⟩ := hlength (by rw [hop]; decide)
    have hcopy := htiles.foldl_copy (Nat.le_refl _) w.ram (w.flash p.device.deviceId) data p.start
    rw [Nat.sub_self, Nat.add_zero, Nat.add_zero, hlen] at hcopy
    simp only [Place.oneShot, hop, hdata]
    rw [← hstart, ← hcopy]
    conv_lhs => rw [← w.setFlash_self p.device.deviceId]
    refine foldl_hom_of_mem (f := w.setFlash p.device.deviceId) (fun flash range hmem => ?_) _
    simp only [Place.call, hop, hdata, Option.map_some, World.exec, haddress range hmem,
      hsize range hmem, World.setFlash_flash, World.setFlash_ram, World.setFlash_setFlash]
  | erase =>
    have hcopy := htiles.foldl_copy (Nat.le_refl _) (fun _ => erased) (w.flash p.device.deviceId)
      p.start p.start
    rw [Nat.sub_self, Nat.add_zero, ← replicate_eq_slice] at hcopy
    simp only [Place.oneShot, hop]
    rw [← hcopy]
    conv_lhs => rw [← w.setFlash_self p.device.deviceId]
    refine foldl_hom_of_mem (f := w.setFlash p.device.deviceId) (fun flash range hmem => ?_) _
    simp only [Place.call, hop, World.exec, haddress range hmem, hsize range hmem,
      World.setFlash_flash, World.setFlash_setFlash, ← replicate_eq_slice]

/-- A sync changes nothing. -/
theorem Place.Covers.run {calls : List (Call × Result)} (h : p.Covers ranges calls)
    (hv : cfg.Valid) (hworking : r.operation ≠ .none) (w : World) :
    w.run erased (calls.map Prod.fst) = p.oneShot erased w := by
  obtain ⟨htiles, -, rfl⟩ := h
  rw [← p.run_ranges erased hv hworking htiles w, List.map_append, Place.chunkCalls, List.map_map,
    World.run, List.foldl_append]
  change List.foldl _ (w.run erased (ranges.map p.call)) _ = _
  split <;> rfl

end refinement

/-! ## Successful requests -/

/-- **A request that ended with success did what one operation would.** Its chunks follow
each other over its range, each byte in exactly one, with the buffer going along and a
sync behind them if there is one; a request of length zero does nothing at all. -/
theorem success_refines {cfg : Cfg} {driverInit : DeviceCfg → Result} {s : System}
    (h : (falSystem cfg driverInit).Reachable s) {a : Active} (hdone : (a, .success) ∈ s.done) :
    (a.request.length = 0 ∧ a.calls = []) ∨
      ∃ p : Place cfg a.request, ∃ ranges, p.Covers ranges a.calls ∧
        (∀ i, p.start ≤ i → i < p.stop → covering ranges i = 1) ∧
        ∀ erased w, World.run erased w (a.calls.map Prod.fst) = p.oneShot erased w := by
  have hv := reachable_valid h
  cases (reachable_inv h).done _ hdone rfl with
  | empty length_eq calls_eq => exact Or.inl ⟨length_eq, calls_eq⟩
  | covered working p ranges covers =>
    refine Or.inr ⟨p, ranges, covers, fun i hfrom hto => ?_, fun erased w => ?_⟩
    · exact covering_eq_one covers.1 hfrom hto
    · exact covers.run erased hv working w

/-- The read of the second zone has ended: one chunk, and the sync. -/
def readSecond : System :=
  ((readingSecond.act (.process .ready .success)).act (.process .ready .success)).act
    (.process .ready .success)

theorem readSecond_reachable : (falSystem twoZones fun _ => .success).Reachable readSecond :=
  .step (.step (.step readingSecond_reachable ⟨_, rfl⟩) ⟨_, rfl⟩) ⟨_, rfl⟩

theorem success_refines_demo :
    ∃ p : Place twoZones ⟨.read, 2, 4, 20, some 0⟩, ∃ ranges,
      p.Covers ranges [(.read 1 36 20 (some 0), .success), (.sync 1, .success)] ∧
        (∀ i, p.start ≤ i → i < p.stop → covering ranges i = 1) ∧
        ∀ erased w, World.run erased w [.read 1 36 20 (some 0), .sync 1] = p.oneShot erased w :=
  (success_refines readSecond_reachable
    (a := ⟨⟨.read, 2, 4, 20, some 0⟩, [(.read 1 36 20 (some 0), .success), (.sync 1, .success)]⟩)
    (by decide)).resolve_left (by simp)

/-- A request of length zero ends with success, and the device is not synced. -/
theorem empty_request_not_synced :
    ¬ ∀ (cfg : Cfg) (driverInit : DeviceCfg → Result) (s : System) (a : Active),
      (falSystem cfg driverInit).Reachable s → (a, Result.success) ∈ s.done →
        ∃ p : Place cfg a.request, ∃ ranges, p.Covers ranges a.calls := by
  intro h
  let s := (System.mk (init (some twoZones) fun _ => .success).1 none []).act (.erase 1 0 0)
  have hreach : (falSystem twoZones fun _ => .success).Reachable s :=
    .step (.start ⟨by decide, rfl⟩) ⟨.erase 1 0 0, rfl⟩
  obtain ⟨p, ranges, -, -, hcalls⟩ := h _ _ s ⟨⟨.erase, 1, 0, 0, none⟩, []⟩ hreach (by decide)
  obtain hdevice := List.mem_singleton.mp p.zone_at.device_mem
  rw [if_pos (by rw [hdevice])] at hcalls
  exact absurd hcalls.symm (List.append_ne_nil_of_right_ne_nil _ (List.cons_ne_nil _ _))

end Atoman.FalCore
