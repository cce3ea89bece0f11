import Atoman.FalCore.Requests

/-!
# A request on its way

An accepted request works through its range from the start to the stop address. In
each phase the chunks issued so far tile the range up to the end of the last one; one
process step keeps that, or finishes the request.
-/

namespace Atoman.FalCore
open Lib

variable {cfg : Cfg} {r : Request}

/-! ## Where a request works -/

namespace Place
variable (p : Place cfg r)

/-- What a driver call may do for the request. -/
def Allows : Call → Prop
  | .read device address length _ =>
    r.operation = .read ∧ p.zone.permissions &&& permissionRead ≠ 0 ∧ device = p.device.deviceId ∧
      p.base ≤ address.toNat ∧ address.toNat + length.toNat ≤ p.base + p.zone.size.toNat ∧
      (p.device.maxReadSize = 0 ∨ length ≤ p.device.maxReadSize)
  | .program device address length _ =>
    r.operation = .write ∧ p.zone.permissions &&& permissionWrite ≠ 0 ∧
      device = p.device.deviceId ∧
      p.base ≤ address.toNat ∧ address.toNat + length.toNat ≤ p.base + p.zone.size.toNat ∧
      (p.device.programUnitSize ≠ 0 → p.device.programUnitSize.toNat ∣ address.toNat) ∧
      address.toNat % p.device.programPageSize.toNat + length.toNat ≤
        p.device.programPageSize.toNat
  | .erase device address length =>
    r.operation = .erase ∧ p.zone.permissions &&& permissionErase ≠ 0 ∧
      device = p.device.deviceId ∧
      p.base ≤ address.toNat ∧ address.toNat + length.toNat ≤ p.base + p.zone.size.toNat ∧
      length = p.device.eraseBlockSize ∧ p.device.eraseBlockSize.toNat ∣ address.toNat
  | .sync device => device = p.device.deviceId

variable {p} (hv : cfg.Valid)
include hv

theorem block_pos : 0 < p.block := (hv.device_ok p.device p.zone_at.device_mem).block_pos

theorem zone_ok : ZoneOk p.device p.before p.zone := hv.zone_ok _ _ _ p.zone_at

omit hv in
theorem base_le_start : p.base ≤ p.start := Nat.le_add_right _ _

theorem start_lt_stop (hlen : 0 < r.length.toNat) : p.start < p.stop := by
  refine Nat.add_lt_add_left ?_ _
  split
  · refine Nat.lt_of_le_of_lt (Nat.div_mul_le_self _ _) (Nat.lt_of_lt_of_le ?_
      (le_roundUp (block_pos hv)))
    omega
  · omega

/-- The range lies in the zone. -/
theorem stop_le : p.stop ≤ p.base + p.zone.size.toNat := by
  refine Nat.add_le_add_left ?_ _
  split
  · exact roundUp_le (block_pos hv) (zone_ok hv).size_block p.fits
  · exact p.fits

/-- No address of the range wraps. -/
theorem stop_lt : p.stop < 2 ^ 32 :=
  Nat.lt_of_le_of_lt (Nat.le_trans (stop_le hv) (zone_ok hv).fits) p.device.capacity.toNat_lt

theorem aligned_start : p.Aligned p.start := by
  unfold Aligned
  split
  · next hop =>
    intro hunit
    have := p.unit_start hop hunit
    rwa [start, hop, if_neg (by decide)]
  · next hop =>
    rw [start, hop, if_pos rfl]
    exact (Nat.dvd_add_right (zone_ok hv).start_block).mpr (Nat.dvd_mul_left _ _)
  · trivial

/-- An erase stops at a whole block. -/
theorem block_dvd_stop (hop : r.operation = .erase) : p.block ∣ p.stop := by
  rw [stop, if_pos hop]
  exact (Nat.dvd_add_right (zone_ok hv).start_block).mpr (Nat.dvd_mul_left _ _)

/-- **A chunk of the range is a call that may be made.** -/
theorem allows_call (hop : r.operation ≠ .none) {range : ℕ × ℕ} (hstart : p.start ≤ range.1)
    (hstop : range.1 + range.2 ≤ p.stop) (hok : p.ChunkOk range) : p.Allows (p.call range) := by
  have hlt := stop_lt (p := p) hv
  have hbase := base_le_start (p := p)
  have hzone := stop_le (p := p) hv
  have haddress : (UInt32.ofNat range.1).toNat = range.1 := by
    rw [UInt32.toNat_ofNat']; omega
  have hlength : (UInt32.ofNat range.2).toNat = range.2 := by
    rw [UInt32.toNat_ofNat']; omega
  have hpermitted := p.permitted
  unfold ChunkOk at hok
  unfold call
  cases hoperation : r.operation <;> rw [hoperation] at hpermitted hok
    <;> dsimp only [Allows] at hok ⊢
  case none => exact absurd hoperation hop
  all_goals
    refine ⟨hoperation, hpermitted, rfl, ?_⟩
    rw [haddress, hlength]
    refine ⟨by omega, by omega, ?_⟩
  case read =>
    refine hok.imp_right fun h => ?_
    rw [UInt32.le_iff_toNat_le, hlength]
    exact h
  case write => exact hok
  case erase =>
    refine ⟨?_, hok.1⟩
    apply UInt32.toNat_inj.mp
    rw [hlength, hok.2]
    rfl

end Place

/-! ## Phases -/

/-- The buffer the request goes on with. -/
def Fal.data (f : Fal) : Pointer :=
  match f.operation with
  | .read => f.readData
  | .write => f.writeData
  | _ => none

/-- How far a request has come: `ranges` are its chunks, the one in flight included. -/
structure Flight (f : Fal) (p : Place cfg r) (ranges : List (ℕ × ℕ)) : Prop where
  operation_eq : f.operation = r.operation
  working : r.operation ≠ .none
  device_eq : f.activeDeviceId = p.device.deviceId
  resumes : f.operationState ≠ .waitDevice
  start_le : p.start ≤ f.physicalAddress.toNat
  total : f.physicalAddress.toNat + f.remaining.toNat = p.stop
  chunk_le : f.chunkLength.toNat ≤ f.remaining.toNat
  tiles : Tiles p.start ranges (f.physicalAddress.toNat + f.chunkLength.toNat)
  chunk_pos : ∀ range ∈ ranges, 0 < range.2
  aligned : f.physicalAddress.toNat + f.chunkLength.toNat < p.stop →
    p.Aligned (f.physicalAddress.toNat + f.chunkLength.toNat)
  data_eq : r.operation ≠ .erase →
    f.data = r.data.map (· + (f.physicalAddress.toNat - p.start))

/-- The calls for some chunks, each successful. -/
def Place.chunkCalls (p : Place cfg r) (ranges : List (ℕ × ℕ)) : List (Call × Result) :=
  ranges.map fun range => (p.call range, .success)

/-- The phases of a request: a chunk is to be issued, is in flight, or all are done and
the device is syncing. -/
inductive Phase (f : Fal) (p : Place cfg r) (ranges : List (ℕ × ℕ)) (calls : List (Call × Result)) :
    Prop
  | ready (state_eq : f.state = f.operationState) (chunk_eq : f.chunkLength = 0)
      (more : f.remaining ≠ 0) (synced : f.syncIssued = false)
        (calls_eq : calls = p.chunkCalls ranges)
  | waiting (state_eq : f.state = .waitDevice) (chunk_ne : f.chunkLength ≠ 0)
      (synced : f.syncIssued = false) (calls_eq : calls = p.chunkCalls ranges)
  | syncing (state_eq : f.state = .waitDevice) (chunk_eq : f.chunkLength = 0)
      (finished : f.remaining = 0) (synced : f.syncIssued = true) (sync : p.device.ops.sync)
      (calls_eq : calls = p.chunkCalls ranges ++ [(Call.sync p.device.deviceId, Result.success)])

/-- **What a request did that ended with success**: its chunks follow each other over
the whole range, each answered with success, and then the device is synced, if it
can be. -/
def Place.Covers (p : Place cfg r) (ranges : List (ℕ × ℕ)) (calls : List (Call × Result)) : Prop :=
  Tiles p.start ranges p.stop ∧ (∀ range ∈ ranges, 0 < range.2) ∧
    calls = p.chunkCalls ranges ++
      if p.device.ops.sync then [(Call.sync p.device.deviceId, Result.success)] else []

theorem Place.chunkCalls_append (p : Place cfg r) (ranges : List (ℕ × ℕ)) (range : ℕ × ℕ) :
    p.chunkCalls (ranges ++ [range]) = p.chunkCalls ranges ++ [(p.call range, Result.success)] := by
  simp [chunkCalls]

/-! ## Issuing a chunk -/

section issue
variable {f : Fal} {p : Place cfg r} {ranges : List (ℕ × ℕ)}

/-- A program chunk ends with its page, or with the request. -/
theorem writeChunkGet_spec (f : Fal) {device : DeviceCfg}
    (hpage : 0 < device.programPageSize.toNat) (hpos : 0 < f.remaining.toNat) :
    (f.writeChunkGet device).toNat ≤ f.remaining.toNat ∧ 0 < (f.writeChunkGet device).toNat ∧
      f.physicalAddress.toNat % device.programPageSize.toNat + (f.writeChunkGet device).toNat ≤
        device.programPageSize.toNat ∧
      ((f.writeChunkGet device).toNat < f.remaining.toNat →
        device.programPageSize.toNat ∣ f.physicalAddress.toNat +
          (f.writeChunkGet device).toNat) := by
  have hlt := Nat.mod_lt f.physicalAddress.toNat hpage
  have hmod := UInt32.toNat_mod f.physicalAddress device.programPageSize
  have havailable : (device.programPageSize - f.physicalAddress % device.programPageSize).toNat =
      device.programPageSize.toNat - f.physicalAddress.toNat % device.programPageSize.toNat := by
    rw [UInt32.toNat_sub_of_le _ _ (UInt32.le_iff_toNat_le.mpr (by omega)), hmod]
  rw [Fal.writeChunkGet]
  split
  · next hsmall =>
    have := UInt32.lt_iff_toNat_lt.mp hsmall
    exact ⟨Nat.le_refl _, hpos, by omega, fun h => absurd h (Nat.lt_irrefl _)⟩
  · next hlarge =>
    have := UInt32.le_iff_toNat_le.mp (UInt32.not_lt.mp hlarge)
    refine ⟨this, by omega, by omega, fun _ => ?_⟩
    rw [havailable]
    have hdiv := Nat.div_add_mod' f.physicalAddress.toNat device.programPageSize.toNat
    refine ⟨f.physicalAddress.toNat / device.programPageSize.toNat + 1, ?_⟩
    rw [Nat.mul_add, Nat.mul_one, Nat.mul_comm]
    omega

/-- **The next chunk** lies in what remains, and respects the geometry of the device. -/
theorem Flight.nextCall (h : Flight f p ranges) (hv : cfg.Valid) (hchunk : f.chunkLength = 0)
    (hmore : f.remaining ≠ 0) : ∃ chunk : UInt32,
      f.nextCall p.device = some (chunk, p.call (f.physicalAddress.toNat, chunk.toNat)) ∧
      0 < chunk.toNat ∧ chunk.toNat ≤ f.remaining.toNat ∧
      p.ChunkOk (f.physicalAddress.toNat, chunk.toNat) ∧
      (f.physicalAddress.toNat + chunk.toNat < p.stop →
        p.Aligned (f.physicalAddress.toNat + chunk.toNat)) := by
  have hpos := toNat_pos_of_ne_zero hmore
  have hok := hv.device_ok p.device p.zone_at.device_mem
  have hdata := h.data_eq
  have haligned := h.aligned
  have htotal := h.total
  have haddress : UInt32.ofNat f.physicalAddress.toNat = f.physicalAddress := UInt32.ofNat_toNat
  rw [hchunk, UInt32.toNat_zero, Nat.add_zero] at haligned
  have haligned := haligned (by omega)
  cases hop : r.operation with
  | none => exact absurd hop h.working
  | read =>
    refine ⟨f.readChunkGet p.device, ?_, ?_⟩
    · have hread : f.readData = r.data.map (· + (f.physicalAddress.toNat - p.start)) := by
        have := hdata (by rw [hop]; decide)
        rwa [Fal.data, h.operation_eq, hop] at this
      simp only [Fal.nextCall, h.operation_eq, hop, Place.call, haddress, UInt32.ofNat_toNat, hread]
    · simp only [Place.ChunkOk, Place.Aligned, hop]
      unfold Fal.readChunkGet
      split
      · next hmax =>
        have hmax' := toNat_pos_of_ne_zero hmax.1
        have hlt := UInt32.lt_iff_toNat_lt.mp hmax.2
        exact ⟨hmax', Nat.le_of_lt hlt, Or.inr (Nat.le_refl _), fun _ => trivial⟩
      · next hmax =>
        refine ⟨hpos, Nat.le_refl _, ?_, fun _ => trivial⟩
        by_cases hzero : p.device.maxReadSize = 0
        · exact Or.inl hzero
        · exact Or.inr (UInt32.le_iff_toNat_le.mp (UInt32.not_lt.mp fun hlt => hmax ⟨hzero, hlt⟩))
  | write =>
    have hwrite : f.writeData = r.data.map (· + (f.physicalAddress.toNat - p.start)) := by
      have := hdata (by rw [hop]; decide)
      rwa [Fal.data, h.operation_eq, hop] at this
    obtain ⟨hle, hlt, hin, hnext⟩ := writeChunkGet_spec f hok.page_pos hpos
    simp only [Place.Aligned, hop] at haligned
    refine ⟨f.writeChunkGet p.device, ?_, hlt, hle, ?_, fun hmore => ?_⟩
    · simp only [Fal.nextCall, h.operation_eq, hop, Place.call, haddress,
        UInt32.ofNat_toNat, hwrite]
    · simp only [Place.ChunkOk, hop]
      exact ⟨haligned, hin⟩
    · simp only [Place.Aligned, hop]
      exact fun hunit => Nat.dvd_trans (hok.unit_page hunit) (hnext (by omega))
  | erase =>
    have hstop := p.block_dvd_stop hv hop
    simp only [Place.Aligned, hop] at haligned
    have hle : p.block ≤ f.remaining.toNat := by
      refine Nat.le_of_dvd hpos ((Nat.dvd_add_right haligned).mp ?_)
      rwa [htotal]
    refine ⟨p.device.eraseBlockSize, ?_, hok.block_pos, hle, ?_, fun _ => ?_⟩
    · simp only [Fal.nextCall, h.operation_eq, hop, Place.call, haddress, UInt32.ofNat_toNat]
    · simp only [Place.ChunkOk, hop]
      exact ⟨haligned, rfl⟩
    · simp only [Place.Aligned, hop]
      exact Nat.dvd_add haligned (Nat.dvd_refl _)

end issue

/-! ## One step of the state machine -/

section step
variable {f f' : Fal} {p : Place cfg r} {ranges : List (ℕ × ℕ)} {calls : List (Call × Result)}

/-- What a step leaves: the request goes on, or it has ended. -/
inductive Outcome (f : Fal) (p : Place cfg r) (calls : List (Call × Result)) : Prop
  | going (busy : f.operation ≠ .none) (ranges : List (ℕ × ℕ)) (flight : Flight f p ranges)
      (phase : Phase f p ranges calls)
  | ended (idle : f.operation = .none)
      (covers : f.result = .success → ∃ ranges, p.Covers ranges calls)

theorem Outcome.failed {result : Result} (h : result ≠ .success) :
    Outcome (f.operationFinish result) p calls :=
  .ended rfl fun hsuccess => absurd hsuccess h

theorem Flight.busy (h : Flight f p ranges) : f.operation ≠ .none := by
  rw [h.operation_eq]; exact h.working

/-- **Issuing.** -/
theorem Flight.operationIssue (h : Flight f p ranges) (hv : cfg.Valid)
    (hchunk : f.chunkLength = 0) (hmore : f.remaining ≠ 0) (hsynced : f.syncIssued = false)
    (answer : Result) :
    Outcome (f.operationIssue p.device answer).1 p
        (p.chunkCalls ranges ++ (f.operationIssue p.device answer).2.map fun c => (c, answer)) ∧
      ∀ c ∈ (f.operationIssue p.device answer).2, p.Allows c := by
  obtain ⟨chunk, hnext, hpos, hle, hok, haligned⟩ := h.nextCall hv hchunk hmore
  have htotal := h.total
  have hallowed : p.Allows (p.call (f.physicalAddress.toNat, chunk.toNat)) :=
    p.allows_call hv h.working h.start_le (show _ + _ ≤ _ by omega) hok
  simp only [Fal.operationIssue, hnext]
  split
  · next hanswer =>
    subst hanswer
    have htiles := h.tiles
    rw [hchunk, UInt32.toNat_zero, Nat.add_zero] at htiles
    have hflight : Flight { f with chunkLength := chunk, state := .waitDevice } p
        (ranges ++ [(f.physicalAddress.toNat, chunk.toNat)]) := {
      h with
      chunk_le := hle
      tiles := htiles.append
      chunk_pos := by
        intro range hmem
        rcases List.mem_append.mp hmem with hmem | hmem
        · exact h.chunk_pos range hmem
        · rw [List.mem_singleton.mp hmem]; exact hpos
      aligned := haligned }
    refine ⟨.going h.busy _ hflight (.waiting rfl (fun hzero => ?_) hsynced ?_),
      by simpa using hallowed⟩
    · exact absurd hpos (by rw [show chunk = 0 from hzero]; decide)
    · exact (p.chunkCalls_append _ _).symm
  · exact ⟨.failed (by decide), by simpa using hallowed⟩

/-- The data pointer moves with the address. -/
theorem Fal.completedChunkCommit_data (f : Fal) (hop : f.operation ≠ .erase)
    (hworking : f.operation ≠ .none) :
    f.completedChunkCommit.data = f.data.map (· + f.chunkLength.toNat) := by
  unfold Fal.data Fal.completedChunkCommit
  cases hoperation : f.operation with
  | none => exact absurd hoperation hworking
  | erase => exact absurd hoperation hop
  | read => rfl
  | write => rfl

/-- **Committing the chunk in flight.** -/
theorem Flight.completedChunkCommit (h : Flight f p ranges) (hv : cfg.Valid) :
    Flight f.completedChunkCommit p ranges ∧
      f.completedChunkCommit.physicalAddress.toNat =
        f.physicalAddress.toNat + f.chunkLength.toNat := by
  have htotal := h.total
  have hchunk := h.chunk_le
  have hstart := h.start_le
  have hlt := p.stop_lt hv
  have haddress : f.completedChunkCommit.physicalAddress.toNat =
      f.physicalAddress.toNat + f.chunkLength.toNat := by
    rw [Fal.completedChunkCommit, UInt32.toNat_add]; omega
  have hremaining : f.completedChunkCommit.remaining.toNat =
      f.remaining.toNat - f.chunkLength.toNat :=
    UInt32.toNat_sub_of_le _ _ (UInt32.le_iff_toNat_le.mpr hchunk)
  have hzero : f.completedChunkCommit.chunkLength.toNat = 0 := rfl
  refine ⟨{
    operation_eq := h.operation_eq
    working := h.working
    device_eq := h.device_eq
    resumes := h.resumes
    start_le := by omega
    total := by omega
    chunk_le := by omega
    tiles := by rw [hzero, haddress]; exact h.tiles
    chunk_pos := h.chunk_pos
    aligned := by rw [hzero, haddress]; exact h.aligned
    data_eq := fun hop => ?_ }, haddress⟩
  rw [Fal.completedChunkCommit_data f (by rwa [h.operation_eq]) h.busy, h.data_eq hop, haddress,
    Option.map_map]
  congr 1
  funext a
  simp only [Function.comp_apply]
  omega

/-- **After the last chunk** the device is synced, or the request has ended. -/
theorem Flight.operationCompleteOrSync (h : Flight f p ranges) (hchunk : f.chunkLength = 0)
    (hdone : f.remaining = 0) (hsynced : f.syncIssued = false) (answer : Result) :
    Outcome (f.operationCompleteOrSync p.device answer).1 p (p.chunkCalls ranges ++
        (f.operationCompleteOrSync p.device answer).2.map fun c => (c, answer)) ∧
      ∀ c ∈ (f.operationCompleteOrSync p.device answer).2, p.Allows c := by
  have htiles : Tiles p.start ranges p.stop := by
    have := h.tiles
    rwa [← h.total, hdone, ← hchunk]
  unfold Fal.operationCompleteOrSync
  split
  · next hsync =>
    split
    · exact ⟨.failed (by decide), by simp [Place.Allows]⟩
    · next hanswer =>
      rw [Decidable.not_not] at hanswer
      subst hanswer
      have hflight : Flight { f with syncIssued := true, chunkLength := 0, state := .waitDevice } p
          ranges := by
        rw [← hchunk]
        exact { h with }
      exact ⟨.going h.busy _ hflight (.syncing rfl rfl hdone rfl hsync.1 rfl),
        by simp [Place.Allows]⟩
  · next hsync =>
    have hnone : ¬ p.device.ops.sync := fun hs => hsync ⟨hs, by rw [hsynced]; decide⟩
    refine ⟨.ended rfl fun _ => ⟨ranges, htiles, h.chunk_pos, ?_⟩, by simp⟩
    rw [if_neg hnone]
    rfl

/-- **A step of the device** keeps a request on its way, or ends it. -/
theorem Flight.deviceProcess (h : Flight f p ranges) (hphase : Phase f p ranges calls)
    (hv : cfg.Valid) (deviceState : DeviceState) (answer : Result) :
    Outcome (f.deviceProcess p.device deviceState answer).1 p
        (calls ++ (f.deviceProcess p.device deviceState answer).2.map fun c => (c, answer)) ∧
      ∀ c ∈ (f.deviceProcess p.device deviceState answer).2, p.Allows c := by
  have hgoing : Outcome f p (calls ++ ([] : List Call).map fun c => (c, answer)) := by
    refine .going h.busy ranges h ?_
    rwa [List.map_nil, List.append_nil]
  unfold Fal.deviceProcess
  split
  · exact ⟨.failed (by decide), by simp⟩
  · cases hphase with
    | ready state_eq chunk_eq more synced calls_eq =>
      rw [if_neg (by rw [state_eq]; exact h.resumes)]
      split
      · exact ⟨hgoing, by simp⟩
      · rw [calls_eq]
        exact h.operationIssue hv chunk_eq more synced answer
    | waiting state_eq chunk_ne synced calls_eq =>
      rw [if_pos state_eq]
      split
      · exact ⟨hgoing, by simp⟩
      · obtain ⟨hcommit, -⟩ := h.completedChunkCommit hv
        dsimp only
        split
        · next hdone =>
          rw [calls_eq]
          exact hcommit.operationCompleteOrSync rfl hdone synced answer
        · next hmore =>
          refine ⟨.going h.busy ranges { hcommit with } ?_, by simp⟩
          exact .ready rfl rfl hmore synced (by simpa using calls_eq)
    | syncing state_eq chunk_eq finished synced sync calls_eq =>
      rw [if_pos state_eq]
      split
      · exact ⟨hgoing, by simp⟩
      · rw [if_neg (by rw [chunk_eq]; simp)]
        refine ⟨.ended rfl fun _ => ⟨ranges, ?_, h.chunk_pos, ?_⟩, by simp⟩
        · have := h.tiles
          rwa [← h.total, finished, ← chunk_eq]
        · rw [List.map_nil, List.append_nil, calls_eq, if_pos sync]

end step

/-- The stop flag does not matter to a request. -/
theorem Flight.stop {f : Fal} {p : Place cfg r} {ranges : List (ℕ × ℕ)}
    {calls : List (Call × Result)} (h : Flight f p ranges) (hphase : Phase f p ranges calls) :
    Flight { f with stopRequested := true } p ranges ∧
      Phase { f with stopRequested := true } p ranges calls := by
  refine ⟨{ h with }, ?_⟩
  cases hphase with
  | ready state_eq chunk_eq more synced calls_eq =>
    exact .ready state_eq chunk_eq more synced calls_eq
  | waiting state_eq chunk_ne synced calls_eq =>
    exact .waiting state_eq chunk_ne synced calls_eq
  | syncing state_eq chunk_eq finished synced sync calls_eq =>
    exact .syncing state_eq chunk_eq finished synced sync calls_eq

end Atoman.FalCore
