import Atoman.FalCore.Safety
import Mathlib.Data.Prod.Lex

/-!
# Requests finish

A request takes two process calls for each of its chunks, one that issues it and one
that commits it, and one more for the sync. The number of chunks follows from the range
and the geometry of the device; no geometry of an accepted configuration makes an empty
chunk. A busy device costs calls without effect, and nothing else.

## Main definitions

* `Place.chunks` — the chunks of a request, counted from the geometry.
* `stepsLeft` — the process calls a request still takes on a device that is not busy.
* `rank` — the remaining bytes and the phase.
* `requests_finish` — a request is done after exactly these calls, with success.
-/

namespace Atoman.FalCore
open Lib

variable {cfg : Cfg} {r : Request}

/-! ## Counting chunks -/

namespace Place
variable (p : Place cfg r)

/-- The chunks from an address to the end of the range. -/
def chunksFrom (address : ℕ) : ℕ :=
  if p.stop ≤ address then 0
  else
    match r.operation with
    | .read =>
      if p.device.maxReadSize = 0 then 1
      else (p.stop - address + (p.device.maxReadSize.toNat - 1)) / p.device.maxReadSize.toNat
    | .write =>
      (p.stop - 1) / p.device.programPageSize.toNat - address / p.device.programPageSize.toNat + 1
    | _ => (p.stop - address) / p.block

/-- The chunks of the request. -/
def chunks : ℕ := p.chunksFrom p.start

/-- The sync call, if the device has one. -/
def syncs : ℕ := if p.device.ops.sync then 1 else 0

end Place

/-- The length the next chunk gets. -/
def Fal.nextLength (f : Fal) (device : DeviceCfg) : UInt32 :=
  match f.operation with
  | .read => f.readChunkGet device
  | .write => f.writeChunkGet device
  | _ => device.eraseBlockSize

theorem nextCall_length {f : Fal} {device : DeviceCfg} {chunk : UInt32} {call : Call}
    (h : f.nextCall device = some (chunk, call)) : chunk = f.nextLength device := by
  unfold Fal.nextCall at h
  unfold Fal.nextLength
  cases hop : f.operation <;> simp only [hop, reduceCtorEq, Option.some.injEq, Prod.mk.injEq] at h ⊢
  all_goals exact h.1.symm

section count
variable {f : Fal} {p : Place cfg r} {ranges : List (ℕ × ℕ)}

/-- A chunk of full length leaves one chunk less. -/
theorem ceil_sub {left max : ℕ} (hmax : 0 < max) (h : max < left) :
    (left + (max - 1)) / max = (left - max + (max - 1)) / max + 1 := by
  have hsum : left + (max - 1) = left - max + (max - 1) + max := by omega
  rw [hsum, Nat.add_div_right _ hmax]

/-- **The next chunk is one of those counted.** -/
theorem Flight.chunksFrom (h : Flight f p ranges) (hv : cfg.Valid) (hchunk : f.chunkLength = 0)
    (hmore : f.remaining ≠ 0) :
    p.chunksFrom f.physicalAddress.toNat =
      p.chunksFrom (f.physicalAddress.toNat + (f.nextLength p.device).toNat) + 1 := by
  have hok := hv.device_ok p.device p.zone_at.device_mem
  have hpos := toNat_pos_of_ne_zero hmore
  have htotal := h.total
  obtain ⟨chunk, hnext, hcpos, hcle, -, -⟩ := h.nextCall hv hchunk hmore
  rw [nextCall_length hnext] at hcpos hcle
  have hleft : ¬ p.stop ≤ f.physicalAddress.toNat := by omega
  simp only [Place.chunksFrom, hleft, if_false]
  cases hop : r.operation with
  | none => exact absurd hop h.working
  | read =>
    have hlength : f.nextLength p.device = f.readChunkGet p.device := by
      simp only [Fal.nextLength, h.operation_eq, hop]
    rw [hlength]
    dsimp only
    by_cases hmax : p.device.maxReadSize ≠ 0 ∧ p.device.maxReadSize < f.remaining
    · have hmax' := toNat_pos_of_ne_zero hmax.1
      have hlt := UInt32.lt_iff_toNat_lt.mp hmax.2
      have hstop : ¬ p.stop ≤ f.physicalAddress.toNat + p.device.maxReadSize.toNat := by omega
      have hsub : p.stop - (f.physicalAddress.toNat + p.device.maxReadSize.toNat) =
          p.stop - f.physicalAddress.toNat - p.device.maxReadSize.toNat := by omega
      rw [Fal.readChunkGet, if_pos hmax, if_neg hmax.1, if_neg hstop, if_neg hmax.1, hsub]
      exact ceil_sub hmax' (by omega)
    · have hstop : p.stop ≤ f.physicalAddress.toNat + f.remaining.toNat := by omega
      rw [Fal.readChunkGet, if_neg hmax, if_pos hstop]
      by_cases hzero : p.device.maxReadSize = 0
      · rw [if_pos hzero]
      · have hmax' := toNat_pos_of_ne_zero hzero
        have hle : f.remaining.toNat ≤ p.device.maxReadSize.toNat :=
          UInt32.le_iff_toNat_le.mp (UInt32.not_lt.mp fun hlt => hmax ⟨hzero, hlt⟩)
        rw [if_neg hzero, Nat.zero_add, Nat.div_eq_iff hmax']
        omega
  | write =>
    have hlength : f.nextLength p.device = f.writeChunkGet p.device := by
      simp only [Fal.nextLength, h.operation_eq, hop]
    obtain ⟨hle, hlt, hin, hnext⟩ := writeChunkGet_spec f hok.page_pos hpos
    rw [hlength]
    dsimp only
    have hpage := hok.page_pos
    have haddress := Nat.div_add_mod' f.physicalAddress.toNat p.device.programPageSize.toNat
    rcases Nat.lt_or_ge (f.writeChunkGet p.device).toNat f.remaining.toNat with hless | hlast
    · have hend : (f.physicalAddress.toNat + (f.writeChunkGet p.device).toNat) /
          p.device.programPageSize.toNat =
            f.physicalAddress.toNat / p.device.programPageSize.toNat + 1 := by
        obtain ⟨k, hk⟩ := hnext hless
        have hquotient : f.physicalAddress.toNat / p.device.programPageSize.toNat < k := by
          refine Nat.lt_of_mul_lt_mul_right (a := p.device.programPageSize.toNat) ?_
          rw [Nat.mul_comm k]
          omega
        have hnext := Nat.mul_le_mul_right p.device.programPageSize.toNat hquotient
        rw [Nat.succ_mul, Nat.mul_comm k] at hnext
        rw [Nat.div_eq_iff hpage, Nat.add_mul, Nat.one_mul]
        omega
      have hmono : (f.physicalAddress.toNat + (f.writeChunkGet p.device).toNat) /
          p.device.programPageSize.toNat ≤ (p.stop - 1) / p.device.programPageSize.toNat :=
        Nat.div_le_div_right (by omega)
      rw [if_neg (by omega)]
      omega
    · have hend : (p.stop - 1) / p.device.programPageSize.toNat =
          f.physicalAddress.toNat / p.device.programPageSize.toNat := by
        rw [Nat.div_eq_iff hpage]
        omega
      rw [if_pos (by omega), hend, Nat.sub_self]
  | erase =>
    have hlength : (f.nextLength p.device).toNat = p.block := by
      simp only [Fal.nextLength, h.operation_eq, hop, Place.block]
    rw [hlength] at hcle hcpos ⊢
    dsimp only
    have hdiv := Nat.div_eq_sub_div hcpos (show p.block ≤ p.stop - f.physicalAddress.toNat by omega)
    have hsub : p.stop - (f.physicalAddress.toNat + p.block) =
        p.stop - f.physicalAddress.toNat - p.block := by omega
    rw [hsub, hdiv]
    split
    · next hend =>
      have hzero : p.stop - f.physicalAddress.toNat - p.block = 0 := by omega
      rw [hzero, Nat.zero_div]
    · rfl

end count

/-! ## What is left -/

/-- The driver calls that are still to come. -/
def Place.issuesLeft (p : Place cfg r) (f : Fal) : ℕ :=
  if f.syncIssued then 0
  else p.chunksFrom (f.physicalAddress.toNat + f.chunkLength.toNat) + p.syncs

/-- The process calls a request still takes on a device that is not busy. -/
def Place.stepsLeft (p : Place cfg r) (f : Fal) : ℕ :=
  if f.syncIssued then 1
  else 2 * p.chunksFrom (f.physicalAddress.toNat + f.chunkLength.toNat) + p.syncs +
    if f.state = .waitDevice then 1 else 0

/-- The phases of a request, counted down. -/
def Fal.phaseRank (f : Fal) : ℕ :=
  if f.operation = .none then 0 else if f.state = .waitDevice then 1 else 2

/-- The remaining bytes and the phase. -/
def Fal.rank (f : Fal) : ℕ ×ₗ ℕ := toLex (f.remaining.toNat, f.phaseRank)

section work
variable {f : Fal} {p : Place cfg r} {ranges : List (ℕ × ℕ)} {calls : List (Call × Result)}

theorem Place.chunksFrom_stop (p : Place cfg r) : p.chunksFrom p.stop = 0 :=
  if_pos (Nat.le_refl _)

/-- Issuing on a device that takes the chunk. -/
theorem Flight.ready_process (h : Flight f p ranges) (hv : cfg.Valid)
    (hstate : f.state = f.operationState)
    (hchunk : f.chunkLength = 0) (hmore : f.remaining ≠ 0) :
    ∃ call, f.deviceProcess p.device .ready .success =
      ({ f with chunkLength := f.nextLength p.device, state := .waitDevice }, [call]) := by
  obtain ⟨chunk, hnext, -⟩ := h.nextCall hv hchunk hmore
  have hwait : ¬ f.state = .waitDevice := by rw [hstate]; exact h.resumes
  refine ⟨p.call (f.physicalAddress.toNat, chunk.toNat), ?_⟩
  rw [← nextCall_length hnext]
  simp [Fal.deviceProcess, Fal.operationIssue, hwait, hnext]

/-- The chunk in flight is done: the next one is to be issued, or the device is to be
synced. -/
theorem Flight.waiting_process (hstate : f.state = .waitDevice) (hchunk : f.chunkLength ≠ 0) :
    f.deviceProcess p.device .ready .success =
      if f.completedChunkCommit.remaining = 0 then
        f.completedChunkCommit.operationCompleteOrSync p.device .success
      else ({ f.completedChunkCommit with state := f.operationState }, []) := by
  simp [Fal.deviceProcess, hstate, hchunk, Fal.completedChunkCommit]

/-- The sync is done. -/
theorem Flight.syncing_process (hstate : f.state = .waitDevice) (hchunk : f.chunkLength = 0)
    (hsynced : f.syncIssued = true) :
    f.deviceProcess p.device .ready .success = (f.operationFinish .success, []) := by
  simp [Fal.deviceProcess, hstate, hchunk, hsynced]

/-- **A call on a device that is not busy** is one of those counted: the last of them
ends the request. -/
theorem Flight.work (h : Flight f p ranges) (hphase : Phase f p ranges calls) (hv : cfg.Valid) :
    ((f.deviceProcess p.device .ready .success).1.operation = .none ∧
      (f.deviceProcess p.device .ready .success).1.result = .success ∧
      p.stepsLeft f = 1 ∧ p.issuesLeft f = (f.deviceProcess p.device .ready .success).2.length) ∨
    ((f.deviceProcess p.device .ready .success).1.operation ≠ .none ∧
      p.stepsLeft f = p.stepsLeft (f.deviceProcess p.device .ready .success).1 + 1 ∧
      p.issuesLeft f = p.issuesLeft (f.deviceProcess p.device .ready .success).1 +
        (f.deviceProcess p.device .ready .success).2.length) := by
  cases hphase with
  | ready state_eq chunk_eq more synced calls_eq =>
    right
    obtain ⟨call, hprocess⟩ := h.ready_process hv state_eq chunk_eq more
    have hcount := h.chunksFrom hv chunk_eq more
    have hwait : ¬ f.state = .waitDevice := by rw [state_eq]; exact h.resumes
    rw [hprocess]
    refine ⟨h.busy, ?_, ?_⟩
    · simp only [Place.stepsLeft, synced, chunk_eq, hwait, UInt32.toNat_zero, Nat.add_zero, hcount,
        if_true, if_false, Bool.false_eq_true]
      omega
    · simp only [Place.issuesLeft, synced, chunk_eq, UInt32.toNat_zero, Nat.add_zero, hcount,
        if_false, Bool.false_eq_true, List.length_singleton]
      omega
  | waiting state_eq chunk_ne synced calls_eq =>
    obtain ⟨hcommit, haddress⟩ := h.completedChunkCommit hv
    have hresumes : ¬ f.operationState = .waitDevice := h.resumes
    have htotal := hcommit.total
    rw [waiting_process state_eq chunk_ne]
    split
    · next hdone =>
      -- All chunks are done; the sync is the only call left, if there is one.
      rw [hdone, haddress, UInt32.toNat_zero, Nat.add_zero] at htotal
      have hsynced : f.completedChunkCommit.syncIssued = false := synced
      unfold Fal.operationCompleteOrSync
      cases hsync : p.device.ops.sync with
      | false =>
        left
        refine ⟨rfl, rfl, ?_, ?_⟩
        · simp [Place.stepsLeft, synced, htotal, p.chunksFrom_stop, Place.syncs, hsync, state_eq]
        · simp [Place.issuesLeft, synced, htotal, p.chunksFrom_stop, Place.syncs, hsync]
      | true =>
        right
        have hbusy : f.completedChunkCommit.operation ≠ .none := h.busy
        refine ⟨by simpa [hsynced] using hbusy, ?_, ?_⟩
        · simp [Place.stepsLeft, synced, hsynced, htotal, p.chunksFrom_stop, Place.syncs, hsync,
            state_eq]
        · simp [Place.issuesLeft, synced, hsynced, htotal, p.chunksFrom_stop, Place.syncs, hsync]
    · right
      have hzero : f.completedChunkCommit.chunkLength.toNat = 0 := rfl
      have hsynced : f.completedChunkCommit.syncIssued = false := synced
      refine ⟨h.busy, ?_, ?_⟩
      · simp [Place.stepsLeft, synced, hsynced, hzero, haddress, state_eq, hresumes]
      · simp [Place.issuesLeft, synced, hsynced, hzero, haddress]
  | syncing state_eq chunk_eq finished synced sync calls_eq =>
    left
    rw [syncing_process state_eq chunk_eq synced]
    exact ⟨rfl, rfl, by simp [Place.stepsLeft, synced], by simp [Place.issuesLeft, synced]⟩

/-- **A call on a device that is not busy** moves on. -/
theorem Flight.rank_lt (h : Flight f p ranges) (hphase : Phase f p ranges calls) (hv : cfg.Valid) :
    (f.deviceProcess p.device .ready .success).1.rank < f.rank := by
  have hbusy := h.busy
  unfold Fal.rank
  rw [Prod.Lex.toLex_lt_toLex]
  cases hphase with
  | ready state_eq chunk_eq more synced calls_eq =>
    obtain ⟨call, hprocess⟩ := h.ready_process hv state_eq chunk_eq more
    have hwait : ¬ f.state = .waitDevice := by rw [state_eq]; exact h.resumes
    right
    rw [hprocess]
    simp [Fal.phaseRank, hbusy, hwait]
  | waiting state_eq chunk_ne synced calls_eq =>
    have hlength := toNat_pos_of_ne_zero chunk_ne
    have hremaining : f.completedChunkCommit.remaining.toNat < f.remaining.toNat := by
      have hchunk := h.chunk_le
      have := UInt32.toNat_sub_of_le _ _ (UInt32.le_iff_toNat_le.mpr hchunk)
      change (f.remaining - f.chunkLength).toNat < _
      omega
    left
    rw [waiting_process state_eq chunk_ne]
    split
    · next hdone =>
      rw [hdone] at hremaining
      have hleft : (f.completedChunkCommit.operationCompleteOrSync p.device .success).1.remaining =
          0 := by
        unfold Fal.operationCompleteOrSync
        split
        · simpa using hdone
        · rfl
      rw [hleft]
      exact hremaining
    · exact hremaining
  | syncing state_eq chunk_eq finished synced sync calls_eq =>
    right
    rw [syncing_process state_eq chunk_eq synced, finished]
    simp [Fal.operationFinish, Fal.phaseRank, hbusy, state_eq]

/-- **A busy device** is left alone. -/
theorem deviceProcess_busy (f : Fal) (device : DeviceCfg) (answer : Result) :
    f.deviceProcess device .busy answer = (f, []) := by
  unfold Fal.deviceProcess
  simp

/-- There is always a step left. -/
theorem Flight.stepsLeft_pos (h : Flight f p ranges) (hphase : Phase f p ranges calls)
    (hv : cfg.Valid) : 0 < p.stepsLeft f := by
  obtain ⟨-, -, hone, -⟩ | ⟨-, hmore, -⟩ := h.work hphase hv
  · omega
  · omega

end work

/-! ## Runs -/

/-- What a driver without errors does: its state is not error, and it takes what it is
given. -/
def Act.Healthy : Act → Prop
  | .process deviceState answer => deviceState ≠ .error ∧ answer = .success
  | _ => True

/-- A process call on a device that is not busy. -/
def Act.works : Act → Bool
  | .process .ready _ => true
  | _ => false

/-- The request is active, with so many steps to go and so many driver calls in all. -/
structure InProgress (p : Place cfg r) (s : System) (steps total : ℕ) : Prop where
  inv : Inv cfg s
  going : ∃ calls ranges, s.active = some ⟨r, calls⟩ ∧ Flight s.fal p ranges ∧
    Phase s.fal p ranges calls ∧ p.stepsLeft s.fal = steps ∧
    calls.length + p.issuesLeft s.fal = total

/-- The request is active, or it is done. -/
inductive Served (p : Place cfg r) (total : ℕ) (s : System) : ℕ → Prop
  | working {steps : ℕ} (h : InProgress p s steps total) : Served p total s steps
  | finished {calls : List (Call × Result)} (length_eq : calls.length = total)
      (mem_done : ((⟨r, calls⟩ : Active), Result.success) ∈ s.done) : Served p total s 0

section run
variable {p : Place cfg r} {s : System} {steps total : ℕ}

/-- What is done stays done. -/
theorem mem_done_act {d : Active × Result} (hd : d ∈ s.done) (a : Act) : d ∈ (s.act a).done := by
  have hsubmitted (r : Request) (out : Fal × Result) : d ∈ (s.submitted r out).done := by
    unfold System.submitted
    split
    · exact hd
    · exact List.mem_append_left _ hd
    · exact hd
  cases a with
  | read zoneId offset length data => exact hsubmitted _ _
  | write zoneId offset length data => exact hsubmitted _ _
  | erase zoneId offset length => exact hsubmitted _ _
  | process deviceState answer =>
    change d ∈ (s.processed answer _).done
    unfold System.processed
    split
    · exact List.mem_append_left _ hd
    · exact hd
  | stop => exact hd

/-- A busy instance refuses other requests. -/
theorem Submitted.refused_of_busy {f : Fal} {r : Request} {out : Fal × Result}
    (h : Submitted cfg f r out) (hbusy : f.operation ≠ .none) :
    ∃ result : Result, result.refuses ∧ out = (f, result) := by
  cases h with
  | refused hrefuses => exact ⟨_, hrefuses, rfl⟩
  | empty idle length_eq => exact absurd idle hbusy
  | begun idle cfg_eq p flight phase => exact absurd idle hbusy

theorem submitted_refused {r : Request} {result : Result} (h : result.refuses) :
    s.submitted r (s.fal, result) = s := by
  cases result <;> first | rfl | exact absurd rfl h.1 | exact absurd rfl h.2

theorem InProgress.submitted (h : InProgress p s steps total) {r' : Request} {out : Fal × Result}
    (hout : Submitted cfg s.fal r' out) : InProgress p (s.submitted r' out) steps total := by
  obtain ⟨calls, ranges, -, hflight, -⟩ := h.going
  obtain ⟨result, hrefuses, rfl⟩ := hout.refused_of_busy hflight.busy
  rwa [submitted_refused hrefuses]

theorem InProgress.stopped (h : InProgress p s steps total) (hv : cfg.Valid) :
    InProgress p (s.act .stop) steps total := by
  obtain ⟨calls, ranges, hactive, hflight, hphase, hsteps, htotal⟩ := h.going
  have hbusy : s.fal.isBusy = true := by simpa [Fal.isBusy] using hflight.busy
  obtain ⟨hflight', hphase'⟩ := hflight.stop hphase
  refine ⟨h.inv.act hv .stop, ?_⟩
  change ∃ calls ranges, s.active = some ⟨r, calls⟩ ∧ Flight s.fal.stopRequest.1 p ranges ∧
    Phase s.fal.stopRequest.1 p ranges calls ∧ p.stepsLeft s.fal.stopRequest.1 = steps ∧
    calls.length + p.issuesLeft s.fal.stopRequest.1 = total
  unfold Fal.stopRequest
  split
  · exact ⟨calls, ranges, hactive, hflight, hphase, hsteps, htotal⟩
  · exact ⟨calls, ranges, hactive, hflight', hphase', hsteps, htotal⟩

theorem InProgress.process (h : InProgress p s steps total) (hv : cfg.Valid)
    (deviceState : DeviceState)
    (answer : Result) :
    s.fal.process deviceState answer = s.fal.deviceProcess p.device deviceState answer := by
  obtain ⟨calls, ranges, -, hflight, -⟩ := h.going
  exact h.inv.process_busy hv hflight deviceState answer

/-- **Busy for any stretch**: nothing is changed. -/
theorem InProgress.act_busy (h : InProgress p s steps total) (hv : cfg.Valid) (answer : Result) :
    s.act (.process .busy answer) = s := by
  obtain ⟨calls, ranges, hactive, hflight, -⟩ := h.going
  change s.processed answer (s.fal.process .busy answer) = s
  rw [h.process hv, deviceProcess_busy, System.processed, if_neg hflight.busy, hactive]
  simp [← hactive]

/-- **A call on a device that is not busy** takes one of the steps. -/
theorem InProgress.act_ready (h : InProgress p s steps total) (hv : cfg.Valid) :
    Served p total (s.act (.process .ready .success)) (steps - 1) := by
  obtain ⟨calls, ranges, hactive, hflight, hphase, hsteps, htotal⟩ := h.going
  have hinv := h.inv.act hv (.process .ready .success)
  have hact : s.act (.process .ready .success) =
      s.processed .success (s.fal.deviceProcess p.device .ready .success) := by
    rw [← h.process hv]
    rfl
  obtain ⟨houtcome, -⟩ := hflight.deviceProcess hphase hv .ready .success
  rw [hact] at hinv ⊢
  unfold System.processed at hinv ⊢
  rw [hactive] at hinv ⊢
  obtain ⟨hidle, hsuccess, hlast, hissues⟩ | ⟨hbusy, hmore, hissues⟩ := hflight.work hphase hv
  · rw [show steps - 1 = 0 by omega]
    simp only [hidle, if_true, Option.map_some, Option.toList_some, hsuccess, List.map_cons,
      List.map_nil]
    refine .finished ?_ (List.mem_append_right _ (List.mem_singleton.mpr rfl))
    simp only [List.length_append, List.length_map]
    omega
  · cases houtcome with
    | ended idle => exact absurd idle hbusy
    | going busy ranges' flight phase =>
      rw [if_neg hbusy] at hinv ⊢
      refine .working ⟨hinv, _, ranges', rfl, flight, phase, by dsimp only; omega, ?_⟩
      simp only [List.length_append, List.length_map]
      omega

/-- **One action** serves the request. -/
theorem Served.act (h : Served p total s steps) (hv : cfg.Valid) {a : Act} (ha : a.Healthy) :
    Served p total (s.act a) (steps - if a.works then 1 else 0) := by
  cases h with
  | finished length_eq mem_done =>
    rw [Nat.zero_sub]
    exact .finished length_eq (mem_done_act mem_done a)
  | working h =>
    have hcfg := h.inv.cfg_eq
    cases a with
    | read zoneId offset length data =>
      exact .working (h.submitted (read_spec hcfg hv zoneId offset length data))
    | write zoneId offset length data =>
      exact .working (h.submitted (write_spec hcfg hv zoneId offset length data))
    | erase zoneId offset length =>
      exact .working (h.submitted (erase_spec hcfg hv zoneId offset length))
    | stop => exact .working (h.stopped hv)
    | process deviceState answer =>
      obtain ⟨hstate, rfl⟩ := ha
      cases deviceState with
      | error => exact absurd rfl hstate
      | busy =>
        rw [h.act_busy hv]
        exact .working h
      | ready => exact h.act_ready hv

/-- **A run** serves the request, by as many steps as the device is not busy for. -/
theorem Served.run (h : Served p total s steps) (hv : cfg.Valid) {acts : List Act}
    (hacts : ∀ a ∈ acts, a.Healthy) :
    Served p total (acts.foldl System.act s) (steps - acts.countP Act.works) := by
  induction acts generalizing s steps with
  | nil => simpa using h
  | cons a acts ih =>
    have hnext := ih (h.act hv (hacts a (List.mem_cons_self ..))) fun b hb =>
      hacts b (List.mem_cons_of_mem _ hb)
    rwa [Nat.sub_sub, Nat.add_comm, ← List.countP_cons] at hnext

end run

/-- A request without calls has all its chunks to go. -/
theorem Phase.fresh {f : Fal} {p : Place cfg r} {ranges : List (ℕ × ℕ)} (h : Flight f p ranges)
    (hphase : Phase f p ranges []) :
    p.stepsLeft f = 2 * p.chunks + p.syncs ∧ p.issuesLeft f = p.chunks + p.syncs := by
  have htiles := h.tiles
  have hstart := h.start_le
  have hnil (heq : [] = p.chunkCalls ranges) :
      p.start = f.physicalAddress.toNat + f.chunkLength.toNat := by
    rw [List.map_eq_nil_iff.mp heq.symm] at htiles
    exact htiles
  cases hphase with
  | ready state_eq chunk_eq more synced calls_eq =>
    have hwait : ¬ f.state = .waitDevice := by rw [state_eq]; exact h.resumes
    simp [Place.stepsLeft, Place.issuesLeft, synced, ← hnil calls_eq, hwait, Place.chunks]
  | waiting state_eq chunk_ne synced calls_eq =>
    have := toNat_pos_of_ne_zero chunk_ne
    have := hnil calls_eq
    omega
  | syncing state_eq chunk_eq finished synced sync calls_eq => simp at calls_eq

/-- **Requests finish.** A request that is active in a reachable state has a number of
steps to go, for one that was just accepted two for each chunk and one for the sync.
On a driver without errors it is still active as long as the device was not busy for
fewer process calls, whatever else is called and however long the device is busy in
between; from then on it is done, with success. A process call on a device that is not
busy decreases the remaining bytes and the phase, and one on a busy device changes
nothing. -/
theorem requests_finish {cfg : Cfg} {driverInit : DeviceCfg → Result} {s : System}
    (h : (falSystem cfg driverInit).Reachable s) {a : Active} (ha : s.active = some a) :
    (∃ p : Place cfg a.request, ∃ steps total,
      (a.calls = [] → steps = 2 * p.chunks + p.syncs ∧ total = p.chunks + p.syncs) ∧
      ∀ acts : List Act, (∀ x ∈ acts, x.Healthy) →
        (acts.countP Act.works < steps →
          ∃ calls, (acts.foldl System.act s).active = some ⟨a.request, calls⟩) ∧
        (steps ≤ acts.countP Act.works → ∃ calls, calls.length = total ∧
          ((⟨a.request, calls⟩ : Active), Result.success) ∈ (acts.foldl System.act s).done)) ∧
    (s.fal.process .ready .success).1.rank < s.fal.rank ∧
    ∀ answer, s.act (.process .busy answer) = s := by
  have hv := reachable_valid h
  have hinv := reachable_inv h
  obtain ⟨p, ranges, hflight, hphase⟩ := hinv.active a ha
  have hworking : InProgress p s (p.stepsLeft s.fal) (a.calls.length + p.issuesLeft s.fal) :=
    ⟨hinv, a.calls, ranges, ha, hflight, hphase, rfl, rfl⟩
  refine ⟨⟨p, p.stepsLeft s.fal, a.calls.length + p.issuesLeft s.fal, fun hnil => ?_,
    fun acts hacts => ?_⟩, ?_, hworking.act_busy hv⟩
  · rw [hnil] at hphase ⊢
    obtain ⟨hsteps, hissues⟩ := hphase.fresh hflight
    exact ⟨hsteps, by rw [hissues, List.length_nil, Nat.zero_add]⟩
  · have hrun := (Served.working hworking).run hv hacts
    constructor
    · intro hless
      generalize hleft : p.stepsLeft s.fal - acts.countP Act.works = left at hrun
      cases hrun with
      | working hgoing =>
        obtain ⟨calls, -, hactive, -⟩ := hgoing.going
        exact ⟨calls, hactive⟩
      | finished => omega
    · intro hmore
      rw [Nat.sub_eq_zero_of_le hmore] at hrun
      generalize hleft : 0 = left at hrun
      cases hrun with
      | working hgoing =>
        obtain ⟨calls, ranges', -, hflight', hphase', hsteps, -⟩ := hgoing.going
        have := hflight'.stepsLeft_pos hphase' hv
        omega
      | finished length_eq mem_done => exact ⟨_, length_eq, mem_done⟩
  · rw [hworking.process hv]
    exact hflight.rank_lt hphase hv

/-- The read of the second zone finishes. -/
theorem requests_finish_demo :
    (∃ p : Place twoZones ⟨.read, 2, 4, 20, some 0⟩, ∃ steps total,
      (([] : List (Call × Result)) = [] →
        steps = 2 * p.chunks + p.syncs ∧ total = p.chunks + p.syncs) ∧
      ∀ acts : List Act, (∀ x ∈ acts, x.Healthy) →
        (acts.countP Act.works < steps →
          ∃ calls, (acts.foldl System.act readingSecond).active =
            some ⟨⟨.read, 2, 4, 20, some 0⟩, calls⟩) ∧
        (steps ≤ acts.countP Act.works → ∃ calls, calls.length = total ∧
          ((⟨⟨.read, 2, 4, 20, some 0⟩, calls⟩ : Active), Result.success) ∈
            (acts.foldl System.act readingSecond).done)) ∧
    (readingSecond.fal.process .ready .success).1.rank < readingSecond.fal.rank ∧
    ∀ answer, readingSecond.act (.process .busy answer) = readingSecond :=
  requests_finish readingSecond_reachable (show readingSecond.active = some ⟨_, []⟩ by decide)

end Atoman.FalCore
