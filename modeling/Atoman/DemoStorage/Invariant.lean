import Atoman.Lib.Transition
import Atoman.DemoStorage.Slots

/-!
# The service over its flash

Calls of the service, the transfers that the flash layer carries out in between, and
power cuts at any moment. Reads succeed with what is stored; an erase or a write may be
refused, may take its time, may fail, and may be cut short. Beside the state stands what
the last save of a device was to do.

A scan knows the newest record of the slots it has seen. A save then works on the other
slot in stages, and in each stage the newest record is the one from before or the new
one. Each phase has its own part of the invariant.
-/

namespace Atoman.DemoStorage
open Lib

/-- The last save of a device: the parameters that were stored before, those that it is to
store, and whether it has ended with success. -/
structure Save where
  previous : Option Params
  params : Params
  succeeded : Bool
  deriving DecidableEq, Repr

/-- The service, the zones of the devices, the transfer under way, and the last saves. -/
structure System where
  service : Service
  flash : Device → ℕ → Memory UInt8
  pending : Option Op
  saves : Device → Option Save

/-- The two parameter slots are the zones 1 and 2. -/
def slots (d : Device) (zones : ℕ → Memory UInt8) (k : ℕ) : Option Entry :=
  slotEntry d.programPageSize (zones (k + 1))

/-- One zone is replaced. -/
def setZone (flash : Device → ℕ → Memory UInt8) (d : Device) (zone : ℕ) (m : Memory UInt8) :
    Device → ℕ → Memory UInt8 :=
  Function.update flash d (Function.update (flash d) zone m)

namespace System
variable (s : System)

/-- The device that is worked on. -/
def device : Device := s.service.request.device

/-- The newest record of a device. -/
def newest (d : Device) : Option (ℕ × Entry) := DemoStorage.newest (slots d (s.flash d))

/-- The parameters a scan of the device recovers. -/
def recoverable (d : Device) : Option Params := (s.newest d).map fun found => found.2.params

/-- The contents of the zone of a transfer. -/
def zoneOf (op : Op) : Memory UInt8 := s.flash s.device op.zone

/-- The zone of a transfer is replaced. -/
def withZone (op : Op) (m : Memory UInt8) : Device → ℕ → Memory UInt8 :=
  setZone s.flash s.device op.zone m

end System

/-- A transfer that only reads. -/
def Op.isRead : Op → Prop
  | .read _ _ _ => True
  | _ => False

/-- What the flash layer does in a call: the zones and the transfer under way after it. -/
inductive FlashStep (s : System) (a : Answer) :
    (Device → ℕ → Memory UInt8) → Option Op → Prop
  | quiet (h : s.service.operation = none) : FlashStep s a s.flash s.pending
  | accepted {op : Op} {m : Memory UInt8} (h : s.service.operation = some op)
      (waiting : s.service.waiting = false) (submit : a.submit = .inProgress)
      (progress : op.Progress s.service.page (s.zoneOf op) m) :
      FlashStep s a (s.withZone op m) (some op)
  | refused {op : Op} (h : s.service.operation = some op) (waiting : s.service.waiting = false)
      (submit : a.submit ≠ .inProgress) (error : a.submit ≠ .success) (change : ¬ op.isRead) :
      FlashStep s a s.flash none
  | busy {op : Op} {m : Memory UInt8} (h : s.service.operation ≠ none)
      (waiting : s.service.waiting = true) (pending : s.pending = some op) (busy : a.busy = true)
      (progress : op.Progress s.service.page (s.zoneOf op) m) :
      FlashStep s a (s.withZone op m) (some op)
  | succeeded {op : Op} (h : s.service.operation ≠ none) (waiting : s.service.waiting = true)
      (pending : s.pending = some op) (ready : a.busy = false) (result : a.result = .success)
      (data : ∀ zone offset length, op = .read zone offset length →
        a.data = (s.zoneOf op).slice offset length) :
      FlashStep s a (s.withZone op (op.apply (s.zoneOf op))) none
  | failed {op : Op} {m : Memory UInt8} (h : s.service.operation ≠ none)
      (waiting : s.service.waiting = true) (pending : s.pending = some op) (ready : a.busy = false)
      (error : a.result ≠ .success) (change : ¬ op.isRead)
      (progress : op.Progress s.service.page (s.zoneOf op) m) :
      FlashStep s a (s.withZone op m) none

/-- A save is entered when it is taken, and when it has ended with success. -/
def System.recorded (s : System) (i : Input) : Device → Option Save :=
  match s.service.phase, i.taken with
  | .idle, some r =>
    if r.command = .save then
      Function.update s.saves r.device (some ⟨s.recoverable r.device, r.params, false⟩)
    else s.saves
  | .finish, _ =>
    if i.finished ∧ s.service.request.command = .save ∧ s.service.outcome = 0 then
      Function.update s.saves s.device
        ((s.saves s.device).map fun save => { save with succeeded := true })
    else s.saves
  | _, _ => s.saves

/-- Any contents of the flash, any calls, and power cuts between and during them. -/
def storageSystem : Transition System where
  init s := ∃ online flash, s = ⟨Service.init online, flash, none, fun _ => none⟩
  next s t :=
    (∃ i flash pending, FlashStep s i.answer flash pending ∧
      t = ⟨s.service.process i, flash, pending, s.recorded i⟩) ∨
    ∃ online, t = ⟨Service.init online, s.flash, none, s.saves⟩

/-! ## The zones after a transfer -/

section zones
variable {flash : Device → ℕ → Memory UInt8} {d d' : Device} {zone : ℕ} {m : Memory UInt8}

theorem setZone_self : setZone flash d zone (flash d zone) = flash := by simp [setZone]

@[simp] theorem setZone_apply : setZone flash d zone m d zone = m := by simp [setZone]

theorem setZone_of_ne (h : d' ≠ d) : setZone flash d zone m d' = flash d' := by simp [setZone, h]

theorem setZone_zone_of_ne {zone' : ℕ} (h : zone' ≠ zone) :
    setZone flash d zone m d zone' = flash d zone' := by simp [setZone, h]

/-- A record has a number. -/
theorem slots_sequence {zones : ℕ → Memory UInt8} :
    ∀ k e, slots d zones k = some e → e.sequence ≠ 0 :=
  fun _ _ h => slotEntry_sequence_ne_zero h

/-- The zones that are no slots do not count. -/
theorem newest_setZone (h : 2 < zone) :
    newest (slots d' (setZone flash d zone m d')) = newest (slots d' (flash d')) := by
  apply scanned_congr
  intro k hk
  by_cases hd : d' = d
  · subst hd
    rw [slots, setZone_zone_of_ne (by omega), slots]
  · rw [setZone_of_ne hd]

end zones

theorem Device.page_le (d : Device) : 32 ≤ d.programPageSize := by cases d <;> decide

theorem Device.page_le_block (d : Device) : d.programPageSize + 20 ≤ d.eraseBlockSize := by
  cases d <;> decide

/-! ## How a transfer goes on -/

/-- An answer has been taken. -/
def Service.answered (s : Service) (result : FalCore.Result) (waiting : Bool) : Service :=
  { s with ioResult := result, waiting := waiting }

/-- A transfer goes on, has succeeded, or has failed. -/
inductive Transferred (s : System) (op : Op) (i : Input) :
    Service → (Device → ℕ → Memory UInt8) → Option Op → Prop
  | going {result : FalCore.Result} {m : Memory UInt8}
      (progress : op.Progress s.service.page (s.zoneOf op) m) :
      Transferred s op i (s.service.answered result true) (s.withZone op m) (some op)
  | succeeded (data : ∀ zone offset length, op = .read zone offset length →
        i.answer.data = (s.zoneOf op).slice offset length) :
      Transferred s op i ((s.service.answered .success false).transferred i)
        (s.withZone op (op.apply (s.zoneOf op))) none
  | failed {result : FalCore.Result} {m : Memory UInt8} (error : result ≠ .success)
      (change : ¬ op.isRead) (progress : op.Progress s.service.page (s.zoneOf op) m) :
      Transferred s op i ((s.service.answered result false).transferred i) (s.withZone op m) none

theorem Op.Progress.refl (page : ℕ) (op : Op) (m : Memory UInt8) : op.Progress page m m := by
  refine ⟨?_, fun _ => Or.inl rfl, fun _ => Or.inl rfl⟩
  cases op with
  | read zone offset length => exact rfl
  | write zone offset data => exact ⟨0, by simp⟩
  | erase zone offset length => exact fun i => Or.inl rfl

/-- **One call of a phase that transfers.** -/
theorem FlashStep.transferred {s : System} {i : Input} {op : Op}
    {flash : Device → ℕ → Memory UInt8} {pending : Option Op}
    (h : FlashStep s i.answer flash pending) (hop : s.service.operation = some op)
    (hpending : s.service.waiting = true → s.pending = some op) :
    Transferred s op i (s.service.process i) flash pending := by
  have hprocess : s.service.process i =
      if (s.service.transfer i.answer).2 then (s.service.transfer i.answer).1.transferred i
      else (s.service.transfer i.answer).1 := by
    unfold Service.process
    cases hphase : s.service.phase
    case idle | decide | finish => simp [Service.operation, hphase] at hop
    all_goals simp only [hop]
  rw [hprocess]
  unfold Service.transfer
  cases h with
  | quiet hnone => exact absurd (hnone.symm.trans hop) (by simp)
  | accepted hop' waiting submit progress =>
    obtain rfl := Option.some.inj (hop.symm.trans hop')
    simp only [waiting, submit, if_true, Bool.false_eq_true, if_false]
    exact .going progress
  | refused hop' waiting submit error change =>
    obtain rfl := Option.some.inj (hop.symm.trans hop')
    simp only [waiting, submit, if_false, if_true, Bool.false_eq_true]
    have hfailed := Transferred.failed (s := s) (i := i) error change (.refl _ _ _)
    rw [System.withZone, System.zoneOf, setZone_self] at hfailed
    exact hfailed
  | busy hop' waiting pending busy progress =>
    obtain rfl := Option.some.inj ((hpending waiting).symm.trans pending)
    simp only [waiting, busy, if_true]
    have hgoing : Transferred s op i (s.service.answered s.service.ioResult true) _ (some op) :=
      .going progress
    rw [Service.answered, ← waiting] at hgoing
    exact hgoing
  | succeeded hop' waiting pending ready result data =>
    obtain rfl := Option.some.inj ((hpending waiting).symm.trans pending)
    simp only [waiting, ready, result, if_true, Bool.false_eq_true, if_false]
    exact .succeeded data
  | failed hop' waiting pending ready error change progress =>
    obtain rfl := Option.some.inj ((hpending waiting).symm.trans pending)
    simp only [waiting, ready, if_true, Bool.false_eq_true, if_false]
    exact .failed error change progress

/-! ## What holds in every phase -/

/-- What the service knows of the parameters of a device is what is found there. -/
def ViewMatches (v : Service) (d : Device) : Option (ℕ × Entry) → Prop
  | none => (v.views d).valid = false ∧ (v.views d).sequence = 0
  | some found =>
    (v.views d).valid = true ∧ (v.views d).sequence = found.2.sequence ∧
      v.activeSlot d = found.1 ∧ v.recovered d = found.2.params

/-- A device has been scanned, if it is online. -/
def Scanned (s : System) (d : Device) : Prop :=
  ((s.service.views d).online = true → ViewMatches s.service d (s.newest d)) ∧
    ((s.service.views d).online = false → (s.service.views d).valid = false)

/-- What holds from the start of a scan to the decision. -/
structure BeforeDecision (s : System) : Prop where
  command : s.service.request.command ≠ .test ∧ s.service.request.command ≠ .defaults
  complete : s.service.scanFailed = false
  boot : s.service.booting = true →
    s.service.request.command = .scan ∧ (s.device = .nand → Scanned s .nor)
  save : s.service.request.command = .save →
    s.saves s.device = some ⟨s.recoverable s.device, s.service.request.params, false⟩

/-- A scan has seen some slots. -/
structure Scanning (s : System) : Prop extends BeforeDecision s where
  found : ViewMatches s.service s.device
    (scanned (slots s.device (s.flash s.device)) (min s.service.scanSlot 2))

/-- The record of a save. -/
def saved (s : System) (o : Option (ℕ × Entry)) : Entry :=
  ⟨nextSequence (currentSequence o), s.service.request.params⟩

/-- What a save that has found `o` has decided. -/
structure SavePlan (s : System) (o : Option (ℕ × Entry)) : Prop where
  command : s.service.request.command = .save
  booting : s.service.booting = false
  zone : s.service.targetZone = target o + 1
  offset : s.service.targetOffset = 0
  data : s.service.dataPage =
    sealed (dataHead 1 (saved s o).sequence (saved s o).params) s.service.page
  commit : s.service.commitPage =
    sealed (commitHead 1 (saved s o).sequence
      (crc32 (dataHead 1 (saved s o).sequence (saved s o).params))) s.service.page
  params_valid : s.service.request.params.valid = true
  slot_lt : ∀ found, o = some found → found.1 < 2
  other : slots s.device (s.flash s.device) (1 - target o) = o.map Prod.snd
  save : s.saves s.device =
    some ⟨o.map fun found => found.2.params, s.service.request.params, false⟩

/-- The zone a save works on. -/
def targetMemory (s : System) : Memory UInt8 := s.flash s.device s.service.targetZone

/-- The stages of a save that has found `o`. -/
inductive Stage (s : System) (o : Option (ℕ × Entry)) : Prop
  | erase (phase : s.service.phase = .erase) (newest_eq : s.newest s.device = o)
  | write (phase : s.service.phase = .write)
      (erased : ∀ i, s.service.page ≤ i → i < s.service.page + 20 → targetMemory s i = 0xFF)
  | verify (phase : s.service.phase = .verify)
      (erased : ∀ i, s.service.page ≤ i → i < s.service.page + 20 → targetMemory s i = 0xFF)
      (data : (targetMemory s).slice 0 s.service.page = s.service.dataPage)
  | commit (phase : s.service.phase = .commit)
      (data : (targetMemory s).slice 0 s.service.page = s.service.dataPage)
      (entry : slotEntry s.service.page (targetMemory s) = none ∨
        slotEntry s.service.page (targetMemory s) = some (saved s o))
  | verifyCommit (phase : s.service.phase = .verifyCommit)
      (entry : slotEntry s.service.page (targetMemory s) = some (saved s o))

/-- What is handed to the pool. -/
def Service.published (v : Service) : Option Params :=
  if v.restore then some (v.recovered v.request.device) else none

/-- What holds at the end of a transaction. -/
structure Finished (s : System) : Prop where
  save : s.service.request.command = .save → s.service.outcome = 0 →
    s.recoverable s.device = some s.service.request.params ∧
      ∃ save, s.saves s.device = some save ∧ save.params = s.service.request.params
  load : s.service.request.command = .load →
    (s.service.view.online = true → s.service.published = s.recoverable s.device ∧
      s.service.outcome = if (s.recoverable s.device).isSome then 0 else -20) ∧
    (s.service.view.online = false → s.service.published = none ∧ s.service.outcome = -22)
  boot : s.service.booting = true → s.device = .nor ∧
    ((s.service.views .nor).online = true → s.service.published = s.recoverable .nor)

/-- The phases of a test or a log entry, which leave the slots alone. -/
structure Elsewhere (s : System) : Prop where
  phase : s.service.phase ∈ [.erase, .write, .verify, .commit, .verifyCommit]
  zone : 2 < s.service.targetZone
  command : s.service.request.command ≠ .save ∧ s.service.request.command ≠ .load
  booting : s.service.booting = false

/-- The part of the invariant that belongs to the phase. -/
inductive PhaseInv (s : System) : Prop
  | idle (phase : s.service.phase = .idle) (booting : s.service.booting = false)
  | scanData (phase : s.service.phase = .scanData) (scan : Scanning s)
      (online : s.service.view.online = true ∨ s.service.scanSlot = 0)
  | scanCommit (phase : s.service.phase = .scanCommit) (scan : Scanning s)
      (online : s.service.view.online = true)
      (data : s.service.dataPage =
        (s.flash s.device s.service.scanZone).slice s.service.scanOffset s.service.page)
      (valid : dataValid s.service.dataPage s.service.scanKind)
  | decide (phase : s.service.phase = .decide) (before : BeforeDecision s)
      (scanned : Scanned s s.device)
  | elsewhere (h : Elsewhere s)
  | save (o : Option (ℕ × Entry)) (plan : SavePlan s o) (stage : Stage s o)
  | finish (phase : s.service.phase = .finish) (finished : Finished s)

/-- **The invariant.** A device holds what it held before its last save, or what the save
was to store; and that, once the save has ended with success. -/
structure Inv (s : System) : Prop where
  saves : ∀ d save, s.saves d = some save →
    (s.recoverable d = save.previous ∨ s.recoverable d = some save.params) ∧
      (save.succeeded = true → s.recoverable d = some save.params)
  waiting : s.service.waiting = true →
    s.service.operation ≠ none ∧ s.pending = s.service.operation
  phase : PhaseInv s

/-! ## Stages -/

section stage
variable {s : System} {o : Option (ℕ × Entry)}

theorem target_le (o : Option (ℕ × Entry)) : target o ≤ 1 := by
  cases o with
  | none => exact Nat.zero_le 1
  | some found => exact Nat.sub_le 1 found.1

/-- The record of a save is complete when both its pages are stored. -/
theorem SavePlan.entry (plan : SavePlan s o) {m : Memory UInt8}
    (hdata : m.slice 0 s.service.page = s.service.dataPage)
    (hcommit : m.slice s.service.page s.service.page = s.service.commitPage) :
    slotEntry s.service.page m = some (saved s o) := by
  obtain ⟨hvalid, hsequence, hparams⟩ := dataValid_sealed s.service.page 1 (saved s o).sequence
    (saved s o).params plan.params_valid (nextSequence_ne_zero _)
  rw [slotEntry, hdata, hcommit, plan.data, plan.commit,
    if_pos ⟨hvalid, committed_sealed _ _ _ _⟩, hsequence, hparams]

/-- The slot of the target zone. -/
theorem SavePlan.slot_target (plan : SavePlan s o) :
    slots s.device (s.flash s.device) (target o) = slotEntry s.service.page (targetMemory s) := by
  rw [slots, targetMemory, plan.zone]
  rfl

theorem SavePlan.newest_of_none (plan : SavePlan s o)
    (h : slotEntry s.service.page (targetMemory s) = none) : s.newest s.device = o :=
  newest_of_target_none slots_sequence plan.slot_lt plan.other (plan.slot_target.trans h)

theorem SavePlan.newest_of_saved (plan : SavePlan s o)
    (h : slotEntry s.service.page (targetMemory s) = some (saved s o)) :
    s.newest s.device = some (target o, saved s o) :=
  newest_of_target_some slots_sequence plan.slot_lt plan.other (plan.slot_target.trans h) rfl

/-- **In every stage the newest record is the one from before, or the new one.** -/
theorem Stage.newest (stage : Stage s o) (plan : SavePlan s o) :
    s.newest s.device = o ∨ s.newest s.device = some (target o, saved s o) := by
  have hpage := s.device.page_le
  cases stage with
  | erase phase newest_eq => exact Or.inl newest_eq
  | write phase erased => exact Or.inl (plan.newest_of_none (slotEntry_erased hpage erased))
  | verify phase erased data => exact Or.inl (plan.newest_of_none (slotEntry_erased hpage erased))
  | commit phase data entry =>
    exact entry.imp plan.newest_of_none plan.newest_of_saved
  | verifyCommit phase entry => exact Or.inr (plan.newest_of_saved entry)

end stage

end Atoman.DemoStorage
