import Atoman.DemoStorage.Stages

/-!
# Saves are atomic and durable

Every call and every power cut keeps the invariant. So a scan recovers what was stored
before the last save or what the save was to store, the latter once it has ended with
success, and the slot of the newest record is never erased.
-/

namespace Atoman.DemoStorage
open Lib

section step
variable {s : System} {o : Option (ℕ × Entry)} {i : Input}
variable {flash : Device → ℕ → Memory UInt8} {pending : Option Op}

/-! ## Saves that stay as they are -/

/-- The zone of a save has changed: its device holds what it may hold. -/
theorem Inv.saves_withZone (h : Inv s) (plan : SavePlan s o) {v : Service} {m : Memory UInt8}
    (hnewest : newest
      (slots s.device (setZone s.flash s.device s.service.targetZone m s.device)) = o ∨
      newest (slots s.device (setZone s.flash s.device s.service.targetZone m s.device)) =
        some (target o, saved s o)) :
    ∀ d save, s.saves d = some save →
      (System.recoverable ⟨v, setZone s.flash s.device s.service.targetZone m, pending, s.saves⟩ d =
          save.previous ∨
        System.recoverable ⟨v, setZone s.flash s.device s.service.targetZone m, pending, s.saves⟩
          d =
          some save.params) ∧
      (save.succeeded = true →
        System.recoverable ⟨v, setZone s.flash s.device s.service.targetZone m, pending, s.saves⟩
          d =
          some save.params) := by
  intro d save hsave
  by_cases hd : d = s.device
  · subst hd
    obtain rfl := Option.some.inj (plan.save.symm.trans hsave)
    refine ⟨hnewest.imp (fun hold => ?_) fun hnew => ?_, fun hfalse => absurd hfalse (by simp)⟩
    · exact congrArg (Option.map fun found : ℕ × Entry => found.2.params) hold
    · exact congrArg (Option.map fun found : ℕ × Entry => found.2.params) hnew
  · have hkept : System.recoverable
        ⟨v, setZone s.flash s.device s.service.targetZone m, pending, s.saves⟩ d =
          s.recoverable d := by
      simp only [System.recoverable, System.newest, setZone_of_ne hd]
    rw [hkept]
    exact h.saves d save hsave

/-- A zone that is no slot has changed. -/
theorem Inv.saves_elsewhere (h : Inv s) {v : Service} {op : Op} (hzone : 2 < op.zone)
    (m : Memory UInt8) : ∀ d save, s.saves d = some save →
      (System.recoverable ⟨v, s.withZone op m, pending, s.saves⟩ d = save.previous ∨
        System.recoverable ⟨v, s.withZone op m, pending, s.saves⟩ d = some save.params) ∧
      (save.succeeded = true →
        System.recoverable ⟨v, s.withZone op m, pending, s.saves⟩ d = some save.params) := by
  intro d save hsave
  have hkept : System.recoverable ⟨v, s.withZone op m, pending, s.saves⟩ d = s.recoverable d :=
    congrArg (Option.map fun found : ℕ × Entry => found.2.params) (newest_setZone hzone)
  rw [hkept]
  exact h.saves d save hsave

theorem scanAdvance_waiting (v : Service) (mounted : Bool) :
    (v.scanAdvance mounted).waiting = v.waiting := by
  unfold Service.scanAdvance
  dsimp only
  split
  · split <;> rfl
  · split <;> rfl

theorem recordFound_waiting (v : Service) : v.recordFound.waiting = v.waiting := by
  unfold Service.recordFound
  dsimp only
  split
  · split <;> rfl
  · split <;> rfl

theorem ioChecked_waiting (v : Service) : v.ioChecked.waiting = v.waiting := by
  unfold Service.ioChecked
  split <;> rfl

/-- An answer ends the waiting. -/
theorem transferred_waiting (v : Service) (i : Input) :
    (v.transferred i).waiting = v.waiting := by
  unfold Service.transferred
  cases v.phase
  case scanData =>
    dsimp only
    split
    · rfl
    · exact scanAdvance_waiting _ _
  case scanCommit =>
    dsimp only
    split
    · exact (scanAdvance_waiting _ _).trans (recordFound_waiting _)
    · exact scanAdvance_waiting _ _
  case erase | write | commit => exact ioChecked_waiting _
  case verify =>
    dsimp only
    split
    · rfl
    · exact ioChecked_waiting _
  case verifyCommit => exact (committedAfter_spec _).2.2.2
  all_goals rfl

/-- While a transfer goes on, it is the one of the phase. -/
theorem waiting_going {op : Op} (hop : s.service.operation = some op) (result : FalCore.Result) :
    (s.service.answered result true).waiting = true →
      (s.service.answered result true).operation ≠ none ∧
        some op = (s.service.answered result true).operation := by
  intro _
  have hsame : (s.service.answered result true).operation = s.service.operation := rfl
  rw [hsame, hop]
  exact ⟨by simp, rfl⟩

theorem waiting_transferred {P : Prop} (result : FalCore.Result) (i : Input) :
    ((s.service.answered result false).transferred i).waiting = true → P := by
  intro h
  rw [transferred_waiting] at h
  exact absurd h (by simp [Service.answered])

/-! ## Reads -/

/-- A read leaves the flash alone, and returns what is stored. -/
theorem Transferred.read {zone offset length : ℕ} {v : Service}
    (h : Transferred s (.read zone offset length) i v flash pending) : flash = s.flash ∧
      ((∃ result, v = s.service.answered result true ∧ pending = some (.read zone offset length)) ∨
        (v = (s.service.answered .success false).transferred i ∧ pending = none ∧
          i.answer.data = (s.flash s.device zone).slice offset length)) := by
  cases h with
  | @going result m progress =>
    obtain rfl : m = s.zoneOf _ := progress.torn
    exact ⟨setZone_self, Or.inl ⟨result, rfl, rfl⟩⟩
  | succeeded data => exact ⟨setZone_self, Or.inr ⟨rfl, rfl, data zone offset length rfl⟩⟩
  | failed error change progress => exact absurd trivial change

/-- **A scan reads.** -/
theorem Inv.step_scanData (h : Inv s) (hphase : s.service.phase = .scanData) (scan : Scanning s)
    (honline : s.service.view.online = true) (hstep : FlashStep s i.answer flash pending) :
    Inv ⟨s.service.process i, flash, pending, s.saves⟩ := by
  have hop : s.service.operation =
      some (.read s.service.scanZone s.service.scanOffset s.service.page) := by
    simp [Service.operation, hphase, honline]
  obtain ⟨rfl, ⟨result, hv, rfl⟩ | ⟨hv, rfl, hdata⟩⟩ :=
    (hstep.transferred hop fun hw => (h.waiting hw).2.trans hop).read
  · rw [hv]
    have hbefore := scan.toBeforeDecision.congr (some (.read s.service.scanZone
      s.service.scanOffset s.service.page)) (v := s.service.answered result true)
      (.refl _ _ _ rfl rfl rfl rfl rfl) scan.complete
    refine ⟨h.saves, waiting_going hop result, .scanData hphase { hbefore with found := ?_ }
      (Or.inl honline)⟩
    exact scan.found.congr rfl rfl rfl
  · rw [hv]
    exact ⟨h.saves, waiting_transferred _ i, scan_data scan hphase honline i hdata⟩

theorem Inv.step_scanCommit (h : Inv s) (hphase : s.service.phase = .scanCommit)
    (scan : Scanning s) (honline : s.service.view.online = true)
    (hpage : s.service.dataPage =
      (s.flash s.device s.service.scanZone).slice s.service.scanOffset s.service.page)
    (hvalid : dataValid s.service.dataPage s.service.scanKind)
    (hstep : FlashStep s i.answer flash pending) :
    Inv ⟨s.service.process i, flash, pending, s.saves⟩ := by
  have hop : s.service.operation = some (.read s.service.scanZone
      (s.service.scanOffset + s.service.page) s.service.page) := by
    simp [Service.operation, hphase]
  obtain ⟨rfl, ⟨result, hv, rfl⟩ | ⟨hv, rfl, hdata⟩⟩ :=
    (hstep.transferred hop fun hw => (h.waiting hw).2.trans hop).read
  · rw [hv]
    have hbefore := scan.toBeforeDecision.congr (some (.read s.service.scanZone
      (s.service.scanOffset + s.service.page) s.service.page))
      (v := s.service.answered result true) (.refl _ _ _ rfl rfl rfl rfl rfl) scan.complete
    refine ⟨h.saves, waiting_going hop result, .scanCommit hphase { hbefore with found := ?_ }
      honline hpage hvalid⟩
    exact scan.found.congr rfl rfl rfl
  · rw [hv]
    exact ⟨h.saves, waiting_transferred _ i, scan_commit scan hphase honline hpage hvalid i hdata⟩

/-! ## Tests and log entries -/

/-- The phases behind the decision. -/
theorem transferred_phases (v : Service)
    (h : v.phase ∈ [Phase.erase, .write, .verify, .commit, .verifyCommit]) (i : Input) :
    (v.transferred i).request = v.request ∧ (v.transferred i).booting = v.booting ∧
      ((v.transferred i).phase = .finish ∨
        ((v.transferred i).phase ∈ [Phase.erase, .write, .verify, .commit, .verifyCommit] ∧
          (v.transferred i).targetZone = v.targetZone)) := by
  have hchecked (phase : Phase) (page : List UInt8)
      (hphase : phase ∈ [Phase.erase, .write, .verify, .commit, .verifyCommit]) :
      let w := { v with phase := phase, verifyPage := page }.ioChecked
      w.request = v.request ∧ w.booting = v.booting ∧
        (w.phase = .finish ∨ (w.phase ∈ [Phase.erase, .write, .verify, .commit, .verifyCommit] ∧
          w.targetZone = v.targetZone)) := by
    unfold Service.ioChecked
    dsimp only
    split
    · exact ⟨rfl, rfl, Or.inl rfl⟩
    · exact ⟨rfl, rfl, Or.inr ⟨hphase, rfl⟩⟩
  unfold Service.transferred
  cases hphase : v.phase
  case erase => exact hchecked .write v.verifyPage (by simp)
  case write => exact hchecked .verify v.verifyPage (by simp)
  case commit => exact hchecked .verifyCommit v.verifyPage (by simp)
  case verify =>
    dsimp only
    split
    · exact ⟨rfl, rfl, Or.inl rfl⟩
    · exact hchecked .commit i.answer.data (by simp)
  case verifyCommit =>
    exact ⟨(committedAfter_spec _).1, (committedAfter_spec _).2.1,
      Or.inl (committedAfter_spec _).2.2.1⟩
  all_goals rw [hphase] at h; exact absurd h (by decide)

/-- A test or a log entry works outside the slots. -/
theorem Elsewhere.operation (h : Elsewhere s) :
    ∃ op, s.service.operation = some op ∧ 2 < op.zone := by
  have hphase := h.phase
  have hzone := h.zone
  unfold Service.operation
  cases hp : s.service.phase
  case erase =>
    refine ⟨_, rfl, ?_⟩
    split
    · exact hzone
    · exact hzone
  case write | verify | commit | verifyCommit => exact ⟨_, rfl, hzone⟩
  all_goals rw [hp] at hphase; exact absurd hphase (by decide)

theorem Elsewhere.transferred (h : Elsewhere s) (result : FalCore.Result) (i : Input) :
    PhaseInv ⟨(s.service.answered result false).transferred i, flash, pending, s.saves⟩ := by
  obtain ⟨hrequest, hbooting, hfinish | ⟨hphase, hzone⟩⟩ :=
    transferred_phases (s.service.answered result false) h.phase i
  · refine .finish hfinish ⟨fun hsave => ?_, fun hload => ?_, fun hboot => ?_⟩
    · exact absurd ((congrArg Request.command hrequest).symm.trans hsave) h.command.1
    · exact absurd ((congrArg Request.command hrequest).symm.trans hload) h.command.2
    · exact absurd ((hbooting.trans h.booting).symm.trans hboot) (by decide)
  · refine .elsewhere ⟨hphase, ?_, ?_, hbooting.trans h.booting⟩
    · exact Nat.lt_of_lt_of_eq h.zone hzone.symm
    · rw [hrequest]; exact h.command

theorem Inv.step_elsewhere (h : Inv s) (he : Elsewhere s)
    (hstep : FlashStep s i.answer flash pending) :
    Inv ⟨s.service.process i, flash, pending, s.saves⟩ := by
  obtain ⟨op, hop, hzone⟩ := he.operation
  have htransferred := hstep.transferred hop fun hw => (h.waiting hw).2.trans hop
  generalize s.service.process i = v at htransferred ⊢
  cases htransferred with
  | @going result m progress =>
    exact ⟨h.saves_elsewhere hzone m, waiting_going hop result, .elsewhere { he with }⟩
  | succeeded data =>
    exact ⟨h.saves_elsewhere hzone _, waiting_transferred _ i, he.transferred _ i⟩
  | failed error change progress =>
    exact ⟨h.saves_elsewhere hzone _, waiting_transferred _ i, he.transferred _ i⟩

/-! ## Saves -/

/-- The state of a save that has ended. -/
theorem finished_save {v : Service} {outcome : Int} {flash : Device → ℕ → Memory UInt8}
    (plan : SavePlan s o) (houtcome : outcome ≠ 0) (hrequest : v.request = s.service.request)
    (hbooting : v.booting = s.service.booting) :
    PhaseInv ⟨v.conclude outcome, flash, pending, s.saves⟩ := by
  refine .finish rfl (finished_error houtcome (hbooting.trans plan.booting) ?_ _)
  rw [hrequest, plan.command]
  decide

/-- **A stage that changes the slot.** -/
theorem Inv.step_change (h : Inv s) (plan : SavePlan s o) (stage : Stage s o) {op : Op}
    (hop : StageOp s op) (hoperation : s.service.operation = some op)
    (hstep : FlashStep s i.answer flash pending) :
    Inv ⟨s.service.process i, flash, pending, s.saves⟩ := by
  have hzone := hop.zone_eq
  have hmemory : s.zoneOf op = targetMemory s := by rw [System.zoneOf, hzone]; rfl
  -- cut short, the save is in the same stage
  have hcut {m : Memory UInt8} (progress : op.Progress s.service.page (s.zoneOf op) m)
      (result : FalCore.Result) (waiting : Bool) (pending : Option Op) :=
    stage.progress plan hop (hmemory ▸ progress) result waiting pending
  have hplan (v : Service) := plan.withZone (v := v)
  have hchange (m : Memory UInt8) :
      s.withZone op m = setZone s.flash s.device s.service.targetZone m := by
    rw [System.withZone, hzone]
  have hcases := hstep.transferred hoperation fun hw => (h.waiting hw).2.trans hoperation
  generalize s.service.process i = v at hcases ⊢
  cases hcases with
  | @going result m progress =>
    have hstage := hcut progress result true (some op)
    have hplan' := plan.withZone (v := s.service.answered result true) rfl rfl rfl rfl rfl rfl m
      (some op)
    rw [hchange]
    exact ⟨h.saves_withZone plan (hstage.newest hplan'), waiting_going hoperation result,
      .save o hplan' hstage⟩
  | succeeded data =>
    have hstage := stage.applied plan hop none
    have hplan' := plan.withZone
      (v := { s.service.answered .success false with phase := s.service.phase.next })
      rfl rfl rfl rfl rfl rfl (op.apply (targetMemory s)) none
    have htransferred : (s.service.answered .success false).transferred i =
        { s.service.answered .success false with phase := s.service.phase.next } := by
      cases hop with
      | erase phase | write phase | commit phase =>
        simp only [Service.transferred, Service.answered, phase]
        exact ioChecked_success rfl
    refine ⟨?_, waiting_transferred _ i, ?_⟩
    · rw [hchange, hmemory]
      exact h.saves_withZone plan (hstage.newest hplan')
    · rw [hchange, hmemory, htransferred]
      exact .save o hplan' hstage
  | @failed result m error change progress =>
    have hstage := hcut progress result false none
    have hplan' := plan.withZone (v := s.service.answered result false) rfl rfl rfl rfl rfl rfl m
      none
    refine ⟨?_, waiting_transferred _ i, ?_⟩
    · rw [hchange]
      exact h.saves_withZone plan (hstage.newest hplan')
    · cases hop with
      | erase phase | write phase | commit phase =>
        simp only [Service.transferred, Service.answered, phase]
        rw [ioChecked_error error]
        exact finished_save plan (resultCode_ne_zero error) rfl rfl

/-- **A stage that reads back.** -/
theorem Inv.step_verify (h : Inv s) (plan : SavePlan s o) (hphase : s.service.phase = .verify)
    (herased : ∀ i, s.service.page ≤ i → i < s.service.page + 20 → targetMemory s i = 0xFF)
    (hdata : (targetMemory s).slice 0 s.service.page = s.service.dataPage)
    (hstep : FlashStep s i.answer flash pending) :
    Inv ⟨s.service.process i, flash, pending, s.saves⟩ := by
  have hop : s.service.operation =
      some (.read s.service.targetZone s.service.targetOffset s.service.page) := by
    simp [Service.operation, hphase]
  have hsame : setZone s.flash s.device s.service.targetZone (targetMemory s) = s.flash :=
    setZone_self
  obtain ⟨rfl, ⟨result, hv, rfl⟩ | ⟨hv, rfl, -⟩⟩ :=
    (hstep.transferred hop fun hw => (h.waiting hw).2.trans hop).read
  · rw [hv]
    have hplan := plan.withZone (v := s.service.answered result true) rfl rfl rfl rfl rfl rfl
      (targetMemory s) (some (.read s.service.targetZone s.service.targetOffset s.service.page))
    rw [hsame] at hplan
    exact ⟨h.saves, waiting_going hop result, .save o hplan (.verify hphase herased hdata)⟩
  · rw [hv]
    refine ⟨h.saves, waiting_transferred _ i, ?_⟩
    simp only [Service.transferred, Service.answered, hphase]
    split
    · exact finished_save plan (by decide) rfl rfl
    · rw [ioChecked_success rfl]
      have hplan := plan.withZone
        (v := { s.service.answered .success false with
          phase := .commit, verifyPage := i.answer.data })
        rfl rfl rfl rfl rfl rfl (targetMemory s) none
      rw [hsame] at hplan
      refine .save o hplan (.commit rfl hdata (Or.inl ?_))
      exact slotEntry_erased s.device.page_le herased

theorem Inv.step_verifyCommit (h : Inv s) (plan : SavePlan s o)
    (hphase : s.service.phase = .verifyCommit)
    (hentry : slotEntry s.service.page (targetMemory s) = some (saved s o))
    (hstep : FlashStep s i.answer flash pending) :
    Inv ⟨s.service.process i, flash, pending, s.saves⟩ := by
  have hop : s.service.operation = some (.read s.service.targetZone
      (s.service.targetOffset + s.service.page) s.service.page) := by
    simp [Service.operation, hphase]
  obtain ⟨rfl, ⟨result, hv, rfl⟩ | ⟨hv, rfl, -⟩⟩ :=
    (hstep.transferred hop fun hw => (h.waiting hw).2.trans hop).read
  · rw [hv]
    have hplan := plan.withZone (v := s.service.answered result true) rfl rfl rfl rfl rfl rfl
      (targetMemory s) (some (.read s.service.targetZone
        (s.service.targetOffset + s.service.page) s.service.page))
    rw [show setZone s.flash s.device s.service.targetZone (targetMemory s) = s.flash from
      setZone_self] at hplan
    exact ⟨h.saves, waiting_going hop result, .save o hplan (.verifyCommit hphase hentry)⟩
  · rw [hv]
    refine ⟨h.saves, waiting_transferred _ i, ?_⟩
    simp only [Service.transferred, Service.answered, hphase]
    generalize hw : ({ s.service with
      ioResult := .success, waiting := false, phase := .verifyCommit
      verifyPage := i.answer.data } : Service) = w
    have hfields : w.request = s.service.request ∧ w.booting = false := by
      rw [← hw]; exact ⟨rfl, plan.booting⟩
    obtain ⟨hrequest, hbooting, hfinish, -⟩ := committedAfter_spec w
    rw [hfields.1] at hrequest
    rw [hfields.2] at hbooting
    have hdevice : w.committedAfter.request.device = s.device := congrArg Request.device hrequest
    refine .finish hfinish ⟨fun _ _ => ?_, fun hload => ?_, fun hboot => ?_⟩
    · have hnewest := congrArg (Option.map fun found : ℕ × Entry => found.2.params)
        (plan.newest_of_saved hentry)
      change Option.map _ (newest (slots w.committedAfter.request.device
        (s.flash w.committedAfter.request.device))) = some w.committedAfter.request.params ∧
          ∃ save, s.saves w.committedAfter.request.device = some save ∧
            save.params = w.committedAfter.request.params
      rw [hdevice, hrequest]
      exact ⟨hnewest, _, plan.save, rfl⟩
    · have hcommand := (congrArg Request.command hrequest).symm.trans hload
      exact absurd (plan.command.symm.trans hcommand) (by decide)
    · exact absurd (hbooting.symm.trans hboot) (by decide)

/-! ## Phases without a transfer -/

theorem FlashStep.of_none {a : Answer} (h : FlashStep s a flash pending)
    (hnone : s.service.operation = none) : flash = s.flash ∧ pending = s.pending := by
  cases h with
  | quiet => exact ⟨rfl, rfl⟩
  | accepted hop | refused hop => exact absurd (hnone.symm.trans hop) (by simp)
  | busy hop | succeeded hop | failed hop => exact absurd hnone hop

/-- Without a transfer nothing is waited for. -/
theorem Inv.not_waiting (h : Inv s) (hnone : s.service.operation = none) :
    s.service.waiting = false := by
  cases hw : s.service.waiting with
  | false => rfl
  | true => exact absurd hnone (h.waiting hw).1

theorem decide_waiting (v : Service) : v.decide.waiting = v.waiting := by
  unfold Service.decide
  split
  · split <;> rfl
  · split_ifs <;> rfl

theorem begin_waiting (v : Service) (r : Request) (mounted : Bool) :
    (v.begin r mounted).waiting = false := by
  unfold Service.begin
  dsimp only
  split
  · rfl
  · split <;> rfl
  · rfl

/-- **The decision, also of a scan that finds the device offline.** -/
theorem Inv.step_decide (h : Inv s) (hnone : s.service.operation = none)
    (before : BeforeDecision s) (hscanned : Scanned s s.device) :
    Inv ⟨s.service.decide, s.flash, s.pending, s.saves⟩ := by
  refine ⟨h.saves, fun hw => ?_, decide_spec before hscanned⟩
  have hw' : s.service.decide.waiting = true := hw
  rw [decide_waiting, h.not_waiting hnone] at hw'
  exact absurd hw' (by decide)

theorem Inv.step_offline (h : Inv s) (hphase : s.service.phase = .scanData) (scan : Scanning s)
    (hoffline : s.service.view.online = false) (hslot : s.service.scanSlot = 0)
    (hstep : FlashStep s i.answer flash pending) :
    Inv ⟨s.service.process i, flash, pending, s.saves⟩ := by
  have hnone : s.service.operation = none := by simp [Service.operation, hphase, hoffline]
  obtain ⟨rfl, rfl⟩ := hstep.of_none hnone
  have hprocess : s.service.process i = { s.service with phase := .decide }.decide := by
    unfold Service.process
    simp only [hphase, hnone]
  have hbefore := scan.toBeforeDecision.congr s.pending
    (v := { s.service with phase := .decide }) (.refl _ _ _ rfl rfl rfl rfl rfl) scan.complete
  have hscanned : Scanned ⟨{ s.service with phase := .decide }, s.flash, s.pending, s.saves⟩
      s.device := by
    have hfound := scan.found
    rw [hslot] at hfound
    exact ⟨fun honline => absurd (hoffline.symm.trans honline) (by decide), fun _ => hfound.1⟩
  have hinv : Inv ⟨{ s.service with phase := .decide }, s.flash, s.pending, s.saves⟩ := by
    refine ⟨h.saves, fun hw => ?_, .decide rfl hbefore hscanned⟩
    exact absurd ((h.not_waiting hnone).symm.trans hw) (by decide)
  rw [hprocess]
  exact hinv.step_decide rfl hbefore hscanned

/-- **A request is taken.** What is stored now is what a save finds. -/
theorem Inv.step_idle (h : Inv s) (hphase : s.service.phase = .idle)
    (hbooting : s.service.booting = false) (hstep : FlashStep s i.answer flash pending) :
    Inv ⟨s.service.process i, flash, pending, s.recorded i⟩ := by
  have hnone : s.service.operation = none := by simp [Service.operation, hphase]
  obtain ⟨rfl, rfl⟩ := hstep.of_none hnone
  unfold Service.process System.recorded
  rw [hphase]
  cases htaken : i.taken with
  | none =>
    refine ⟨h.saves, fun hw => ?_, .idle hphase hbooting⟩
    exact absurd ((h.not_waiting hnone).symm.trans hw) (by decide)
  | some r =>
    dsimp only
    refine ⟨fun d save hsave => ?_, fun hw => ?_, ?_⟩
    · split at hsave
      · by_cases hd : d = r.device
        · subst hd
          have hupdate := Function.update_self (f := s.saves) r.device
            (some ⟨s.recoverable r.device, r.params, false⟩)
          obtain rfl := Option.some.inj (hupdate.symm.trans hsave)
          exact ⟨Or.inl rfl, fun hfalse => absurd hfalse (by simp)⟩
        · exact h.saves d save ((Function.update_of_ne hd ..).symm.trans hsave)
      · exact h.saves d save hsave
    · exact absurd ((begin_waiting s.service r i.mounted).symm.trans hw) (by decide)
    · have hbegin := begin_spec (s := ⟨s.service, s.flash, s.pending, if r.command = .save then
        Function.update s.saves r.device (some ⟨s.recoverable r.device, r.params, false⟩)
        else s.saves⟩) s.pending r i.mounted hbooting
      refine hbegin fun hcommand => ?_
      change (if r.command = .save then _ else s.saves) r.device = _
      rw [if_pos hcommand]
      exact Function.update_self ..

/-- **The pool takes the result.** A save that has ended with success is entered. -/
theorem Inv.step_finish (h : Inv s) (hphase : s.service.phase = .finish) (finished : Finished s)
    (hstep : FlashStep s i.answer flash pending) :
    Inv ⟨s.service.process i, flash, pending, s.recorded i⟩ := by
  have hnone : s.service.operation = none := by simp [Service.operation, hphase]
  obtain ⟨rfl, rfl⟩ := hstep.of_none hnone
  have hwaiting := h.not_waiting hnone
  unfold Service.process System.recorded
  rw [hphase]
  dsimp only
  refine ⟨fun d save hsave => ?_, fun hw => ?_, ?_⟩
  · change (if i.finished = true ∧ s.service.request.command = .save ∧ s.service.outcome = 0 then _
      else s.saves) d = some save at hsave
    split at hsave
    · next hdone =>
      obtain ⟨hrecoverable, active, hactive, hparams⟩ := finished.save hdone.2.1 hdone.2.2
      by_cases hd : d = s.device
      · subst hd
        have hupdate := Function.update_self (f := s.saves) s.device
          ((s.saves s.device).map fun save => { save with succeeded := true })
        rw [hactive] at hupdate
        rw [hactive] at hsave
        obtain rfl := Option.some.inj (hupdate.symm.trans hsave)
        have hstored : s.recoverable s.device = some active.params := by rw [hparams, hrecoverable]
        exact ⟨Or.inr hstored, fun _ => hstored⟩
      · exact h.saves d save ((Function.update_of_ne hd ..).symm.trans hsave)
    · exact h.saves d save hsave
  · split at hw
    · exact absurd (hwaiting.symm.trans hw) (by decide)
    · exact absurd (hwaiting.symm.trans hw) (by decide)
  · split
    · exact .idle rfl rfl
    · next hlocked =>
      rw [if_neg fun hdone => hlocked hdone.1]
      exact .finish hphase finished

/-! ## Every step -/

theorem recorded_of_phase (hidle : s.service.phase ≠ .idle) (hfinish : s.service.phase ≠ .finish)
    (i : Input) : s.recorded i = s.saves := by
  unfold System.recorded
  split
  · next hphase _ => exact absurd hphase hidle
  · next hphase => exact absurd hphase hfinish
  · rfl

/-- **Every call keeps the invariant.** -/
theorem Inv.step (h : Inv s) (hstep : FlashStep s i.answer flash pending) :
    Inv ⟨s.service.process i, flash, pending, s.recorded i⟩ := by
  have hkept (phase : Phase) (hphase : s.service.phase = phase) (hidle : phase ≠ .idle)
      (hfinish : phase ≠ .finish) : s.recorded i = s.saves :=
    recorded_of_phase (by rwa [hphase]) (by rwa [hphase]) i
  cases h.phase with
  | idle hphase hbooting => exact h.step_idle hphase hbooting hstep
  | scanData hphase scan honline =>
    rw [hkept _ hphase (by decide) (by decide)]
    cases hview : s.service.view.online with
    | true => exact h.step_scanData hphase scan hview hstep
    | false =>
      have hslot := honline.resolve_left (by rw [hview]; decide)
      exact h.step_offline hphase scan hview hslot hstep
  | scanCommit hphase scan honline hpage hvalid =>
    rw [hkept _ hphase (by decide) (by decide)]
    exact h.step_scanCommit hphase scan honline hpage hvalid hstep
  | decide hphase before hscanned =>
    have hnone : s.service.operation = none := by simp [Service.operation, hphase]
    obtain ⟨rfl, rfl⟩ := hstep.of_none hnone
    have hprocess : s.service.process i = s.service.decide := by
      unfold Service.process
      rw [hphase]
    rw [hkept _ hphase (by decide) (by decide), hprocess]
    exact h.step_decide hnone before hscanned
  | elsewhere he =>
    have hidle : s.service.phase ≠ .idle := fun hp => absurd (hp ▸ he.phase) (by decide)
    have hfinish : s.service.phase ≠ .finish := fun hp => absurd (hp ▸ he.phase) (by decide)
    rw [recorded_of_phase hidle hfinish]
    exact h.step_elsewhere he hstep
  | save o plan stage =>
    cases stage with
    | erase hphase hnewest =>
      rw [hkept _ hphase (by decide) (by decide)]
      refine h.step_change plan (.erase hphase hnewest) (.erase hphase) ?_ hstep
      simp [Service.operation, hphase, plan.command, plan.offset]
    | write hphase herased =>
      rw [hkept _ hphase (by decide) (by decide)]
      refine h.step_change plan (.write hphase herased) (.write hphase) ?_ hstep
      simp [Service.operation, hphase, plan.offset]
    | verify hphase herased hdata =>
      rw [hkept _ hphase (by decide) (by decide)]
      exact h.step_verify plan hphase herased hdata hstep
    | commit hphase hdata hentry =>
      rw [hkept _ hphase (by decide) (by decide)]
      refine h.step_change plan (.commit hphase hdata hentry) (.commit hphase) ?_ hstep
      simp [Service.operation, hphase, plan.offset]
    | verifyCommit hphase hentry =>
      rw [hkept _ hphase (by decide) (by decide)]
      exact h.step_verifyCommit plan hphase hentry hstep
  | finish hphase finished => exact h.step_finish hphase finished hstep

/-- **A power cut** changes nothing that is stored. -/
theorem inv_init {saves : Device → Option Save} (online : Device → Bool)
    (hsaves : ∀ d save, saves d = some save →
      ((newest (slots d (flash d))).map (fun found => found.2.params) = save.previous ∨
        (newest (slots d (flash d))).map (fun found => found.2.params) = some save.params) ∧
      (save.succeeded = true →
        (newest (slots d (flash d))).map (fun found => found.2.params) = some save.params)) :
    Inv ⟨Service.init online, flash, none, saves⟩ where
  saves := hsaves
  waiting := fun hw => absurd (show false = true from hw) (by decide)
  phase := by
    refine .scanData rfl ⟨⟨⟨?_, ?_⟩, rfl, fun _ => ⟨rfl, fun hnand => ?_⟩, fun hsave => ?_⟩, ?_⟩
      (Or.inr rfl)
    · exact fun h => absurd (show Command.scan = .test from h) (by decide)
    · exact fun h => absurd (show Command.scan = .defaults from h) (by decide)
    · exact absurd (show Device.nor = .nand from hnand) (by decide)
    · exact absurd (show Command.scan = .save from hsave) (by decide)
    · exact ⟨congrArg View.valid (setView_views_self _ _),
        congrArg View.sequence (setView_views_self _ _)⟩

theorem reachable_inv (h : storageSystem.Reachable s) : Inv s := by
  refine h.invariant ?_ ?_
  · rintro s ⟨online, flash, rfl⟩
    exact inv_init online fun d save hnone => absurd hnone (by simp)
  · rintro s t hs (⟨i, flash, pending, hstep, rfl⟩ | ⟨online, rfl⟩)
    · exact hs.step hstep
    · exact inv_init online hs.saves

end step

/-! ## Saves -/

/-- **Saves are atomic and durable**, from any contents of the flash, over any calls,
failures and power cuts. A device holds what it held before its last save or what the
save was to store, and the latter once it has ended with success; a scan of a device
that is online finds what it holds, and so hands it over at a load and after a start;
and no erase is made on the slot of the newest record. -/
theorem save_atomic {s : System} (h : storageSystem.Reachable s) :
    (∀ d save, s.saves d = some save →
      (s.recoverable d = save.previous ∨ s.recoverable d = some save.params) ∧
        (save.succeeded = true → s.recoverable d = some save.params)) ∧
    (s.service.phase = .decide → s.service.view.online = true →
      ViewMatches s.service s.device (s.newest s.device)) ∧
    (s.service.phase = .finish → s.service.request.command = .load →
      s.service.view.online = true →
        s.service.published = s.recoverable s.device ∧
        ∀ save, s.saves s.device = some save → save.succeeded = true →
          s.service.outcome = 0 ∧ s.service.published = some save.params) ∧
    (s.service.phase = .finish → s.service.booting = true →
      (s.service.views .nor).online = true → s.service.published = s.recoverable .nor) ∧
    ∀ zone offset length, s.service.operation = some (.erase zone offset length) →
      ∀ found, s.newest s.device = some found → zone ≠ found.1 + 1 := by
  have hinv := reachable_inv h
  have hfinished (hphase : s.service.phase = .finish) : Finished s := by
    cases hinv.phase with
    | finish _ finished => exact finished
    | idle hphase' | scanData hphase' | scanCommit hphase' | decide hphase' =>
      exact absurd (hphase.symm.trans hphase') (by decide)
    | elsewhere he => exact absurd (hphase ▸ he.phase) (by decide)
    | save o plan stage =>
      cases stage with
      | erase hphase' | write hphase' | verify hphase' | commit hphase' | verifyCommit hphase' =>
        exact absurd (hphase.symm.trans hphase') (by decide)
  refine ⟨hinv.saves, fun hphase honline => ?_, fun hphase hload honline => ?_,
    fun hphase hboot honline => ((hfinished hphase).boot hboot).2 honline,
    fun zone offset length hop found hfound => ?_⟩
  · cases hinv.phase with
    | decide _ before scanned => exact scanned.1 honline
    | idle hphase' | scanData hphase' | scanCommit hphase' | finish hphase' =>
      exact absurd (hphase.symm.trans hphase') (by decide)
    | elsewhere he => exact absurd (hphase ▸ he.phase) (by decide)
    | save o plan stage =>
      cases stage with
      | erase hphase' | write hphase' | verify hphase' | commit hphase' | verifyCommit hphase' =>
        exact absurd (hphase.symm.trans hphase') (by decide)
  · obtain ⟨hpublished, houtcome⟩ := ((hfinished hphase).load hload).1 honline
    refine ⟨hpublished, fun save hsave hsucceeded => ?_⟩
    have hstored := (hinv.saves _ save hsave).2 hsucceeded
    rw [hpublished, houtcome, hstored]
    exact ⟨rfl, rfl⟩
  · cases hinv.phase with
    | elsewhere he =>
      obtain ⟨op, hop', hzone⟩ := he.operation
      obtain rfl := Option.some.inj (hop.symm.trans hop')
      have hzone' : 2 < zone := hzone
      obtain ⟨hlt, -⟩ := newest_spec slots_sequence hfound
      have := hlt found rfl
      omega
    | save o plan stage =>
      cases stage with
      | erase hphase hnewest =>
        obtain ⟨hzone, -, -⟩ : s.service.targetZone = zone ∧ 0 = offset ∧
            s.service.block = length := by
          simpa [Service.operation, hphase, plan.command, plan.offset] using hop
        have := plan.slot_lt found (hnewest.symm.trans hfound)
        rw [hfound] at hnewest
        rw [← hzone, plan.zone, ← hnewest, target]
        omega
      | write hphase | verify hphase | commit hphase | verifyCommit hphase =>
        simp [Service.operation, hphase] at hop
    | scanData hphase =>
      simp only [Service.operation, hphase] at hop
      split at hop <;> exact absurd hop (by simp)
    | idle hphase | scanCommit hphase | decide hphase | finish hphase =>
      simp [Service.operation, hphase] at hop

/-! ## A run -/

/-- A call in which the flash layer takes a transfer on, or ends the one under way. -/
def System.turn (s : System) (taken : Option Request) : System :=
  let i (submit : FalCore.Result) (data : List UInt8) : Input :=
    ⟨taken, true, ⟨submit, false, .success, data⟩, true⟩
  match s.service.operation, s.service.waiting, s.pending with
  | none, _, _ =>
    ⟨s.service.process (i .success []), s.flash, s.pending, s.recorded (i .success [])⟩
  | some op, false, _ =>
    ⟨s.service.process (i .inProgress []), s.flash, some op, s.recorded (i .inProgress [])⟩
  | some _, true, some op =>
    let data := match op with
      | .read _ offset length => (s.zoneOf op).slice offset length
      | _ => []
    ⟨s.service.process (i .success data), s.withZone op (op.apply (s.zoneOf op)), none,
      s.recorded (i .success data)⟩
  | some _, true, none => s

theorem System.reachable_turn {s : System} (h : storageSystem.Reachable s)
    (taken : Option Request) : storageSystem.Reachable (s.turn taken) := by
  unfold System.turn
  cases hop : s.service.operation with
  | none => exact h.step (Or.inl ⟨_, _, _, .quiet hop, rfl⟩)
  | some op =>
    cases hwaiting : s.service.waiting with
    | false =>
      have hstep := FlashStep.accepted (a := ⟨.inProgress, false, .success, []⟩) hop hwaiting rfl
        (Op.Progress.refl s.service.page op (s.zoneOf op))
      have hsame : s.withZone op (s.zoneOf op) = s.flash := setZone_self
      rw [hsame] at hstep
      exact h.step (Or.inl ⟨_, _, _, hstep, rfl⟩)
    | true =>
      cases hpending : s.pending with
      | none => exact h
      | some op' =>
        have hne : s.service.operation ≠ none := by simp [hop]
        refine h.step (Or.inl ⟨_, _, _, .succeeded hne hwaiting hpending rfl rfl ?_, rfl⟩)
        rintro zone offset length rfl
        rfl

/-- Calls that find the requests of a list, one after the other. -/
theorem System.reachable_turns {s : System} (h : storageSystem.Reachable s)
    (takens : List (Option Request)) : storageSystem.Reachable (takens.foldl System.turn s) := by
  induction takens generalizing s with
  | nil => exact h
  | cons taken takens ih => exact ih (System.reachable_turn h taken)

/-- What a write of which `n` bytes are stored makes of its zone. -/
def System.tornZone (s : System) (n : ℕ) : Memory UInt8 :=
  (s.flash s.device s.service.targetZone).write s.service.targetOffset (s.service.dataPage.take n)

/-- The write of the data page is taken on; after `n` bytes the power fails. -/
def System.cut (s : System) (n : ℕ) : System :=
  ⟨Service.init fun d => d = .nor, setZone s.flash s.device s.service.targetZone (s.tornZone n),
    none, s.saves⟩

theorem System.reachable_cut {s : System} (h : storageSystem.Reachable s) {n : ℕ}
    (hphase : s.service.phase = .write) (hwaiting : s.service.waiting = false)
    (hdata : ¬ crcMatches ((s.tornZone n).slice 0 s.service.page) 28)
    (hcommit : ¬ crcMatches ((s.tornZone n).slice s.service.page s.service.page) 16) :
    storageSystem.Reachable (s.cut n) := by
  have hop : s.service.operation = some (.write s.service.targetZone s.service.targetOffset
      s.service.dataPage) := by simp [Service.operation, hphase]
  have hprogress : Op.Progress s.service.page (.write s.service.targetZone s.service.targetOffset
      s.service.dataPage) (s.flash s.device s.service.targetZone) (s.tornZone n) :=
    ⟨⟨n, rfl⟩, fun h => (hdata h).elim, fun h => (hcommit h).elim⟩
  have htaken := h.step (Or.inl ⟨⟨none, true, ⟨.inProgress, false, .success, []⟩, true⟩, _, _,
    .accepted hop hwaiting rfl hprogress, rfl⟩)
  have hcut := htaken.step (Or.inr ⟨fun d => d = .nor, rfl⟩)
  have hsaves : s.recorded ⟨none, true, ⟨.inProgress, false, .success, []⟩, true⟩ = s.saves := by
    simp [System.recorded, hphase]
  rw [hsaves] at hcut
  exact hcut

/-- Erased flash, and only the NOR device answers. -/
def started : System := ⟨Service.init fun d => d = .nor, fun _ _ _ => 0xFF, none, fun _ => none⟩

/-- A save is taken, and its slot is erased. -/
def saving : System :=
  (List.replicate 15 none ++ some (⟨⟨1, 2, 3⟩, .save, 1, .nor⟩ : Request) ::
    List.replicate 15 none).foldl System.turn
      started

/-- The power fails in the write of the data page, and the device starts again. -/
def restarted : System := (List.replicate 14 none).foldl System.turn (saving.cut 8)

theorem restarted_reachable : storageSystem.Reachable restarted := by
  have hsaving : storageSystem.Reachable saving :=
    System.reachable_turns (.start ⟨_, _, rfl⟩) _
  have hwrite : saving.service.phase = .write ∧ saving.service.waiting = false ∧
      ¬ crcMatches ((saving.tornZone 8).slice 0 saving.service.page) 28 ∧
      ¬ crcMatches ((saving.tornZone 8).slice saving.service.page saving.service.page) 16 := by
    decide +kernel
  obtain ⟨hphase, hwaiting, hdata, hcommit⟩ := hwrite
  exact System.reachable_turns (System.reachable_cut hsaving hphase hwaiting hdata hcommit) _

theorem save_atomic_demo :
    restarted.saves .nor = some ⟨none, ⟨1, 2, 3⟩, false⟩ ∧
    (restarted.recoverable .nor = none ∨ restarted.recoverable .nor = some ⟨1, 2, 3⟩) ∧
    restarted.service.published = none ∧
    restarted.service.published = restarted.recoverable .nor := by
  have hrun : restarted.saves .nor = some ⟨none, ⟨1, 2, 3⟩, false⟩ ∧
      restarted.service.phase = .finish ∧ restarted.service.booting = true ∧
      (restarted.service.views .nor).online = true ∧ restarted.service.published = none := by
    decide +kernel
  obtain ⟨hsave, hphase, hbooting, honline, hpublished⟩ := hrun
  obtain ⟨hsaves, -, -, hboot, -⟩ := save_atomic restarted_reachable
  exact ⟨hsave, (hsaves .nor _ hsave).1, hpublished, hboot hphase hbooting honline⟩

end Atoman.DemoStorage
