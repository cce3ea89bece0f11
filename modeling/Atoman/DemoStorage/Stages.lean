import Atoman.DemoStorage.Scan

/-!
# The start and the decision of a transaction

A request that is taken starts a scan, or ends at once, or works outside the slots. When
the scan is over the transaction ends with what was found, or a save is prepared.
-/

namespace Atoman.DemoStorage
open Lib

section decision
variable {s : System} {pending : Option Op}

/-- What is handed to the pool after a scan. -/
theorem ViewMatches.published {v : Service} {d : Device} {o : Option (ℕ × Entry)}
    (h : ViewMatches v d o) :
    (if (v.views d).valid then some (v.recovered d) else none) =
      o.map fun found => found.2.params := by
  cases o with
  | none => rw [h.1]; rfl
  | some found => rw [h.1, h.2.2.2]; rfl

theorem scanBegin_views_of_ne (v : Service) {d : Device} (h : d ≠ v.request.device) :
    v.scanBegin.views d = v.views d := Function.update_of_ne h ..

/-- A transaction that ends with an error hands nothing over that matters. -/
theorem finished_error {v : Service} {outcome : Int} (houtcome : outcome ≠ 0)
    (hbooting : v.booting = false) (hload : v.request.command ≠ .load)
    (flash : Device → ℕ → Memory UInt8) :
    Finished ⟨v.conclude outcome, flash, pending, s.saves⟩ where
  save := fun _ hzero => absurd hzero houtcome
  load := fun hcommand => absurd hcommand hload
  boot := fun hboot => absurd (hbooting.symm.trans hboot) (by decide)

/-- **A save is prepared** on the slot that does not hold the newest record. -/
theorem prepare_save (before : BeforeDecision s)
    (hmatches : ViewMatches s.service s.device (s.newest s.device))
    (hbooting : s.service.booting = false) (hcommand : s.service.request.command = .save)
    (hvalid : s.service.request.params.valid = true) :
    PhaseInv ⟨s.service.prepare, s.flash, pending, s.saves⟩ := by
  obtain ⟨(hlt : ∀ found, s.newest s.device = some found → found.1 < 2), hother⟩ :=
    newest_spec slots_sequence (rfl : newest _ = s.newest s.device)
  have hsequence : s.service.view.sequence = currentSequence (s.newest s.device) :=
    hmatches.sequence
  have hpage : ¬ s.service.page < 32 := Nat.not_lt.mpr s.device.page_le
  refine .save (s.newest s.device) ?_ (.erase rfl rfl)
  exact {
    command := hcommand
    booting := hbooting
    zone := by
      simp only [Service.prepare, if_pos hcommand]
      generalize s.newest s.device = o at hmatches hlt
      cases o with
      | none =>
        have hfalse : s.service.view.valid = false := hmatches.1
        rw [hfalse]
        rfl
      | some found =>
        have htrue : s.service.view.valid = true := hmatches.1
        have hslot : s.service.activeSlot s.service.request.device = found.1 := hmatches.2.2.1
        have := hlt found rfl
        rw [htrue, if_pos rfl, hslot, target]
        omega
    offset := if_pos hcommand
    data := by
      simp only [Service.prepare, recordEncode, if_neg hpage, if_pos hcommand, hsequence]
      rfl
    commit := by
      simp only [Service.prepare, recordEncode, if_neg hpage, if_pos hcommand, hsequence]
      rfl
    params_valid := hvalid
    slot_lt := hlt
    other := hother
    save := before.save hcommand }

/-- **The decision.** -/
theorem decide_spec (before : BeforeDecision s) (hscanned : Scanned s s.device) :
    PhaseInv ⟨s.service.decide, s.flash, pending, s.saves⟩ := by
  unfold Service.decide
  split
  · next hboot =>
    obtain ⟨hcommand, hnor⟩ := before.boot hboot
    split
    · next hdevice =>
      have hdevice' : s.device = .nor := hdevice
      have hkept := scanBegin_views_of_ne (d := .nor)
        { s.service with request := { s.service.request with device := .nand } }
        (show Device.nor ≠ .nand by decide)
      rw [hdevice'] at hscanned
      refine .scanData rfl ⟨⟨⟨?_, ?_⟩, rfl, fun _ => ⟨hcommand, fun _ => ?_⟩, fun hsave => ?_⟩, ?_⟩
        (Or.inr rfl)
      · exact fun h => absurd (hcommand.symm.trans h) (by decide)
      · exact fun h => absurd (hcommand.symm.trans h) (by decide)
      · exact hscanned.congr hkept rfl rfl rfl
      · exact absurd (hcommand.symm.trans hsave) (by decide)
      · exact ⟨congrArg View.valid (setView_views_self _ _),
          congrArg View.sequence (setView_views_self _ _)⟩
    · next hdevice =>
      have hnor' := hnor hdevice
      refine .finish rfl ⟨fun hsave => ?_, fun hload => ?_, fun _ => ⟨rfl, fun honline => ?_⟩⟩
      · exact absurd (hcommand.symm.trans hsave) (by decide)
      · exact absurd (hcommand.symm.trans hload) (by decide)
      · exact (hnor'.1 honline).published
  · next hnoboot =>
    have hbooting : s.service.booting = false := by simpa using hnoboot
    split
    · next hcommand =>
      refine .finish rfl ⟨fun hsave => ?_, fun hload => ?_, fun hboot => absurd hboot hnoboot⟩
      · exact absurd (hcommand.symm.trans hsave) (by decide)
      · exact absurd (hcommand.symm.trans hload) (by decide)
    · split
      · next hcommand =>
        refine .finish rfl ⟨fun hsave => ?_, fun _ => ⟨fun honline => ?_, fun hoffline => ?_⟩,
          fun hboot => absurd hboot hnoboot⟩
        · exact absurd (hcommand.symm.trans hsave) (by decide)
        · have hpublished := (hscanned.1 honline).published
          refine ⟨hpublished, ?_⟩
          change (if s.service.view.valid = true then (0 : Int) else
            if ¬ s.service.view.online = true then -22 else -20) =
              if (s.recoverable s.device).isSome = true then 0 else -20
          have honline' : s.service.view.online = true := honline
          have hsome : (s.recoverable s.device).isSome = s.service.view.valid := by
            rw [System.recoverable, ← hpublished]
            change Option.isSome (if s.service.view.valid = true then _ else _) = _
            cases s.service.view.valid <;> rfl
          rw [hsome, honline', if_neg (show ¬ ¬ true = true by decide)]
        · have hinvalid : s.service.view.valid = false := hscanned.2 hoffline
          have hoffline' : s.service.view.online = false := hoffline
          constructor
          · change (if s.service.view.valid = true then _ else _) = _
            rw [hinvalid]
            rfl
          · change (if s.service.view.valid = true then (0 : Int) else
              if ¬ s.service.view.online = true then -22 else -20) = _
            rw [hinvalid, hoffline']
            rfl
      · next hscan hload =>
        split
        · exact .finish rfl (finished_error (by decide) hbooting hload _)
        · next honline =>
          split
          · exact .finish rfl (finished_error (by decide) hbooting hload _)
          · split
            · exact .finish rfl (finished_error (by decide) hbooting hload _)
            · next hvalid =>
              rw [Decidable.not_not] at honline hvalid
              by_cases hsave : s.service.request.command = .save
              · exact prepare_save before (hscanned.1 honline) hbooting hsave hvalid
              · refine .elsewhere ⟨List.mem_cons_self, ?_, ⟨hsave, hload⟩, hbooting⟩
                change 2 < if s.service.request.command = .save then _ else 4
                rw [if_neg hsave]
                decide

/-! ## A request is taken -/

/-- **The start of a transaction.** `s` has just entered the save, if it is one. -/
theorem begin_spec (pending : Option Op) (r : Request) (mounted : Bool)
    (hbooting : s.service.booting = false)
    (hsave : r.command = .save →
      s.saves r.device = some ⟨s.recoverable r.device, r.params, false⟩) :
    PhaseInv ⟨s.service.begin r mounted, s.flash, pending, s.saves⟩ := by
  unfold Service.begin
  dsimp only
  split
  · next hcommand =>
    refine .finish rfl ⟨fun h => ?_, fun h => ?_, fun h => ?_⟩
    · exact absurd (hcommand.symm.trans h) (by decide)
    · exact absurd (hcommand.symm.trans h) (by decide)
    · exact absurd (hbooting.symm.trans h) (by decide)
  · next hcommand =>
    split
    · refine .finish rfl (finished_error (by decide) ?_ ?_ _)
      · exact hbooting
      · exact fun h => absurd (hcommand.symm.trans h) (by decide)
    · refine .elsewhere ⟨List.mem_cons_self, Nat.lt_succ_self 2, ⟨fun h => ?_, fun h => ?_⟩,
        hbooting⟩
      · exact absurd (hcommand.symm.trans h) (by decide)
      · exact absurd (hcommand.symm.trans h) (by decide)
  · next hdefaults htest =>
    refine .scanData rfl ⟨⟨⟨htest, hdefaults⟩, rfl, fun h => ?_, hsave⟩, ?_⟩ (Or.inr rfl)
    · exact absurd (hbooting.symm.trans h) (by decide)
    · exact ⟨congrArg View.valid (setView_views_self _ _),
        congrArg View.sequence (setView_views_self _ _)⟩

end decision

end Atoman.DemoStorage

/-!
## The stages of a save

Each stage keeps its part of the invariant while its transfer goes on, is cut short or
fails, and hands over to the next stage when it has succeeded.
-/

namespace Atoman.DemoStorage
open Lib

/-! ## The ends of transfers -/

theorem resultCode_ne_zero {r : FalCore.Result} (h : r ≠ .success) : resultCode r ≠ 0 := by
  cases r
  case success => exact absurd rfl h
  all_goals decide

theorem ioChecked_success {v : Service} (h : v.ioResult = .success) : v.ioChecked = v :=
  if_neg (not_not_intro h)

theorem ioChecked_error {v : Service} (h : v.ioResult ≠ .success) :
    v.ioChecked = (v.setView { v.view with online := false }).conclude (resultCode v.ioResult) :=
  if_pos h

/-- The last read of a transaction ends it. -/
theorem committedAfter_spec (v : Service) : v.committedAfter.request = v.request ∧
    v.committedAfter.booting = v.booting ∧ v.committedAfter.phase = .finish ∧
    v.committedAfter.waiting = v.waiting := by
  unfold Service.committedAfter Service.ioChecked
  dsimp only
  split_ifs <;> exact ⟨rfl, rfl, rfl, rfl⟩

section stage
variable {s : System} {o : Option (ℕ × Entry)} {m : Memory UInt8} {pending : Option Op}

/-- The target zone has changed: the plan of the save stands. -/
theorem SavePlan.withZone (plan : SavePlan s o) {v : Service}
    (hrequest : v.request = s.service.request) (hbooting : v.booting = s.service.booting)
    (hzone : v.targetZone = s.service.targetZone)
    (hoffset : v.targetOffset = s.service.targetOffset)
    (hdata : v.dataPage = s.service.dataPage) (hcommit : v.commitPage = s.service.commitPage)
    (m : Memory UInt8) (pending : Option Op) :
    SavePlan ⟨v, setZone s.flash s.device s.service.targetZone m, pending, s.saves⟩ o where
  command := by rw [hrequest]; exact plan.command
  booting := by rw [hbooting]; exact plan.booting
  zone := by rw [hzone]; exact plan.zone
  offset := by rw [hoffset]; exact plan.offset
  data := by
    simp only [saved, Service.page, hdata, hrequest]
    exact plan.data
  commit := by
    simp only [saved, Service.page, hcommit, hrequest]
    exact plan.commit
  params_valid := by rw [hrequest]; exact plan.params_valid
  slot_lt := plan.slot_lt
  other := by
    have hdevice : v.request.device = s.device := congrArg Request.device hrequest
    have hle := target_le o
    change slots v.request.device (setZone _ _ _ _ v.request.device) (1 - target o) = _
    rw [hdevice, slots, setZone_zone_of_ne (by rw [plan.zone]; omega)]
    exact plan.other
  save := by
    have hdevice : v.request.device = s.device := congrArg Request.device hrequest
    change s.saves v.request.device = some ⟨_, v.request.params, false⟩
    rw [hdevice, hrequest]
    exact plan.save

/-- The target zone of a state whose target zone has been replaced. -/
theorem targetMemory_withZone (m : Memory UInt8) (pending : Option Op) {v : Service}
    (hrequest : v.request = s.service.request)
    (hzone : v.targetZone = s.service.targetZone) :
    targetMemory ⟨v, setZone s.flash s.device s.service.targetZone m, pending, s.saves⟩ = m := by
  have hdevice : v.request.device = s.device := congrArg Request.device hrequest
  change setZone _ _ _ _ v.request.device v.targetZone = m
  rw [hdevice, hzone, setZone_apply]

variable (stage : Stage s o) (plan : SavePlan s o)

/-- The transfer of a stage that changes the target zone. -/
inductive StageOp (s : System) : Op → Prop
  | erase (phase : s.service.phase = .erase) :
      StageOp s (.erase s.service.targetZone 0 s.service.block)
  | write (phase : s.service.phase = .write) :
      StageOp s (.write s.service.targetZone 0 s.service.dataPage)
  | commit (phase : s.service.phase = .commit) :
      StageOp s (.write s.service.targetZone s.service.page s.service.commitPage)

theorem StageOp.zone_eq {op : Op} (h : StageOp s op) : op.zone = s.service.targetZone := by
  cases h <;> rfl

include plan in
theorem SavePlan.length_data : s.service.dataPage.length = s.service.page := by
  have := s.device.page_le
  rw [plan.data]
  exact length_sealed _ this

include plan in
theorem SavePlan.length_commit : s.service.commitPage.length = s.service.page := by
  have := s.device.page_le
  rw [plan.commit]
  exact length_sealed _ (Nat.le_trans (by decide : 16 + 4 ≤ 32) this)

include stage plan in
/-- **A stage that is cut short** is still that stage. -/
theorem Stage.progress {op : Op} (hop : StageOp s op)
    (h : op.Progress s.service.page (targetMemory s) m) (result : FalCore.Result) (waiting : Bool)
    (pending : Option Op) :
    Stage ⟨s.service.answered result waiting,
      setZone s.flash s.device s.service.targetZone m, pending, s.saves⟩ o := by
  have hpage := s.device.page_le
  have hplan := plan.withZone (v := s.service.answered result waiting) rfl rfl rfl rfl rfl rfl m
    pending
  have hmemory := targetMemory_withZone (s := s) m pending
    (v := s.service.answered result waiting) rfl rfl
  cases hop with
  | erase phase =>
    cases stage with
    | erase _ newest_eq =>
      refine .erase phase ?_
      rcases slotEntry_erase hpage s.device.page_le_block h with hsame | hnone
      · rw [← newest_eq]
        apply scanned_congr
        intro k hk
        change slots s.device (setZone s.flash s.device s.service.targetZone m s.device) k = _
        by_cases hk' : k + 1 = s.service.targetZone
        · rw [slots, hk', setZone_apply, slots, hk']
          exact hsame
        · rw [slots, setZone_zone_of_ne hk', slots]
      · exact hplan.newest_of_none (by rw [hmemory]; exact hnone)
    | write phase' | verify phase' | commit phase' | verifyCommit phase' =>
      exact absurd (phase.symm.trans phase') (by decide)
  | write phase =>
    cases stage with
    | write _ erased =>
      refine .write phase ?_
      rw [hmemory]
      exact (slotEntry_write_data hpage plan.length_data erased h.torn).1
    | erase phase' | verify phase' | commit phase' | verifyCommit phase' =>
      exact absurd (phase.symm.trans phase') (by decide)
  | commit phase =>
    cases stage with
    | commit _ data entry =>
      obtain ⟨hdata, hentry⟩ := slotEntry_write_commit hpage h
      refine .commit phase ?_ ?_
      · rw [hmemory]; exact hdata.trans data
      · rw [hmemory]
        rcases hentry with hentry | hentry | hentry
        · exact entry.imp hentry.trans hentry.trans
        · exact Or.inl hentry
        · refine Or.inr (hentry.trans (plan.entry ?_ ?_))
          · rw [← data]
            exact Memory.slice_write_disjoint _ _ (Or.inl (Nat.le_of_eq (Nat.zero_add _)))
          · exact Memory.slice_write_of_length plan.length_commit
    | erase phase' | write phase' | verify phase' | verifyCommit phase' =>
      exact absurd (phase.symm.trans phase') (by decide)

/-- The phase behind a stage. -/
def Phase.next : Phase → Phase
  | .erase => .write
  | .write => .verify
  | .verify => .commit
  | .commit => .verifyCommit
  | phase => phase

include stage plan in
/-- **A stage that has succeeded** hands over to the next. -/
theorem Stage.applied {op : Op} (hop : StageOp s op) (pending : Option Op) :
    Stage ⟨{ s.service.answered .success false with phase := s.service.phase.next },
      setZone s.flash s.device s.service.targetZone (op.apply (targetMemory s)), pending, s.saves⟩
      o := by
  have hpage := s.device.page_le
  have hmemory := targetMemory_withZone (s := s) (op.apply (targetMemory s)) pending
    (v := { s.service.answered .success false with phase := s.service.phase.next }) rfl rfl
  cases hop with
  | erase phase =>
    refine .write (congrArg Phase.next phase) ?_
    rw [hmemory]
    intro i _ hi
    exact erase_apply _ _ _ i (Nat.lt_of_lt_of_le hi s.device.page_le_block)
  | write phase =>
    cases stage with
    | write _ erased =>
      have htorn : (Op.write s.service.targetZone 0 s.service.dataPage).Torn (targetMemory s)
          ((Op.write s.service.targetZone 0 s.service.dataPage).apply (targetMemory s)) :=
        ⟨s.service.dataPage.length, by rw [List.take_length]; rfl⟩
      refine .verify (congrArg Phase.next phase) ?_ ?_
      · rw [hmemory]
        exact (slotEntry_write_data hpage plan.length_data erased htorn).1
      · rw [hmemory]
        exact Memory.slice_write_of_length plan.length_data
    | erase phase' | verify phase' | commit phase' | verifyCommit phase' =>
      exact absurd (phase.symm.trans phase') (by decide)
  | commit phase =>
    cases stage with
    | commit _ data entry =>
      refine .verifyCommit (congrArg Phase.next phase) ?_
      rw [hmemory]
      refine plan.entry ?_ ?_
      · rw [← data]
        exact Memory.slice_write_disjoint _ _ (Or.inl (by omega))
      · exact Memory.slice_write_of_length plan.length_commit
    | erase phase' | write phase' | verify phase' | verifyCommit phase' =>
      exact absurd (phase.symm.trans phase') (by decide)

end stage

end Atoman.DemoStorage
