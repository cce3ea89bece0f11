import Atoman.DemoStorage.Invariant

/-!
# Scans and decisions

A scan that reads what is stored finds the newest record, slot by slot; the decision
then ends the transaction or starts the stages of a save on the other slot.
-/

namespace Atoman.DemoStorage
open Lib

/-! ## What the parts of the invariant depend on -/

theorem ViewMatches.congr {v w : Service} {d : Device} {o : Option (ℕ × Entry)}
    (h : ViewMatches v d o) (hview : w.views d = v.views d)
    (hslot : w.activeSlot d = v.activeSlot d) (hrecovered : w.recovered d = v.recovered d) :
    ViewMatches w d o := by
  cases o with
  | none => simpa only [ViewMatches, hview] using h
  | some found => simpa only [ViewMatches, hview, hslot, hrecovered] using h

theorem Scanned.congr {s t : System} {d : Device} (h : Scanned s d)
    (hview : t.service.views d = s.service.views d)
    (hslot : t.service.activeSlot d = s.service.activeSlot d)
    (hrecovered : t.service.recovered d = s.service.recovered d)
    (hnewest : t.newest d = s.newest d) : Scanned t d := by
  refine ⟨fun honline => ?_, fun hoffline => ?_⟩
  · rw [hview] at honline
    rw [hnewest]
    exact (h.1 honline).congr hview hslot hrecovered
  · rw [hview] at hoffline ⊢
    exact h.2 hoffline

/-- The number of what is known. -/
theorem ViewMatches.sequence {v : Service} {d : Device} {o : Option (ℕ × Entry)}
    (h : ViewMatches v d o) : (v.views d).sequence = currentSequence o := by
  cases o with
  | none => exact h.2
  | some found => exact h.2.1

/-- Only the device that is worked on has changed. -/
structure OnlyDevice (d : Device) (v w : Service) : Prop where
  request_eq : w.request = v.request
  booting_eq : w.booting = v.booting
  views_eq : ∀ d' ≠ d, w.views d' = v.views d'
  activeSlot_eq : ∀ d' ≠ d, w.activeSlot d' = v.activeSlot d'
  recovered_eq : ∀ d' ≠ d, w.recovered d' = v.recovered d'

theorem OnlyDevice.refl (d : Device) (v w : Service) (hrequest : w.request = v.request)
    (hbooting : w.booting = v.booting) (hviews : w.views = v.views)
    (hslot : w.activeSlot = v.activeSlot) (hrecovered : w.recovered = v.recovered) :
    OnlyDevice d v w :=
  ⟨hrequest, hbooting, fun _ _ => congrFun hviews _, fun _ _ => congrFun hslot _,
    fun _ _ => congrFun hrecovered _⟩

theorem BeforeDecision.congr {s : System} (h : BeforeDecision s) (pending : Option Op)
    {v : Service} (hsame : OnlyDevice s.device s.service v) (hcomplete : v.scanFailed = false) :
    BeforeDecision ⟨v, s.flash, pending, s.saves⟩ where
  command := by rw [hsame.request_eq]; exact h.command
  complete := hcomplete
  boot := by
    intro hboot
    rw [hsame.booting_eq] at hboot
    obtain ⟨hcommand, hscanned⟩ := h.boot hboot
    refine ⟨by rw [hsame.request_eq]; exact hcommand, fun hnand => ?_⟩
    have hdevice : s.device = .nand := by
      rw [← hnand]; exact congrArg Request.device hsame.request_eq.symm
    have hne : Device.nor ≠ s.device := by rw [hdevice]; decide
    exact (hscanned hdevice).congr (hsame.views_eq _ hne) (hsame.activeSlot_eq _ hne)
      (hsame.recovered_eq _ hne) rfl
  save := by
    intro hcommand
    change v.request.command = _ at hcommand
    change s.saves v.request.device = some ⟨System.recoverable ⟨v, s.flash, pending, s.saves⟩
      v.request.device, v.request.params, false⟩
    rw [hsame.request_eq] at hcommand ⊢
    exact h.save hcommand

section view
variable (v : Service) (w : View)

@[simp] theorem setView_view : (v.setView w).view = w := Function.update_self ..

@[simp] theorem setView_views_self : (v.setView w).views v.request.device = w :=
  Function.update_self ..

theorem setView_views_of_ne {d : Device} (h : d ≠ v.request.device) :
    (v.setView w).views d = v.views d := Function.update_of_ne h ..

end view

/-! ## One slot after the other -/

section scan
variable {s : System}

theorem scanAdvance_success {v : Service} (h : v.ioResult = .success) (mounted : Bool) :
    v.scanAdvance mounted = { v with
      scanSlot := v.scanSlot + 1
      phase := if v.scanSlot + 1 < logBlocks + 2 then .scanData else .decide } := by
  unfold Service.scanAdvance
  simp [h]

/-- **The next slot.** What is known after it is what is found in the slots up to it. -/
theorem scan_next {v : Service} {pending : Option Op} (before : BeforeDecision s)
    (hsame : OnlyDevice s.device s.service v) (hcomplete : v.scanFailed = false)
    (honline : v.view.online = true) (hresult : v.ioResult = .success)
    (hfound : ViewMatches v s.device
      (scanned (slots s.device (s.flash s.device)) (min (v.scanSlot + 1) 2))) (mounted : Bool) :
    PhaseInv ⟨v.scanAdvance mounted, s.flash, pending, s.saves⟩ := by
  have hdevice : v.request.device = s.device := congrArg Request.device hsame.request_eq
  rw [scanAdvance_success hresult]
  have hbefore := before.congr pending (v := { v with
      scanSlot := v.scanSlot + 1
      phase := if v.scanSlot + 1 < logBlocks + 2 then .scanData else .decide })
    { hsame with } hcomplete
  by_cases hmore : v.scanSlot + 1 < logBlocks + 2
  · refine .scanData (if_pos hmore) { hbefore with found := ?_ } (Or.inl honline)
    change ViewMatches _ v.request.device (scanned (slots v.request.device
      (s.flash v.request.device)) _)
    rw [hdevice]
    exact hfound.congr rfl rfl rfl
  · refine .decide (if_neg hmore) hbefore ⟨fun _ => ?_, fun hoffline => ?_⟩
    · have hmin : min (v.scanSlot + 1) 2 = 2 := by
        rw [logBlocks] at hmore
        omega
      rw [hmin] at hfound
      change ViewMatches _ v.request.device (newest (slots v.request.device
        (s.flash v.request.device)))
      rw [hdevice]
      exact hfound.congr rfl rfl rfl
    · exact absurd (honline.symm.trans hoffline) (by decide)

/-- A slot without a record adds nothing. -/
theorem scanned_skip {slot : ℕ → Option Entry} {k : ℕ} (h : k < 2 → slot k = none) :
    scanned slot (min (k + 1) 2) = scanned slot (min k 2) := by
  by_cases hk : k < 2
  · rw [Nat.min_eq_left (by omega), Nat.min_eq_left (by omega), scanned, h hk]
  · rw [Nat.min_eq_right (by omega), Nat.min_eq_right (by omega)]

/-- The service has taken the answer of a read that succeeded. -/
theorem onlyDevice_answered (s : System) : OnlyDevice s.device s.service
    (s.service.answered .success false) :=
  .refl _ _ _ rfl rfl rfl rfl rfl

/-- A parameter slot that is scanned lies at the start of its zone. -/
theorem scan_slot (h : s.service.scanSlot < 2) : s.service.scanZone = s.service.scanSlot + 1 ∧
    s.service.scanOffset = 0 ∧ s.service.scanKind = 1 :=
  ⟨if_pos h, if_pos h, if_pos h⟩

/-- **A data page has been read.** -/
theorem scan_data (h : Scanning s) (hphase : s.service.phase = .scanData)
    (honline : s.service.view.online = true) (i : Input)
    (hdata : i.answer.data =
      (s.flash s.device s.service.scanZone).slice s.service.scanOffset s.service.page) :
    PhaseInv ⟨(s.service.answered .success false).transferred i, s.flash, none, s.saves⟩ := by
  have htransferred : (s.service.answered .success false).transferred i =
      if dataValid i.answer.data s.service.scanKind then
        { s.service.answered .success false with dataPage := i.answer.data, phase := .scanCommit }
      else { s.service.answered .success false with dataPage := i.answer.data }.scanAdvance
        i.mounted := by
    simp only [Service.transferred, Service.answered, hphase, true_and]
    rfl
  rw [htransferred]
  split
  · next hvalid =>
    have hbefore := h.toBeforeDecision.congr none (v := {
        s.service.answered .success false with
        dataPage := i.answer.data, phase := .scanCommit })
      { onlyDevice_answered s with } h.complete
    exact .scanCommit rfl { hbefore with found := h.found.congr rfl rfl rfl } honline hdata hvalid
  · next hinvalid =>
    refine scan_next (v := { s.service.answered .success false with dataPage := i.answer.data })
      h.toBeforeDecision { onlyDevice_answered s with } h.complete honline rfl ?_ _
    change ViewMatches _ s.device (scanned _ (min (s.service.scanSlot + 1) 2))
    rw [scanned_skip]
    · exact h.found.congr rfl rfl rfl
    · intro hlt
      obtain ⟨hzone, hoffset, hkind⟩ := scan_slot hlt
      refine if_neg fun hboth => hinvalid ?_
      rw [hdata, hzone, hoffset, hkind]
      exact hboth.1

/-- **A record that is complete** is what is known, if it is newer. -/
theorem recordFound_spec (v : Service) :
    OnlyDevice v.request.device v v.recordFound ∧
      (v.recordFound.view.online = v.view.online ∧ v.recordFound.ioResult = v.ioResult ∧
        v.recordFound.scanFailed = v.scanFailed ∧ v.recordFound.scanSlot = v.scanSlot) ∧
      ∀ slot : ℕ → Option Entry,
        (v.scanSlot < 2 →
          slot v.scanSlot = some ⟨readU32Le v.dataPage 8, recordDecode v.dataPage⟩) →
        ViewMatches v v.request.device (scanned slot (min v.scanSlot 2)) →
        ViewMatches v.recordFound v.request.device (scanned slot (min (v.scanSlot + 1) 2)) := by
  unfold Service.recordFound
  dsimp only
  by_cases hlt : v.scanSlot < 2
  · rw [if_pos hlt]
    have hnext (slot : ℕ → Option Entry)
        (hslot : slot v.scanSlot = some ⟨readU32Le v.dataPage 8, recordDecode v.dataPage⟩)
        (hfound : ViewMatches v v.request.device (scanned slot (min v.scanSlot 2))) :
        scanned slot (min (v.scanSlot + 1) 2) =
          if newer (readU32Le v.dataPage 8) v.view.sequence then
            some (v.scanSlot, ⟨readU32Le v.dataPage 8, recordDecode v.dataPage⟩)
          else scanned slot (min v.scanSlot 2) := by
      have hsequence : v.view.sequence = _ := hfound.sequence
      rw [hsequence, Nat.min_eq_left (Nat.le_of_lt hlt), Nat.min_eq_left hlt, scanned, hslot]
    split
    · next hnewer =>
      refine ⟨⟨rfl, rfl, fun d hd => setView_views_of_ne _ _ hd,
        fun d hd => Function.update_of_ne hd .., fun d hd => Function.update_of_ne hd ..⟩,
        ⟨by simp [Service.view, Service.setView], rfl, rfl, rfl⟩, fun slot hslot hfound => ?_⟩
      rw [hnext slot (hslot hlt) hfound, if_pos hnewer]
      exact ⟨congrArg View.valid (setView_views_self _ _),
        congrArg View.sequence (setView_views_self _ _), Function.update_self ..,
        Function.update_self ..⟩
    · next hold =>
      refine ⟨.refl _ _ _ rfl rfl rfl rfl rfl, ⟨rfl, rfl, rfl, rfl⟩, fun slot hslot hfound => ?_⟩
      rw [hnext slot (hslot hlt) hfound, if_neg hold]
      exact hfound
  · rw [if_neg hlt]
    have hskip (slot : ℕ → Option Entry) : scanned slot (min (v.scanSlot + 1) 2) =
        scanned slot (min v.scanSlot 2) := scanned_skip fun h => absurd h hlt
    split
    · refine ⟨⟨rfl, rfl, fun d hd => setView_views_of_ne _ _ hd, fun _ _ => rfl, fun _ _ => rfl⟩,
        ⟨by simp [Service.view, Service.setView], rfl, rfl, rfl⟩, fun slot _ hfound => ?_⟩
      rw [hskip]
      generalize scanned slot (min v.scanSlot 2) = o at hfound
      cases o with
      | none =>
        exact ⟨(congrArg View.valid (setView_views_self _ _)).trans hfound.1,
          (congrArg View.sequence (setView_views_self _ _)).trans hfound.2⟩
      | some found =>
        exact ⟨(congrArg View.valid (setView_views_self _ _)).trans hfound.1,
          (congrArg View.sequence (setView_views_self _ _)).trans hfound.2.1, hfound.2.2⟩
    · refine ⟨.refl _ _ _ rfl rfl rfl rfl rfl, ⟨rfl, rfl, rfl, rfl⟩, fun slot _ hfound => ?_⟩
      rw [hskip]
      exact hfound

/-- **A commit page has been read.** -/
theorem scan_commit (h : Scanning s) (hphase : s.service.phase = .scanCommit)
    (honline : s.service.view.online = true)
    (hpage : s.service.dataPage =
      (s.flash s.device s.service.scanZone).slice s.service.scanOffset s.service.page)
    (hvalid : dataValid s.service.dataPage s.service.scanKind) (i : Input)
    (hdata : i.answer.data = (s.flash s.device s.service.scanZone).slice
      (s.service.scanOffset + s.service.page) s.service.page) :
    PhaseInv ⟨(s.service.answered .success false).transferred i, s.flash, none, s.saves⟩ := by
  have htransferred : (s.service.answered .success false).transferred i =
      if committed s.service.dataPage i.answer.data then
        { s.service.answered .success false with
          commitPage := i.answer.data }.recordFound.scanAdvance i.mounted
      else
        { s.service.answered .success false with
          commitPage := i.answer.data }.scanAdvance i.mounted := by
    simp only [Service.transferred, Service.answered, hphase, true_and]
  -- the record of the slot that is scanned
  have hslot : s.service.scanSlot < 2 →
      slots s.device (s.flash s.device) s.service.scanSlot =
        if committed s.service.dataPage i.answer.data then
          some ⟨readU32Le s.service.dataPage 8, recordDecode s.service.dataPage⟩
        else none := by
    intro hlt
    obtain ⟨hzone, hoffset, hkind⟩ := scan_slot hlt
    rw [hzone, hoffset] at hpage
    rw [hzone, hoffset, Nat.zero_add] at hdata
    rw [hkind, hpage] at hvalid
    rw [hpage, hdata]
    change slotEntry s.service.page (s.flash s.device (s.service.scanSlot + 1)) = _
    rw [slotEntry]
    simp only [hvalid, true_and]
  rw [htransferred]
  generalize hv :
    ({ s.service.answered .success false with commitPage := i.answer.data } : Service) = v
  have hsame : OnlyDevice s.device s.service v := by rw [← hv]; exact { onlyDevice_answered s with }
  have hfields : v.scanSlot = s.service.scanSlot ∧ v.dataPage = s.service.dataPage ∧
      v.ioResult = .success ∧ v.scanFailed = false ∧ v.view.online = true ∧
      v.request.device = s.device := by
    rw [← hv]; exact ⟨rfl, rfl, rfl, h.complete, honline, rfl⟩
  obtain ⟨hscan, hdatap, hresult, hcomplete, hview, hdevice⟩ := hfields
  have hfound : ViewMatches v s.device
      (scanned (slots s.device (s.flash s.device)) (min v.scanSlot 2)) := by
    rw [hscan, ← hv]; exact h.found.congr rfl rfl rfl
  rw [← hscan, ← hdatap] at hslot
  rw [← hdatap]
  split
  · next hcommitted =>
    obtain ⟨hrecord, ⟨honline', hresult', hcomplete', hscan'⟩, hmatches⟩ := recordFound_spec v
    rw [hdevice] at hrecord hmatches
    refine scan_next h.toBeforeDecision ⟨hrecord.request_eq.trans hsame.request_eq,
      hrecord.booting_eq.trans hsame.booting_eq,
      fun d hd => (hrecord.views_eq d hd).trans (hsame.views_eq d hd),
      fun d hd => (hrecord.activeSlot_eq d hd).trans (hsame.activeSlot_eq d hd),
      fun d hd => (hrecord.recovered_eq d hd).trans (hsame.recovered_eq d hd)⟩
      (hcomplete'.trans hcomplete) (honline'.trans hview) (hresult'.trans hresult) ?_ _
    rw [hscan']
    exact hmatches _ (fun hlt => (hslot hlt).trans (if_pos hcommitted)) hfound
  · next hnot =>
    refine scan_next h.toBeforeDecision hsame hcomplete hview hresult ?_ _
    rw [scanned_skip fun hlt => (hslot hlt).trans (if_neg hnot)]
    exact hfound

end scan

end Atoman.DemoStorage
