import Atoman.Bootloader.Phases

/-!
# Starting a commit and evaluating the metadata

A commit may start from a resident core when its record is admissible and the phase
behind it is prepared. The evaluation of the two copies at boot ends in such a
commit, in a resident core, or in a start that the selected record allows.
-/

namespace Atoman.Bootloader
open Lib

variable {reads : Prop} {flash : Flash} {log : List Event} {g : Ledger} {c : Core} {env : Env}

/-! ## Starting a commit -/

/-- The core with a commit under way. -/
def committing (c : Core) (state : MetadataState) (next : BootState) : Core :=
  { c with
    metadataState := state
    metadataNextState := next
    metadataTargetZone := otherCopy c.metadataSourceZone
    copyBuffer := c.copyBuffer.write 0
      (metadataEncode (metadataCurrent { c with metadataState := state }))
    state := .metadataErase
    result := .inProgress }

/-- With the copy buffer `bootloader_init` insists on, encoding cannot fail. -/
theorem metadataCommitStart_eq (hb : 84 ≤ c.config.copyBufferSize) (state : MetadataState)
    (next : BootState) : metadataCommitStart c state next = committing c state next := by
  have hb' : ¬ c.config.copyBufferSize < 42 := by
    rw [UInt32.le_iff_toNat_le] at hb
    rw [UInt32.lt_iff_toNat_lt]
    have h84 : (84 : UInt32).toNat = 84 := rfl
    have h42 : (42 : UInt32).toNat = 42 := rfl
    omega
  simp only [metadataCommitStart, metadataEncodeCurrent, if_neg hb']
  rfl

/-- A commit starts once its record is admissible and the next phase is prepared. -/
theorem Resident.commit (hr : Resident flash g c) (state : MetadataState) (next : BootState)
    (shape : (metadataCurrent { c with metadataState := state }).Installing →
      c.mode = .staged ∧ c.upgradeInfo.fileSize ≠ 0)
    (blocking : (metadataCurrent { c with metadataState := state }).Blocking ∨
      state = .valid ∧ next = .jumpPending)
    (staged : (metadataCurrent { c with metadataState := state }).Installing →
      (flash .staging).slice 0 c.upgradeInfo.fileSize.toNat = g.ended)
    (hnext : NextOk reads flash log g { c with metadataState := state } next) :
    Inv reads ⟨metadataCommitStart c state next, flash, none⟩ ⟨log, g⟩ := by
  rw [metadataCommitStart_eq hr.synced.buffer]
  refine ⟨rfl, hr.zones, hr.synced.core rfl rfl rfl, ?_⟩
  have hencoded : (committing c state next).copyBuffer.slice 0 metadataEncodedSize
      = metadataEncode (metadataCurrent { c with metadataState := state }) := by
    simp only [committing]
    exact Memory.slice_write_of_length (length_metadataEncode _)
  exact ⟨rfl, hencoded, shape, blocking, staged, hnext.control _ _ _ _ _ _ _ _⟩

/-- A commit of a record that keeps the image from being started. -/
theorem InstallOk.commit {next : BootState} (hk : InstallOk flash g c) (hr : Resident flash g c)
    (state : MetadataState) (hstate : state = .installPending ∨ state = .copying)
    (hnext : NextOk reads flash log g { c with metadataState := state } next) :
    Inv reads ⟨metadataCommitStart c state next, flash, none⟩ ⟨log, g⟩ :=
  hr.commit state next (fun _ => ⟨hk.mode, hk.size⟩) (Or.inl (Or.inr (Or.inr hstate)))
    (fun _ => hk.staged) hnext

theorem not_installing_downloadState {mode : UpgradeMode} {m : Metadata}
    (hm : m.state = downloadState mode) : ¬ m.Installing := by
  intro hi
  unfold downloadState at hm
  rcases hi with hi | hi <;> rw [hi] at hm <;> split at hm <;> cases hm

theorem blocking_downloadState {mode : UpgradeMode} {m : Metadata}
    (hm : m.state = downloadState mode) : m.Blocking := by
  unfold downloadState at hm
  split at hm
  · exact Or.inr (Or.inl hm)
  · exact Or.inl hm

/-- The commit around a download. -/
theorem Resident.commitDownload {next : BootState} (hr : Resident flash g c)
    (hnext : NextOk reads flash log g { c with metadataState := downloadState c.mode } next) :
    Inv reads ⟨metadataCommitStart c (downloadState c.mode) next, flash, none⟩ ⟨log, g⟩ := by
  have hm : (metadataCurrent { c with metadataState := downloadState c.mode }).state
      = downloadState c.mode := rfl
  exact hr.commit _ next (fun hi => absurd hi (not_installing_downloadState hm))
    (Or.inl (blocking_downloadState hm)) (fun hi => absurd hi (not_installing_downloadState hm))
    hnext

/-! ## Evaluating the metadata -/

/-- `upgradeBegin` refuses and changes nothing, or starts the commit of a fresh session. -/
theorem upgradeBegin_cases (env : Env) (c : Core) (info : Option UpgradeInfo)
    (mode : Option UpgradeMode) :
    (∃ r, r ≠ .success ∧ upgradeBegin env c info mode = (c, r)) ∨
    ∃ i m, c.state = .waitUpgrade ∧ i.fileSize ≠ 0 ∧ upgradeBegin env c info mode =
      (metadataCommitStart (sessionReset c i m) (downloadState m) .downloadErase, .success) := by
  unfold upgradeBegin
  cases info with
  | none => exact Or.inl ⟨_, by decide, rfl⟩
  | some i =>
    simp only
    by_cases hbusy : c.state ≠ .waitUpgrade ∨ env.beginBusy = true
    · rw [if_pos hbusy]; exact Or.inl ⟨_, by decide, rfl⟩
    · rw [if_neg hbusy]
      cases mode with
      | none => exact Or.inl ⟨_, by decide, rfl⟩
      | some m =>
        simp only
        by_cases harg : i.moduleId ≠ c.config.expectedModuleId ∨ i.fileSize = 0
        · rw [if_pos harg]; exact Or.inl ⟨_, by decide, rfl⟩
        · rw [if_neg harg]
          split
          · rename_i hiap; exact Or.inl ⟨_, hiap, rfl⟩
          · split
            · rename_i hst; exact Or.inl ⟨_, hst.2, rfl⟩
            · refine Or.inr ⟨i, m, ?_, fun hz => harg (Or.inr hz), rfl⟩
              by_contra hst
              exact hbusy (Or.inl hst)

/-- A fresh session starts from any resident core. -/
theorem Resident.session (hr : Resident flash g c) {i : UpgradeInfo} (hi : i.fileSize ≠ 0)
    (mode : UpgradeMode) (ha : g.accepted = []) :
    Inv reads ⟨metadataCommitStart (sessionReset c i mode) (downloadState mode) .downloadErase,
      flash, none⟩ ⟨log, g⟩ := by
  have hr' : Resident flash g (sessionReset c i mode) := hr.core rfl rfl rfl
  exact hr'.commitDownload ⟨⟨rfl, rfl, hi⟩, ⟨rfl, ha⟩⟩

theorem startupDecide_inv (hr : Resident flash g c)
    (hok : c.bootReason = .powerOn → StartupOk log g)
    (ha : g.accepted = []) : Inv reads ⟨startupDecide env c, flash, none⟩ ⟨log, g⟩ := by
  unfold startupDecide
  split
  · rename_i hpower
    exact ⟨rfl, hr.zones, hr.synced.core rfl rfl rfl, hok hpower⟩
  · exact ⟨rfl, hr.zones, hr.synced.core rfl rfl rfl, trivial⟩
  · have hr' : Resident flash g { c with state := .waitUpgrade } := hr.core rfl rfl rfl
    simp only
    split
    · rcases upgradeBegin_cases env { c with state := .waitUpgrade } (some c.startupUpgradeInfo)
        c.config.defaultMode with ⟨r, hne, heq⟩ | ⟨i, m, _, hi, heq⟩ <;> rw [heq]
      · cases r <;> first | exact absurd rfl hne | exact hr'.inv _
      · exact hr'.session hi m ha
    · exact ⟨rfl, hr.zones, hr.synced.core rfl rfl rfl, trivial⟩

/-- The selected record is loaded: the core knows the newest copy. -/
theorem FlashOk.load (hf : FlashOk flash g) (hb : 84 ≤ c.config.copyBufferSize) {m : Metadata}
    {source : FlashZone} (hm : flash.selected = some (m, source)) :
    Resident flash g (metadataLoad c m source) := by
  obtain ⟨hz, hcopy⟩ := Flash.copy_of_selected hm
  refine ⟨hf, hz, ?_, ?_, hb⟩
  · intro r hr
    obtain rfl : m = r := Option.some.inj (hcopy.symm.trans hr)
    exact ⟨rfl, hf.record m source hm⟩
  · intro _
    show flash.copy source ≠ none
    rw [hcopy]; simp

/-- No record at all: the core starts from the defaults. -/
theorem FlashOk.blank (hf : FlashOk flash g) (hb : 84 ≤ c.config.copyBufferSize)
    (hm : flash.selected = none) : Resident flash g
      { c with metadataValid := false, metadataSourceZone := .metaB, metadataSequence := 0 } := by
  have hnone : flash.copy .metaB = none := by
    by_contra h
    exact Flash.selected_ne_none (Or.inr rfl) h hm
  refine ⟨hf, Or.inr rfl, ?_, ?_, hb⟩
  · intro r hr
    rw [hnone] at hr; cases hr
  · intro ht
    exact absurd hm (hf.present ht)

/-- **Evaluation.** A boot that has read both copies faithfully resumes an installation,
stays resident or prepares a start that the metadata allow. -/
theorem metadataStartupEvaluate_inv (hf : FlashOk flash g) (hb : BootingOk log g c)
    (hA : c.copyBuffer.slice 0 metadataEncodedSize = (flash .metaA).slice 0 metadataEncodedSize)
    (hB : c.copyBuffer.slice metadataEncodedSize metadataEncodedSize
      = (flash .metaB).slice 0 metadataEncodedSize)
    (hlog : (metadataReads ((flash .metaA).slice 0 metadataEncodedSize)
      ((flash .metaB).slice 0 metadataEncodedSize)).Sublist log) :
    Inv reads ⟨metadataStartupEvaluate env c, flash, none⟩ ⟨log, g⟩ := by
  have hstart (hall : ∀ m z, flash.selected = some (m, z) → ¬ m.Blocking ∧ m.state ≠ .failed)
      (ht : g.touched = false) : StartupOk log g := ⟨⟨_, _, hlog, hall⟩, ht, hb.fresh⟩
  have hsel : metadataSelect (c.copyBuffer.slice 0 metadataEncodedSize)
      (c.copyBuffer.slice metadataEncodedSize metadataEncodedSize) = flash.selected := by
    rw [hA, hB]; rfl
  unfold metadataStartupEvaluate
  rw [hsel]
  cases hm : flash.selected with
  | none =>
    refine startupDecide_inv (hf.blank hb.buffer hm) (fun _ => hstart ?_ ?_) hb.accepted
    · intro m z hmz
      rw [hm] at hmz; cases hmz
    · by_contra ht
      exact hf.present (by simpa using ht) hm
  | some p =>
    obtain ⟨m, source⟩ := p
    have hr : Resident flash g (metadataLoad c m source) := hf.load hb.buffer hm
    have hrec := hf.record m source hm
    simp only
    by_cases hinst : (m.state = .installPending ∨ m.state = .copying)
        ∧ m.mode = .staged ∧ m.fileSize ≠ 0
    · rw [if_pos hinst]
      by_cases hretry : m.retryCount ≥ 3
      · rw [if_pos hretry]; exact hr.inv _
      · rw [if_neg hretry]
        have hk : InstallOk flash g { metadataLoad c m source with
            metadataRetryCount := (metadataLoad c m source).metadataRetryCount + 1
            copyOffset := 0 } :=
          ⟨hinst.1, hinst.2.1, hinst.2.2, hrec.staged hinst.1⟩
        exact hk.commit (hr.core rfl rfl rfl) .copying (Or.inr rfl)
          ⟨Or.inr rfl, hk.mode, hk.size, hk.staged⟩
    · rw [if_neg hinst]
      by_cases hdown : (m.state = .downloadDirect ∨ m.state = .downloadStaged ∨ m.state = .failed)
          ∧ ((metadataLoad c m source).bootReason ≠ .iapRequest
            ∨ !(metadataLoad c m source).startupUpgradeInfoValid)
      · rw [if_pos hdown]; exact hr.inv _
      · rw [if_neg hdown]
        refine startupDecide_inv hr ?_ hb.accepted
        intro hpower
        have hreason : (metadataLoad c m source).bootReason ≠ .iapRequest := by
          rw [hpower]; decide
        have hstates :
            ¬ (m.state = .downloadDirect ∨ m.state = .downloadStaged ∨ m.state = .failed) :=
          fun h => hdown ⟨h, Or.inl hreason⟩
        have hallow : ¬ m.Blocking := by
          rintro (hd | hd | hi)
          · exact hstates (Or.inl hd)
          · exact hstates (Or.inr (Or.inl hd))
          · exact hinst ⟨hi, hrec.shape hi⟩
        refine hstart ?_ ?_
        · intro m' z hmz
          obtain ⟨rfl, rfl⟩ := Prod.mk.inj (Option.some.inj (hm.symm.trans hmz))
          exact ⟨hallow, fun h => hstates (Or.inr (Or.inr h))⟩
        · by_contra ht
          exact hallow (hrec.blocking (by simpa using ht))

end Atoman.Bootloader
