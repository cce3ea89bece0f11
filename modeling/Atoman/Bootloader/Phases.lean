import Atoman.Bootloader.Submit

/-!
# The phases that act

One lemma for each phase of `process` that does not wait: what it hands to the
storage is safe, and the waiting phase's facts follow from its own.
-/

namespace Atoman.Bootloader
open Lib

variable {reads : Prop} {w : World} {h : History} {env : Env} {st : Storage}

/-- Phases behind the evaluation of the metadata. -/
def BootState.evaluated : BootState → Bool
  | .uninitialized | .configError | .metaARead | .metaAWait | .metaBRead | .metaBWait => false
  | _ => true

/-- The invariant in an evaluated phase. -/
theorem Inv.evaluated (hi : Inv reads w h) {s : BootState} (hs : w.core.state = s)
    (he : s.evaluated = true) : Resident w.flash h.ledger w.core ∧
      EvaluatedOk reads w.flash h.log h.ledger w.core s := by
  have hp := hi.phase
  unfold PhaseOk at hp
  rw [hs] at hp
  cases s <;> first | exact ⟨⟨hi.flash, hp.1⟩, hp.2⟩ | cases he

/-- Exactly the waiting phases expect an operation. -/
theorem isSome_expectedOp (c : Core) : (expectedOp c).isSome = c.state.waiting := by
  unfold expectedOp
  generalize c.state = s
  cases s <;> rfl

/-- Outside the waiting phases nothing is in flight. -/
theorem Inv.idle (hi : Inv reads w h) (hw : w.core.state.waiting = false) : w.pending = none := by
  rw [← isSome_expectedOp, ← hi.pending] at hw
  simpa using hw

theorem process_phase {c : Core} {s : BootState} (hs : c.state = s) (hw : s.waiting = false) :
    process env c = processPhase env c s := by
  subst hs
  exact if_neg (by rw [hw]; decide)

theorem process_waiting {c : Core} (hw : c.state.waiting = true) :
    process env c = storageWaitHandle env c := if_pos hw

theorem metadataRead_outcome (hi : Inv reads w h) (ha : env.submit.accepted = true)
    (hs : w.core.state = .metaARead ∨ w.core.state = .metaBRead) :
    Outcome reads w h env st (process env w.core) := by
  have hp := hi.phase
  unfold PhaseOk at hp
  rcases hs with hs | hs <;> rw [hs] at hp
  · have hproc : process env w.core
        = submitOp env w.core (.read .metaA 0 metadataEncodedSize (.copyBuffer 0)) .metaAWait :=
          process_phase hs rfl
    rw [hproc]
    simp only [Outcome, submitOp, World.answerAll, World.answer, if_pos ha, List.append_nil]
    refine ⟨rfl, ?_, ?_⟩ <;>
      simp only [List.foldl_cons, List.foldl_nil, History.observe, Ledger.observe_read]
    · exact hi.flash
    · exact ⟨hp.buffer, hp.fresh.later (fun _ _ _ h => by cases h), hp.accepted⟩
  · have hproc : process env w.core = submitOp env w.core
        (.read .metaB 0 metadataEncodedSize (.copyBuffer metadataEncodedSize)) .metaBWait :=
          process_phase hs rfl
    rw [hproc]
    simp only [Outcome, submitOp, World.answerAll, World.answer, if_pos ha, List.append_nil]
    refine ⟨rfl, ?_, ?_⟩ <;>
      simp only [List.foldl_cons, List.foldl_nil, History.observe, Ledger.observe_read]
    · exact hi.flash
    · obtain ⟨hb, hf⟩ := hp
      exact ⟨⟨hb.buffer, hb.fresh.later (fun _ _ _ h => by cases h), hb.accepted⟩, hf.buffer,
        hf.logged.trans (List.sublist_append_left _ _)⟩

theorem startupRead_outcome (hi : Inv reads w h) (hs : w.core.state = .startupRead) :
    Outcome reads w h env st (process env w.core) := by
  obtain ⟨hr, hok⟩ := hi.evaluated hs rfl
  have hp := hi.idle (by rw [hs]; rfl)
  have hproc : process env w.core = startupReadSubmit env w.core := process_phase hs rfl
  rw [hproc]
  unfold startupReadSubmit
  split
  rename_i r info _
  split
  · refine Outcome.quiet ?_
    rw [hp]
    exact hr.inv .configError
  · exact submitRead_outcome rfl hr
      ⟨hr.synced.core rfl rfl rfl, hok.later (fun _ _ _ h => nomatch h)⟩ hp

/-- The record of a download blocks a start in direct mode. -/
theorem DownloadOk.blocking {c : Core} (hd : DownloadOk c) {m : Metadata}
    (hm : m.state = c.metadataState) : m.Blocking := by
  rw [hd.state] at hm
  unfold downloadState at hm
  split at hm
  · exact Or.inr (Or.inl hm)
  · exact Or.inl hm

theorem DownloadOk.zone_cases {c : Core} (hd : DownloadOk c) :
    c.downloadZone = .iap ∨ c.downloadZone = .staging ∧ c.metadataState = .downloadStaged := by
  have hz := hd.zone
  have hst := hd.state
  unfold downloadState at hst
  split at hz
  · rename_i hm
    rw [if_pos hm] at hst
    exact Or.inr ⟨hz, hst⟩
  · exact Or.inl hz

/-- An operation of a download session is safe in either mode. -/
theorem submitDownload_safe {flash : Flash} {g : Ledger} {c : Core} (op : FlashOp)
    (hzone : op.zone = c.downloadZone) (hr : Resident flash g c) (hc : Current flash c)
    (hd : DownloadOk c) (htouch : c.downloadZone = .iap → op.touchesIap = true)
    (hother : c.downloadZone = .staging → op.touchesIap = false ∧ op.commitsValid = false) :
    ∃ touched, g.observe (.submitted op) = { g with touched } ∧
      Resident flash { g with touched } c ∧ Safe flash { g with touched } c op := by
  rcases hd.zone_cases with hz | ⟨hz, hst⟩
  · have hr' := hr.touch hc fun m hm => hd.blocking hm
    exact ⟨true, g.observe_touching (htouch hz), hr', hr'.safe_iap (hzone.trans hz)⟩
  · exact ⟨g.touched, g.observe_other (hother hz).1 (hother hz).2, hr,
      hr.safe_staging hc hst (hzone.trans hz)⟩

theorem downloadErase_outcome (hi : Inv reads w h) (hs : w.core.state = .downloadErase) :
    Outcome reads w h env st (process env w.core) := by
  obtain ⟨hr, hc, hd, hf⟩ := hi.evaluated hs rfl
  have hp := hi.idle (by rw [hs]; rfl)
  have hproc : process env w.core = submitOp env w.core
      (.erase w.core.downloadZone 0 w.core.upgradeInfo.fileSize.toNat) .downloadEraseWait :=
        process_phase hs rfl
  rw [hproc]
  obtain ⟨touched, hg, hr', hsafe⟩ := submitDownload_safe
    (.erase w.core.downloadZone 0 w.core.upgradeInfo.fileSize.toNat) rfl hr hc hd
    (fun hz => by rw [hz]; rfl) (fun hz => by rw [hz]; exact ⟨rfl, rfl⟩)
  refine submitOp_outcome rfl ?_ ?_ ?_ hp <;> rw [hg]
  · exact hr'.zones
  · exact ⟨hr'.synced.core rfl rfl rfl, hc, { hd with }, { hf with }⟩
  · exact hsafe

/-- An installation's record blocks a start. -/
theorem InstallOk.blocking {flash : Flash} {g : Ledger} {c : Core} (hk : InstallOk flash g c)
    {m : Metadata} (hm : m.state = c.metadataState) : m.Blocking := by
  rcases hk.state with hst | hst <;> rw [hst] at hm
  · exact Or.inr (Or.inr (Or.inl hm))
  · exact Or.inr (Or.inr (Or.inr hm))

theorem copyErase_outcome (hi : Inv reads w h) (hs : w.core.state = .copyErase) :
    Outcome reads w h env st (process env w.core) := by
  obtain ⟨hr, hc, hk⟩ := hi.evaluated hs rfl
  have hp := hi.idle (by rw [hs]; rfl)
  have hproc : process env w.core = submitOp env w.core
      (.erase .iap 0 w.core.upgradeInfo.fileSize.toNat) .copyEraseWait := process_phase hs rfl
  rw [hproc]
  have hb : ∀ m : Metadata, m.state = w.core.metadataState → m.Blocking :=
    fun m hm => hk.blocking hm
  exact submitTouching_outcome rfl rfl rfl hr hc hb
    ⟨(hr.touch hc hb).synced.core rfl rfl rfl, hc, { hk with }⟩ hp

/-- The next chunk is not empty and stays inside the image. -/
theorem chunkLength_spec {c : Core} {offset : UInt32}
    (ho : offset.toNat < c.upgradeInfo.fileSize.toNat) (hb : 84 ≤ c.config.copyBufferSize) :
    0 < (chunkLength c offset).toNat ∧
      offset.toNat + (chunkLength c offset).toNat ≤ c.upgradeInfo.fileSize.toNat := by
  have hsub : (c.upgradeInfo.fileSize - offset).toNat
      = c.upgradeInfo.fileSize.toNat - offset.toNat :=
    UInt32.toNat_sub_of_le _ _ (UInt32.le_iff_toNat_le.mpr (by omega))
  have hb' : 84 ≤ c.config.copyBufferSize.toNat := by simpa using UInt32.le_iff_toNat_le.mp hb
  unfold chunkLength
  simp only
  split
  · omega
  · rename_i hlt
    rw [UInt32.lt_iff_toNat_lt] at hlt
    omega

theorem copyRead_outcome (hi : Inv reads w h) (hs : w.core.state = .copyRead) :
    Outcome reads w h env st (process env w.core) := by
  obtain ⟨hr, hc, hk, hlt, hcopy⟩ := hi.evaluated hs rfl
  have hp := hi.idle (by rw [hs]; rfl)
  have hproc : process env w.core = copyReadSubmit env w.core := process_phase hs rfl
  rw [hproc]
  obtain ⟨hpos, hbound⟩ := chunkLength_spec hlt hr.synced.buffer
  exact submitRead_outcome rfl (hr.core rfl rfl rfl)
    ⟨hr.synced.core rfl rfl rfl, hc, { hk with }, ⟨hpos, hbound⟩, hcopy⟩ hp

theorem copyWrite_outcome (hi : Inv reads w h) (hs : w.core.state = .copyWrite) :
    Outcome reads w h env st (process env w.core) := by
  obtain ⟨hr, hc, hk, hchunk, hcopy, hload⟩ := hi.evaluated hs rfl
  have hp := hi.idle (by rw [hs]; rfl)
  have hproc : process env w.core = submitOp env w.core (.write .iap w.core.copyOffset.toNat
      (w.core.copyBuffer.slice 0 w.core.copyChunkLength.toNat)) .copyWriteWait :=
        process_phase hs rfl
  rw [hproc]
  have hb : ∀ m : Metadata, m.state = w.core.metadataState → m.Blocking :=
    fun m hm => hk.blocking hm
  exact submitTouching_outcome rfl rfl rfl hr hc hb
    ⟨(hr.touch hc hb).synced.core rfl rfl rfl, hc, { hk with }, { hchunk with },
      { hcopy with }, hload⟩ hp

theorem copyVerifyRead_outcome (hi : Inv reads w h) (hs : w.core.state = .copyVerifyRead) :
    Outcome reads w h env st (process env w.core) := by
  obtain ⟨hr, hc, hk, hchunk, hcopy⟩ := hi.evaluated hs rfl
  have hp := hi.idle (by rw [hs]; rfl)
  have hproc : process env w.core = copyVerifyReadSubmit env w.core := process_phase hs rfl
  rw [hproc]
  exact submitRead_outcome rfl hr
    ⟨hr.synced.core rfl rfl rfl, hc, { hk with }, { hchunk with }, hcopy⟩ hp

theorem verifyRead_outcome (hi : Inv reads w h) (hs : w.core.state = .verifyRead) :
    Outcome reads w h env st (process env w.core) := by
  obtain ⟨hr, hc, hu, hinst, hv, hlt⟩ := hi.evaluated hs rfl
  have hp := hi.idle (by rw [hs]; rfl)
  have hproc : process env w.core = submitOp env
      { w.core with copyChunkLength := chunkLength w.core w.core.verifyOffset }
      (.read .iap w.core.verifyOffset.toNat (chunkLength w.core w.core.verifyOffset).toNat
        (.copyBuffer 0)) .verifyReadWait := process_phase hs rfl
  rw [hproc]
  have hbound := (chunkLength_spec hlt hr.synced.buffer).2
  exact submitRead_outcome rfl (hr.core rfl rfl rfl)
    ⟨hr.synced.core rfl rfl rfl, hc, hu, { hinst with },
      { hv.later (Event.quiet_read _ _ _ _) with }, hbound⟩ hp

theorem finalRead_outcome (hi : Inv reads w h) (hs : w.core.state = .finalRead) :
    Outcome reads w h env st (process env w.core) := by
  obtain ⟨hr, hc, hu, hinst, hv⟩ := hi.evaluated hs rfl
  have hp := hi.idle (by rw [hs]; rfl)
  have hproc : process env w.core = finalReadSubmit env w.core := process_phase hs rfl
  rw [hproc]
  exact submitRead_outcome rfl hr
    ⟨hr.synced.core rfl rfl rfl, hc, hu, { hinst with },
      { hv.later (Event.quiet_read _ _ _ _) with }⟩ hp

theorem metadataErase_outcome (hi : Inv reads w h) (hs : w.core.state = .metadataErase) :
    Outcome reads w h env st (process env w.core) := by
  obtain ⟨hr, hc⟩ := hi.evaluated hs rfl
  have hp := hi.idle (by rw [hs]; rfl)
  have hproc : process env w.core = submitOp env w.core
      (.erase w.core.metadataTargetZone 0 metadataEncodedSize) .metadataEraseWait :=
        process_phase hs rfl
  rw [hproc]
  have hne : w.core.metadataTargetZone ≠ .iap := by
    rw [hc.target]; exact (FlashZone.IsCopy.other _).ne_iap
  have hg := h.ledger.observe_erase hne 0 metadataEncodedSize
  refine submitOp_outcome rfl ?_ ?_ ?_ hp <;> rw [hg]
  · exact hr.zones
  · refine ⟨hr.synced.core rfl rfl rfl, ?_⟩
    have hc' := hc.later (e := .submitted (.erase w.core.metadataTargetZone 0 metadataEncodedSize))
      (by
        rintro op ⟨⟩
        generalize w.core.metadataTargetZone = z at hne
        cases z <;> first | rfl | exact absurd rfl hne)
    exact { hc' with next := hc'.next.control _ _ _ _ _ _ _ _ }
  · exact hr.safe_metadataErase hc.target

theorem metadataWrite_outcome (hi : Inv reads w h) (hs : w.core.state = .metadataWrite) :
    Outcome reads w h env st (process env w.core) := by
  obtain ⟨hr, hc, he⟩ := hi.evaluated hs rfl
  have hp := hi.idle (by rw [hs]; rfl)
  have hproc : process env w.core = submitOp env w.core (.write w.core.metadataTargetZone 0
      (w.core.copyBuffer.slice 0 metadataEncodedSize)) .metadataWriteWait := process_phase hs rfl
  rw [hproc]
  have hcopy : w.core.metadataTargetZone.IsCopy := by
    rw [hc.target]; exact FlashZone.IsCopy.other _
  have hg := h.ledger.observe_commit hcopy (metadataCurrent w.core)
  rw [← hc.encoded] at hg
  have hr' := hr.clear (!decide ((metadataCurrent w.core).state = .valid))
  have hc' : CommitOk reads w.flash (h.log ++ [Event.submitted (.write w.core.metadataTargetZone 0
      (w.core.copyBuffer.slice 0 metadataEncodedSize))]) { h.ledger with
        touched := h.ledger.touched && !decide ((metadataCurrent w.core).state = .valid) }
      w.core := by
    have hc' := hc.later (e := .submitted (.write w.core.metadataTargetZone 0
      (w.core.copyBuffer.slice 0 metadataEncodedSize))) (by
        rintro op ⟨⟩
        rcases hcopy with hz | hz <;> rw [hz] <;> rfl)
    exact { hc' with next := hc'.next.touch _ }
  have hvalid : w.core.metadataState = .valid →
      (h.ledger.touched && !decide ((metadataCurrent w.core).state = .valid)) = false := by
    intro hv
    have : (metadataCurrent w.core).state = .valid := hv
    simp [this]
  refine submitOp_outcome rfl ?_ ?_ ?_ hp <;> rw [hg]
  · exact hr'.zones
  · refine ⟨hr'.synced.core rfl rfl rfl, ?_, he, hvalid⟩
    exact { hc' with next := hc'.next.control _ _ _ _ _ _ _ _ }
  · exact hr'.safe_metadataWrite hc' he hvalid

theorem jumpPending_outcome (hi : Inv reads w h) (hs : w.core.state = .jumpPending) :
    Outcome reads w h env st (process env w.core) := by
  obtain ⟨hr, hl⟩ := hi.evaluated hs rfl
  have hp := hi.idle (by rw [hs]; rfl)
  have hproc : process env w.core = jumpStep env w.core := process_phase hs rfl
  rw [hproc]
  unfold jumpStep
  split
  · exact hi
  · split
    · refine Outcome.quiet ?_
      rw [hp]
      exact hr.inv env.reasonClear
    · simp only [Outcome, World.answerAll, World.answer, List.append_nil]
      split
      · rw [hp]
        have hr' : Resident w.flash h.ledger { w.core with jumpCalled := true } :=
          hr.core rfl rfl rfl
        exact hr'.inv env.jump
      · refine ⟨?_, hr.zones, ?_⟩
        · show w.pending = expectedOp { w.core with jumpCalled := true }
          rw [hp, expectedOp]
          simp [hs]
        · have hl' := hl.later (e := .jumped) (fun _ h => by cases h) (fun _ _ _ h => by cases h)
          unfold PhaseOk
          simp only [hs]
          refine ⟨hr.synced.core rfl rfl rfl, hl'.untouched, hl'.evidence, ?_⟩
          rcases hl'.installed with hn | ⟨hin, ht⟩
          · exact Or.inl hn
          · exact Or.inr ⟨{ hin with }, ht⟩

end Atoman.Bootloader
