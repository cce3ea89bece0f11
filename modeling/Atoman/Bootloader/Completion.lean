import Atoman.Bootloader.Startup

/-!
# Completed operations

One lemma for each waiting phase: after the storage has finished the operation and
the core has reacted, the invariant holds again. An operation that failed or was cut
is covered by `waiting_safe`.
-/

namespace Atoman.Bootloader
open Lib

variable {reads : Prop} {w : World} {h : History} {flash flash' : Flash} {log : List Event}
  {g g' : Ledger} {c : Core} {env : Env} {st : Storage}

/-! ## Operations that do not complete -/

/-- **Cut operations.** What an evaluated phase waits for is safe. -/
theorem waiting_safe (hi : Inv reads w h) {op : FlashOp} (hp : w.pending = some op)
    (he : w.core.state.evaluated = true) : Safe w.flash h.ledger w.core op := by
  have hexp : expectedOp w.core = some op := hi.pending ▸ hp
  unfold expectedOp at hexp
  split at hexp
  case h_1 hs => rw [hs] at he; cases he
  case h_2 hs => rw [hs] at he; cases he
  case h_3 hs => cases hexp; exact (hi.evaluated hs rfl).1.safe_read _ _ _ _
  case h_4 hs => cases hexp; exact (hi.evaluated hs rfl).1.safe_read _ _ _ _
  case h_5 hs =>
    cases hexp
    obtain ⟨hr, hc, hd, _⟩ := hi.evaluated hs rfl
    rcases hd.zone_cases with hz | ⟨hz, hst⟩
    · exact hr.safe_iap hz
    · exact hr.safe_staging hc hst hz
  case h_6 hs =>
    cases hexp
    obtain ⟨hr, hc, hd, _⟩ := hi.evaluated hs rfl
    rcases hd.zone_cases with hz | ⟨hz, hst⟩
    · exact hr.safe_iap hz
    · exact hr.safe_staging hc hst hz
  case h_7 hs => cases hexp; exact (hi.evaluated hs rfl).1.safe_iap rfl
  case h_8 hs => cases hexp; exact (hi.evaluated hs rfl).1.safe_read _ _ _ _
  case h_9 hs => cases hexp; exact (hi.evaluated hs rfl).1.safe_iap rfl
  case h_10 hs => cases hexp; exact (hi.evaluated hs rfl).1.safe_read _ _ _ _
  case h_11 hs => cases hexp; exact (hi.evaluated hs rfl).1.safe_read _ _ _ _
  case h_12 hs =>
    cases hexp
    obtain ⟨hr, hc⟩ := hi.evaluated hs rfl
    exact hr.safe_metadataErase hc.target
  case h_13 hs =>
    cases hexp
    obtain ⟨hr, hc, he, hv⟩ := hi.evaluated hs rfl
    exact hr.safe_metadataWrite hc he hv
  case h_14 => cases hexp

/-! ## Completions -/

/-- The world in which the core reacts to its completed operation. -/
def World.completed (w : World) (op : FlashOp) (st : Storage) : World :=
  ⟨op.deliver st.delivered w.core, op.apply op.size w.flash, none⟩

/-- The history that has seen the completion. -/
def History.completed (h : History) (w : World) (op : FlashOp) (st : Storage) : History :=
  h.observe (op.doneEvent (op.deliver st.delivered w.core))

/-- What a waiting phase owes: the invariant after its operation has completed. -/
def Completes (reads : Prop) (w : World) (h : History) (env : Env) (st : Storage)
    (op : FlashOp) : Prop :=
  Outcome reads (w.completed op st) (h.completed w op st) env st
    (storageDone env (w.completed op st).core)

theorem Inv.op (hi : Inv reads w h) {op : FlashOp} (hp : w.pending = some op) :
    expectedOp w.core = some op := hi.pending ▸ hp

theorem History.completed_read {s : BootState} (hs : w.core.state = s) (zone : FlashZone)
    (offset length : ℕ) (target : ReadTarget) :
    h.completed w (.read zone offset length target) st = h.observe (.readDone s zone offset
      (target.contents (w.completed (.read zone offset length target) st).core length)) := by
  subst hs
  cases target <;> rfl

/-- The buffer of a completed read of the whole length. -/
theorem deliver_copyBuffer (c : Core) (zone : FlashZone) (offset length at' : ℕ)
    {bytes : List UInt8} (hlen : bytes.length = length) :
    (FlashOp.read zone offset length (.copyBuffer at')).deliver bytes c
      = { c with copyBuffer := c.copyBuffer.write at' bytes } := by
  simp only [FlashOp.deliver]
  rw [List.take_of_length_le (Nat.le_of_eq hlen)]

theorem metaA_completes (hi : Inv reads w h) (hs : w.core.state = .metaAWait)
    (hf : st.delivered = (w.flash .metaA).slice 0 metadataEncodedSize) :
    Completes reads w h env st (.read .metaA 0 metadataEncodedSize (.copyBuffer 0)) := by
  have hp := hi.phase
  unfold PhaseOk at hp
  rw [hs] at hp
  have hlen : st.delivered.length = metadataEncodedSize := by rw [hf, Memory.length_slice]
  have hbuf : (w.core.copyBuffer.write 0 st.delivered).slice 0 metadataEncodedSize
      = (w.flash .metaA).slice 0 metadataEncodedSize := by
    rw [Memory.slice_write_of_length hlen, hf]
  unfold Completes
  rw [History.completed_read hs]
  have hw : w.completed (.read .metaA 0 metadataEncodedSize (.copyBuffer 0)) st
      = ⟨{ w.core with copyBuffer := w.core.copyBuffer.write 0 st.delivered }, w.flash, none⟩ := by
    rw [World.completed, deliver_copyBuffer _ _ _ _ _ hlen]; rfl
  have hdone : storageDone env { w.core with copyBuffer := w.core.copyBuffer.write 0 st.delivered }
      = ({ w.core with
          copyBuffer := w.core.copyBuffer.write 0 st.delivered, state := .metaBRead }, []) := by
    simp [storageDone, hs]
  rw [hw, hdone]
  refine Outcome.quiet ⟨rfl, hi.flash, ⟨hp.buffer, ?_, hp.accepted⟩, hbuf, ?_⟩
  · exact hp.fresh.later (fun _ _ _ h => nomatch h)
  · simp only [History.observe, ReadTarget.contents, hbuf]
    exact List.sublist_append_right _ _

theorem metaB_completes (hi : Inv reads w h) (hs : w.core.state = .metaBWait)
    (hf : st.delivered = (w.flash .metaB).slice 0 metadataEncodedSize) :
    Completes reads w h env st
      (.read .metaB 0 metadataEncodedSize (.copyBuffer metadataEncodedSize)) := by
  have hp := hi.phase
  unfold PhaseOk at hp
  rw [hs] at hp
  obtain ⟨hb, hfirst⟩ := hp
  have hlen : st.delivered.length = metadataEncodedSize := by rw [hf, Memory.length_slice]
  have hA : (w.core.copyBuffer.write metadataEncodedSize st.delivered).slice 0 metadataEncodedSize
      = (w.flash .metaA).slice 0 metadataEncodedSize := by
    rw [Memory.slice_write_disjoint _ _ (Or.inl (by simp)), hfirst.buffer]
  have hB : (w.core.copyBuffer.write metadataEncodedSize st.delivered).slice metadataEncodedSize
      metadataEncodedSize = (w.flash .metaB).slice 0 metadataEncodedSize := by
    rw [Memory.slice_write_of_length hlen, hf]
  unfold Completes
  rw [History.completed_read hs]
  have hw : w.completed (.read .metaB 0 metadataEncodedSize (.copyBuffer metadataEncodedSize)) st
      = ⟨{ w.core with copyBuffer := w.core.copyBuffer.write metadataEncodedSize st.delivered },
        w.flash, none⟩ := by
    rw [World.completed, deliver_copyBuffer _ _ _ _ _ hlen]; rfl
  rw [hw]
  simp only [storageDone, hs, ReadTarget.contents, hB]
  refine Outcome.quiet (metadataStartupEvaluate_inv hi.flash ⟨hb.buffer, ?_, hb.accepted⟩ hA hB ?_)
  · exact hb.fresh.later (fun _ _ _ h => nomatch h)
  · exact hfirst.logged.append (List.Sublist.refl _)

/-! ### Headers -/

/-- What a header check leads to: resident, or on with an accepted header. -/
theorem installedHeaderEvaluate_outcome {finalImage : Bool} (hr : Resident w.flash h.ledger c)
    (hp : w.pending = none)
    (hok : ∀ size, (c.upgradeInfo.fileSize ≠ 0 → size = c.upgradeInfo.fileSize) →
      Inv reads
        ⟨if finalImage then
            metadataCommitStart { c with
              upgradeInfo := { c.upgradeInfo with fileSize := size }, metadataRetryCount := 0 }
              .valid .jumpPending
          else { c with
            upgradeInfo := { c.upgradeInfo with fileSize := size }
            state := .jumpPending, result := .success }, w.flash, none⟩
        (h.observe (.headerChecked (c.packetBuffer.slice 0 c.config.imageHeaderLength.toNat)
          size true))) :
    Outcome reads w h env st (installedHeaderEvaluate env c finalImage) := by
  have hfix : ∃ size, (c.upgradeInfo.fileSize ≠ 0 → size = c.upgradeInfo.fileSize) ∧
      (if c.upgradeInfo.fileSize = 0 then
        { c with upgradeInfo := { c.upgradeInfo with fileSize := (env.zoneInfo .iap).2.size } }
        else c) = { c with upgradeInfo := { c.upgradeInfo with fileSize := size } } := by
    by_cases hz : c.upgradeInfo.fileSize = 0
    · exact ⟨(env.zoneInfo .iap).2.size, fun h => absurd hz h, if_pos hz⟩
    · exact ⟨c.upgradeInfo.fileSize, fun _ => rfl, if_neg hz⟩
  obtain ⟨size, hsize, heq⟩ := hfix
  have hr' : Resident w.flash h.ledger
      { c with upgradeInfo := { c.upgradeInfo with fileSize := size } } := hr.core rfl rfl rfl
  unfold installedHeaderEvaluate
  simp only
  split
  · refine Outcome.quiet ?_
    rw [hp]
    exact hr.inv _
  · rw [heq]
    split
    · simp only [Outcome, World.answerAll, World.answer, List.append_nil, hp]
      exact hr'.inv _
    · rename_i hbad
      have hval :
          (decide ((env.headerCheck (c.packetBuffer.slice 0 c.config.imageHeaderLength.toNat)
              size).1 = .success) &&
            (env.headerCheck (c.packetBuffer.slice 0 c.config.imageHeaderLength.toNat)
              size).2) = true := by
        simpa using hbad
      have hinv := hok size hsize
      split
      · rename_i hfin
        rw [if_pos hfin] at hinv
        simp only [Outcome, World.answerAll, World.answer, List.append_nil, hp, hval]
        exact hinv
      · rename_i hfin
        rw [if_neg hfin] at hinv
        simp only [Outcome, World.answerAll, World.answer, List.append_nil, hp, hval]
        exact hinv

theorem startup_completes (hi : Inv reads w h) (hs : w.core.state = .startupWait) :
    Completes reads w h env st
      (.read .iap 0 w.core.config.imageHeaderLength.toNat .packetBuffer) := by
  obtain ⟨hr, hok⟩ := hi.evaluated hs rfl
  unfold Completes
  rw [History.completed_read hs]
  simp only [World.completed, FlashOp.deliver, storageDone, hs, ReadTarget.contents]
  refine installedHeaderEvaluate_outcome (hr.core rfl rfl rfl) rfl ?_
  intro size _
  refine ⟨rfl, hi.flash, hr.synced.core rfl rfl rfl, hok.untouched, ?_, ?_⟩
  · exact Or.inl (hok.chosen.evidence _ size)
  · exact Or.inl ((hok.fresh.later (by rintro _ _ _ ⟨⟩)).later (by rintro _ _ _ ⟨⟩))

theorem finalRead_completes (hi : Inv reads w h) (hs : w.core.state = .finalReadWait) :
    Completes reads w h env st
      (.read .iap 0 w.core.config.imageHeaderLength.toNat .packetBuffer) := by
  obtain ⟨hr, _, _, hinst, hv⟩ := hi.evaluated hs rfl
  unfold Completes
  rw [History.completed_read hs]
  simp only [World.completed, FlashOp.deliver, storageDone, hs, ReadTarget.contents]
  refine installedHeaderEvaluate_outcome (hr.core rfl rfl rfl) rfl ?_
  intro size hsize
  obtain rfl := hsize hinst.size
  rw [if_pos rfl]
  have hvalid (m : Metadata) (hm : m.state = .valid) : ¬ m.Installing := by
    rintro (hi | hi) <;> rw [hm] at hi <;> cases hi
  refine Resident.commit ?_ .valid .jumpPending ?_ (Or.inr ⟨rfl, rfl⟩) ?_ ?_
  · exact hr.core rfl rfl rfl
  · exact fun hi => absurd hi (hvalid _ rfl)
  · exact fun hi => absurd hi (hvalid _ rfl)
  · have hcert := hv.header ((w.core.packetBuffer.write 0 (st.delivered.take
      w.core.config.imageHeaderLength.toNat)).slice 0 w.core.config.imageHeaderLength.toNat)
    exact ⟨rfl, { hinst with }, { hcert with }⟩

/-! ### Frames for the rest -/

theorem RecordOk.ledger {m : Metadata} (hm : RecordOk flash g m) (g' : Ledger)
    (ht : g'.touched = g.touched)
    (he : g'.ended = g.ended) : RecordOk flash g' m :=
  ⟨hm.shape, fun h => hm.blocking (ht ▸ h), fun h => he ▸ hm.staged h⟩

theorem FlashOk.ledger (hf : FlashOk flash g) (g' : Ledger) (ht : g'.touched = g.touched)
    (he : g'.ended = g.ended) : FlashOk flash g' :=
  ⟨fun m z hm => (hf.record m z hm).ledger g' ht he, fun h => hf.present (ht ▸ h)⟩

theorem Resident.ledger (hr : Resident flash g c) (g' : Ledger) (ht : g'.touched = g.touched)
    (he : g'.ended = g.ended) : Resident flash g' c := by
  refine ⟨hr.zones.ledger g' ht he, hr.synced.source, ?_, fun h => hr.synced.present (ht ▸ h),
    hr.synced.buffer⟩
  intro r hm
  exact ⟨(hr.synced.record r hm).1, (hr.synced.record r hm).2.ledger g' ht he⟩

/-- The newest record is the same when both copies are. -/
theorem Current.frame (hc : Current flash c)
    (hcopy : ∀ z : FlashZone, z.IsCopy → flash'.copy z = flash.copy z)
    (hsource : c.metadataSourceZone.IsCopy) : Current flash' c := by
  obtain ⟨r, hr, hstate, hsel⟩ := hc
  exact ⟨r, by rw [hcopy _ hsource, hr], hstate, by rw [Flash.selected_congr hcopy, hsel]⟩

theorem Current.apply (hc : Current flash c) (op : FlashOp)
    (hz : op.zone = .iap ∨ op.zone = .staging) (hsource : c.metadataSourceZone.IsCopy) (k : ℕ) :
    Current (op.apply k flash) c :=
  hc.frame (fun _ h => Flash.copy_apply_of_ne (FlashOp.zone_ne_copy hz h) k flash) hsource

/-- A download session works on the IAP region or on staging. -/
theorem DownloadOk.outside (hd : DownloadOk c) :
    c.downloadZone = .iap ∨ c.downloadZone = .staging := by
  rcases hd.zone_cases with h | h
  · exact Or.inl h
  · exact Or.inr h.1

theorem FlashOp.apply_staging {op : FlashOp} (hz : op.zone = .iap) (k : ℕ) (flash : Flash) :
    op.apply k flash .staging = flash .staging := FlashOp.apply_of_ne (by rw [hz]; decide) k flash

/-! ### Downloads -/

theorem downloadErase_completes (hi : Inv reads w h) (hs : w.core.state = .downloadEraseWait) :
    Completes reads w h env st
      (.erase w.core.downloadZone 0 w.core.upgradeInfo.fileSize.toNat) := by
  obtain ⟨hr, _, hd, hf⟩ := hi.evaluated hs rfl
  have hp : w.pending = some (.erase w.core.downloadZone 0 w.core.upgradeInfo.fileSize.toNat) := by
    rw [hi.pending, expectedOp]; simp [hs]
  have hsafe := waiting_safe hi hp (by rw [hs]; rfl)
    (FlashOp.erase w.core.downloadZone 0 w.core.upgradeInfo.fileSize.toNat).size
  unfold Completes History.completed
  simp only [World.completed, FlashOp.deliver, storageDone, hs, FlashOp.doneEvent]
  refine Outcome.quiet
    (Resident.commitDownload (hsafe.ledger _ ?_ ?_) ⟨⟨rfl, hd.zone, hd.size⟩, ?_⟩)
  · cases w.core.downloadZone <;> rfl
  · cases w.core.downloadZone <;> rfl
  · have hlen : w.core.receivedLength.toNat = 0 := by rw [hf.length]; rfl
    refine ⟨⟨?_, ?_, ?_⟩, ?_⟩
    · show w.core.receivedLength.toNat ≤ _
      omega
    · intro hz
      show Tiles 0 (Ledger.observe _ _).written w.core.receivedLength.toNat
      rw [show w.core.downloadZone = .iap from hz, hlen]
      rfl
    · intro hz
      rw [show w.core.downloadZone = .iap from hz]
      rfl
    · show Memory.slice _ 0 w.core.receivedLength.toNat = (Ledger.observe _ _).accepted
      rw [hlen]
      have ha := hf.accepted
      cases w.core.downloadZone <;> exact ha.symm

/-- The footer window is all that `footerTailUpdate` touches. -/
theorem footerTailUpdate_eq (c : Core) (data : List UInt8) : ∃ b n,
    footerTailUpdate c data = { c with footerBuffer := b, footerLength := n } := by
  unfold footerTailUpdate
  split
  · exact ⟨_, _, rfl⟩
  · exact ⟨_, _, rfl⟩

theorem packetWrite_completes (hi : Inv reads w h) (hs : w.core.state = .packetWriteWait) :
    Completes reads w h env st (.write w.core.downloadZone w.core.pendingPacketOffset.toNat
      (w.core.packetBuffer.slice 0 w.core.pendingPacketLength.toNat)) := by
  obtain ⟨hr, hc, hd, hpk⟩ := hi.evaluated hs rfl
  have hp : w.pending = some (.write w.core.downloadZone w.core.pendingPacketOffset.toNat
      (w.core.packetBuffer.slice 0 w.core.pendingPacketLength.toNat)) := by
    rw [hi.pending, expectedOp]; simp [hs]
  have hsafe := waiting_safe hi hp (by rw [hs]; rfl) (w.core.packetBuffer.slice 0
    w.core.pendingPacketLength.toNat).length
  have hcur := hc.apply (.write w.core.downloadZone w.core.pendingPacketOffset.toNat
    (w.core.packetBuffer.slice 0 w.core.pendingPacketLength.toNat)) hd.outside hr.synced.source
    (w.core.packetBuffer.slice 0 w.core.pendingPacketLength.toNat).length
  have hoff : w.core.pendingPacketOffset.toNat = w.core.receivedLength.toNat := by rw [hpk.offset]
  have hsum : (w.core.receivedLength + w.core.pendingPacketLength).toNat
      = w.core.receivedLength.toNat + w.core.pendingPacketLength.toNat := by
    rw [UInt32.toNat_add, Nat.mod_eq_of_lt]
    exact Nat.lt_of_le_of_lt hpk.bound w.core.upgradeInfo.fileSize.toNat_lt
  have hstored : ((FlashOp.write w.core.downloadZone w.core.pendingPacketOffset.toNat
      (w.core.packetBuffer.slice 0 w.core.pendingPacketLength.toNat)).apply
      (w.core.packetBuffer.slice 0 w.core.pendingPacketLength.toNat).length w.flash
      w.core.downloadZone).slice 0 (w.core.receivedLength + w.core.pendingPacketLength).toNat
      = h.ledger.accepted := by
    have hext := Memory.slice_write_extend
      (w.core.packetBuffer.slice 0 w.core.pendingPacketLength.toNat)
      (show (w.flash w.core.downloadZone).slice 0 w.core.receivedLength.toNat = _ from rfl)
    rw [Memory.length_slice, Nat.zero_add] at hext
    rw [hsum, FlashOp.apply_write_same, List.take_of_length_le (Nat.le_refl _), hoff, hext,
      hpk.accepted]
  obtain ⟨b, n, hfoot⟩ := footerTailUpdate_eq w.core
    (w.core.packetBuffer.slice 0 w.core.pendingPacketLength.toNat)
  unfold Completes History.completed
  simp only [World.completed, FlashOp.deliver, storageDone, hs, FlashOp.doneEvent, packetWriteDone,
    hfoot]
  have hr' := hsafe.ledger (h.ledger.observe (.writeDone .packetWriteWait w.core.downloadZone
      w.core.pendingPacketOffset.toNat (w.core.packetBuffer.slice 0
        w.core.pendingPacketLength.toNat)))
    (by cases w.core.downloadZone <;> rfl) (by cases w.core.downloadZone <;> rfl)
  refine Outcome.quiet ⟨rfl, hr'.zones, hr'.synced.core rfl rfl rfl,
    hcur, ⟨hd.state, hd.zone, hd.size⟩, ⟨?_, ?_, ?_⟩, ?_⟩
  · show (w.core.receivedLength + w.core.pendingPacketLength).toNat ≤ _
    rw [hsum]; exact hpk.bound
  · intro hz
    have hz' : w.core.downloadZone = .iap := hz
    show Tiles 0 (Ledger.observe _ _).written
      (w.core.receivedLength + w.core.pendingPacketLength).toNat
    rw [hsum, hz', hoff]
    simpa [Ledger.observe] using
      (hpk.progress.written hz').append (n := w.core.pendingPacketLength.toNat)
  · intro hz
    have hz' : w.core.downloadZone = .iap := hz
    rw [hz']
    exact hpk.progress.unread hz'
  · refine hstored.trans ?_
    cases w.core.downloadZone <;> rfl

/-! ### Copying -/

theorem copyErase_completes (hi : Inv reads w h) (hs : w.core.state = .copyEraseWait) :
    Completes reads w h env st (.erase .iap 0 w.core.upgradeInfo.fileSize.toNat) := by
  obtain ⟨hr, hc, hk⟩ := hi.evaluated hs rfl
  have hp : w.pending = some (.erase .iap 0 w.core.upgradeInfo.fileSize.toNat) := by
    rw [hi.pending, expectedOp]; simp [hs]
  have hr' := waiting_safe hi hp (by rw [hs]; rfl) w.core.upgradeInfo.fileSize.toNat
  have hcur := hc.apply (.erase .iap 0 w.core.upgradeInfo.fileSize.toNat) (Or.inl rfl)
    hr.synced.source w.core.upgradeInfo.fileSize.toNat
  unfold Completes History.completed
  simp only [World.completed, FlashOp.deliver, storageDone, hs, FlashOp.doneEvent]
  have hr'' := hr'.ledger (h.ledger.observe (.eraseDone .copyEraseWait .iap 0
    w.core.upgradeInfo.fileSize.toNat)) rfl rfl
  have hsize : 0 < w.core.upgradeInfo.fileSize.toNat :=
    Nat.pos_of_ne_zero fun hz => hk.size (UInt32.toNat_inj.mp hz)
  have hstaged : ((FlashOp.erase .iap 0 w.core.upgradeInfo.fileSize.toNat).apply
      w.core.upgradeInfo.fileSize.toNat w.flash .staging).slice 0
      w.core.upgradeInfo.fileSize.toNat = h.ledger.ended := by
    rw [FlashOp.apply_staging rfl, hk.staged]
  exact Outcome.quiet ⟨rfl, hr''.zones, hr''.synced.core rfl rfl rfl, hcur,
    ⟨hk.state, hk.mode, hk.size, hstaged⟩, hsize, ⟨fun _ => rfl, rfl, rfl, rfl⟩⟩

/-- The staged image has the length of the record. -/
theorem InstallOk.length (hk : InstallOk flash g c) :
    g.ended.length = c.upgradeInfo.fileSize.toNat := by
  rw [← hk.staged, Memory.length_slice]

theorem copyRead_completes (hi : Inv reads w h) (hs : w.core.state = .copyReadWait)
    (hf : reads → st.delivered = (w.flash .staging).slice w.core.copyOffset.toNat
      w.core.copyChunkLength.toNat) :
    Completes reads w h env st (.read .staging w.core.copyOffset.toNat
      w.core.copyChunkLength.toNat (.copyBuffer 0)) := by
  obtain ⟨hr, hc, hk, hchunk, hcopy⟩ := hi.evaluated hs rfl
  unfold Completes
  rw [History.completed_read hs]
  simp only [World.completed, FlashOp.deliver, storageDone, hs, ReadTarget.contents]
  refine Outcome.quiet ⟨rfl, hi.flash, hr.synced.core rfl rfl rfl, hc, { hk with },
    { hchunk with }, { hcopy with }, ?_⟩
  intro hreads
  have hlen : (st.delivered.take w.core.copyChunkLength.toNat).length
      = w.core.copyChunkLength.toNat := by
    rw [hf hreads]; simp
  show (w.core.copyBuffer.write 0 (st.delivered.take w.core.copyChunkLength.toNat)).slice 0
    w.core.copyChunkLength.toNat = (h.ledger.ended.drop w.core.copyOffset.toNat).take
      w.core.copyChunkLength.toNat
  rw [Memory.slice_write_of_length hlen, List.take_of_length_le (by rw [hf hreads]; simp),
    hf hreads]
  simpa using Memory.slice_inside hk.staged hchunk.bound

theorem copyWrite_completes (hi : Inv reads w h) (hs : w.core.state = .copyWriteWait) :
    Completes reads w h env st (.write .iap w.core.copyOffset.toNat
      (w.core.copyBuffer.slice 0 w.core.copyChunkLength.toNat)) := by
  obtain ⟨hr, hc, hk, hchunk, hcopy, hload⟩ := hi.evaluated hs rfl
  have hp : w.pending = some (.write .iap w.core.copyOffset.toNat
      (w.core.copyBuffer.slice 0 w.core.copyChunkLength.toNat)) := by
    rw [hi.pending, expectedOp]; simp [hs]
  have hr' := waiting_safe hi hp (by rw [hs]; rfl)
    (w.core.copyBuffer.slice 0 w.core.copyChunkLength.toNat).length
  have hcur := hc.apply (.write .iap w.core.copyOffset.toNat
    (w.core.copyBuffer.slice 0 w.core.copyChunkLength.toNat)) (Or.inl rfl) hr.synced.source
    (w.core.copyBuffer.slice 0 w.core.copyChunkLength.toNat).length
  have hstaged : ((FlashOp.write .iap w.core.copyOffset.toNat
      (w.core.copyBuffer.slice 0 w.core.copyChunkLength.toNat)).apply
      (w.core.copyBuffer.slice 0 w.core.copyChunkLength.toNat).length w.flash .staging).slice 0
      w.core.upgradeInfo.fileSize.toNat = h.ledger.ended := by
    rw [FlashOp.apply_staging rfl, hk.staged]
  have hcopied (hreads : reads) : ((FlashOp.write .iap w.core.copyOffset.toNat
      (w.core.copyBuffer.slice 0 w.core.copyChunkLength.toNat)).apply
      (w.core.copyBuffer.slice 0 w.core.copyChunkLength.toNat).length w.flash .iap).slice 0
      (w.core.copyOffset.toNat + w.core.copyChunkLength.toNat)
      = h.ledger.ended.take (w.core.copyOffset.toNat + w.core.copyChunkLength.toNat) := by
    have hext := Memory.slice_write_extend (w.core.copyBuffer.slice 0
      w.core.copyChunkLength.toNat) (hcopy.copied hreads)
    rw [Memory.length_slice, Nat.zero_add] at hext
    rw [FlashOp.apply_write_same, List.take_of_length_le (Nat.le_refl _), hext, hload hreads,
      List.take_add]
  unfold Completes History.completed
  simp only [World.completed, FlashOp.deliver, storageDone, hs, FlashOp.doneEvent]
  have hr'' := hr'.ledger (h.ledger.observe (.writeDone .copyWriteWait .iap
    w.core.copyOffset.toNat (w.core.copyBuffer.slice 0 w.core.copyChunkLength.toNat))) rfl rfl
  refine Outcome.quiet ⟨rfl, hr''.zones, hr''.synced.core rfl rfl rfl, hcur,
    ⟨hk.state, hk.mode, hk.size, hstaged⟩, ⟨hchunk.pos, hchunk.bound⟩, hcopied, ?_,
    hcopy.compared, hcopy.unread⟩
  show Tiles 0 (h.ledger.written ++ [(w.core.copyOffset.toNat,
    (w.core.copyBuffer.slice 0 w.core.copyChunkLength.toNat).length)]) _
  rw [Memory.length_slice]
  exact hcopy.written.append

/-- The next offset after a chunk. -/
theorem ChunkOk.next (hchunk : ChunkOk c) : (c.copyOffset + c.copyChunkLength).toNat
    = c.copyOffset.toNat + c.copyChunkLength.toNat := by
  rw [UInt32.toNat_add, Nat.mod_eq_of_lt]
  exact Nat.lt_of_le_of_lt hchunk.bound c.upgradeInfo.fileSize.toNat_lt

theorem copyVerifyRead_completes (hi : Inv reads w h) (hs : w.core.state = .copyVerifyReadWait) :
    Completes reads w h env st (.read .iap w.core.copyOffset.toNat
      w.core.copyChunkLength.toNat (.copyBuffer 0)) := by
  obtain ⟨hr, _, hk, hchunk, hcopy⟩ := hi.evaluated hs rfl
  unfold Completes
  rw [History.completed_read hs]
  simp only [World.completed, FlashOp.deliver, storageDone, hs, ReadTarget.contents]
  refine Outcome.quiet ?_
  generalize hbuf : w.core.copyBuffer.write 0 (st.delivered.take w.core.copyChunkLength.toNat)
    = buffer
  have hnext := hchunk.next
  have hcmp : Tiles 0 (h.ledger.compared ++ [(w.core.copyOffset.toNat,
      (buffer.slice 0 w.core.copyChunkLength.toNat).length)])
      (w.core.copyOffset.toNat + w.core.copyChunkLength.toNat) := by
    rw [Memory.length_slice]
    exact hcopy.compared.append
  have hr' : Resident w.flash (h.ledger.observe (.readDone .copyVerifyReadWait .iap
      w.core.copyOffset.toNat (buffer.slice 0 w.core.copyChunkLength.toNat))) w.core :=
    hr.ledger _ rfl rfl
  unfold copyVerifyDone
  split
  · refine Resident.inv ?_ .imageInvalid
    exact hr'.core rfl rfl rfl
  · simp only
    have hcopied : CopyOk reads w.flash (h.ledger.observe (.readDone .copyVerifyReadWait .iap
        w.core.copyOffset.toNat (buffer.slice 0 w.core.copyChunkLength.toNat)))
        (w.core.copyOffset.toNat + w.core.copyChunkLength.toNat)
        (w.core.copyOffset.toNat + w.core.copyChunkLength.toNat) :=
      ⟨hcopy.copied, hcopy.written, hcmp, hcopy.unread⟩
    split
    · rename_i hend
      rw [ge_iff_le, UInt32.le_iff_toNat_le, hnext] at hend
      have hfull : w.core.copyOffset.toNat + w.core.copyChunkLength.toNat
          = w.core.upgradeInfo.fileSize.toNat := Nat.le_antisymm hchunk.bound hend
      rw [hfull] at hcopied
      have hk' : InstallOk w.flash (h.ledger.observe (.readDone .copyVerifyReadWait .iap
          w.core.copyOffset.toNat (buffer.slice 0 w.core.copyChunkLength.toNat)))
          { w.core with
            copyBuffer := buffer, copyOffset := w.core.copyOffset + w.core.copyChunkLength
            copyChunkLength := 0, verifyOffset := 0, verifyCrc := w.core.config.crc16Init } :=
        { hk with }
      refine hk'.commit (hr'.core rfl rfl rfl) .copying (Or.inr rfl)
        ⟨Or.inr (Or.inr rfl), ⟨hk.length, ?_, hcopied.written, fun _ => hcopied.compared, hk.size⟩,
          ⟨Nat.zero_le _, ?_, [], Undisturbed.nil _, rfl, rfl⟩, ?_⟩
      · intro hreads
        exact (hcopied.copied hreads).trans (List.take_of_length_le (Nat.le_of_eq hk.length))
      · show Tiles 0 h.ledger.readback 0
        rw [hcopy.unread]; rfl
      · exact Nat.pos_of_ne_zero fun hz => hk.size (UInt32.toNat_inj.mp hz)
    · rename_i hmore
      rw [ge_iff_le, UInt32.le_iff_toNat_le, hnext, Nat.not_le] at hmore
      have hk' : InstallOk w.flash (h.ledger.observe (.readDone .copyVerifyReadWait .iap
          w.core.copyOffset.toNat (buffer.slice 0 w.core.copyChunkLength.toNat)))
          { w.core with
            copyBuffer := buffer, copyOffset := w.core.copyOffset + w.core.copyChunkLength
            copyChunkLength := 0 } := { hk with }
      refine hk'.commit (hr'.core rfl rfl rfl) .copying (Or.inr rfl)
        ⟨⟨Or.inr rfl, hk.mode, hk.size, hk.staged⟩, ?_, ?_⟩
      · show (w.core.copyOffset + w.core.copyChunkLength).toNat < w.core.upgradeInfo.fileSize.toNat
        rw [hnext]; exact hmore
      · show CopyOk reads w.flash _ (w.core.copyOffset + w.core.copyChunkLength).toNat
          (w.core.copyOffset + w.core.copyChunkLength).toNat
        rw [hnext]; exact hcopied

/-! ### Final readback -/

/-- The core after folding a chunk into the final CRC. -/
def folded (c : Core) : Core :=
  { c with
    verifyCrc := chunkCrc c c.verifyCrc
    verifyOffset := c.verifyOffset + c.copyChunkLength
    copyChunkLength := 0 }

theorem verifyReadDone_cases (c : Core) :
    c.upgradeInfo.fileSize ≤ c.verifyOffset + c.copyChunkLength ∧
      (chunkCrc c c.verifyCrc = c.expectedCrc ∧
          verifyReadDone c = { folded c with state := .finalRead } ∨
        verifyReadDone c = residentFailure (folded c) .imageInvalid) ∨
    ¬ c.upgradeInfo.fileSize ≤ c.verifyOffset + c.copyChunkLength ∧
      verifyReadDone c = { folded c with state := .verifyRead } := by
  by_cases hend : c.upgradeInfo.fileSize ≤ c.verifyOffset + c.copyChunkLength
  · refine Or.inl ⟨hend, ?_⟩
    by_cases hcrc : chunkCrc c c.verifyCrc = c.expectedCrc
    · exact Or.inl ⟨hcrc, (if_pos hend).trans (if_neg (not_not.mpr hcrc))⟩
    · exact Or.inr ((if_pos hend).trans (if_pos hcrc))
  · exact Or.inr ⟨hend, if_neg hend⟩

theorem verifyRead_completes (hi : Inv reads w h) (hs : w.core.state = .verifyReadWait) :
    Completes reads w h env st (.read .iap w.core.verifyOffset.toNat
      w.core.copyChunkLength.toNat (.copyBuffer 0)) := by
  obtain ⟨hr, hc, hu, hinst, hv, hbound⟩ := hi.evaluated hs rfl
  unfold Completes
  rw [History.completed_read hs]
  simp only [World.completed, FlashOp.deliver, storageDone, hs, ReadTarget.contents]
  refine Outcome.quiet ?_
  generalize hbuf : w.core.copyBuffer.write 0 (st.delivered.take w.core.copyChunkLength.toNat)
    = buffer
  have hnext : (w.core.verifyOffset + w.core.copyChunkLength).toNat
      = w.core.verifyOffset.toNat + w.core.copyChunkLength.toNat := by
    rw [UInt32.toNat_add, Nat.mod_eq_of_lt]
    exact Nat.lt_of_le_of_lt hbound w.core.upgradeInfo.fileSize.toNat_lt
  have hr' : Resident w.flash (h.ledger.observe (.readDone .verifyReadWait .iap
      w.core.verifyOffset.toNat (buffer.slice 0 w.core.copyChunkLength.toNat))) w.core :=
    hr.ledger _ rfl rfl
  have htiles : Tiles 0 (h.ledger.readback ++ [(w.core.verifyOffset.toNat,
      (buffer.slice 0 w.core.copyChunkLength.toNat).length)])
      (w.core.verifyOffset + w.core.copyChunkLength).toNat := by
    rw [Memory.length_slice, hnext]
    exact hv.readback.append
  obtain ⟨chunks, hund, hcrc⟩ := hv.evidence
  have hund' : Undisturbed (readbackEvents 0 (chunks ++ [buffer.slice 0
      w.core.copyChunkLength.toNat])) (h.log ++ [Event.readDone .verifyReadWait .iap
        w.core.verifyOffset.toNat (buffer.slice 0 w.core.copyChunkLength.toNat)]) := by
    rw [readbackEvents_append, Nat.zero_add, hcrc.1]
    exact hund.snoc (fun _ h => nomatch h)
  have hcrc' := hcrc.snoc (buffer.slice 0 w.core.copyChunkLength.toNat)
  rw [Memory.length_slice, ← hnext] at hcrc'
  have hcases := verifyReadDone_cases { w.core with state := .verifyReadWait, copyBuffer := buffer }
  dsimp only at hcases
  rcases hcases with ⟨hend, ⟨heq, hdone⟩ | hdone⟩ | ⟨hmore, hdone⟩ <;> rw [hdone]
  · rw [UInt32.le_iff_toNat_le] at hend
    have hfull : (w.core.verifyOffset + w.core.copyChunkLength).toNat
        = w.core.upgradeInfo.fileSize.toNat := Nat.le_antisymm (hnext ▸ hbound) hend
    rw [hfull] at htiles hcrc'
    have heq' : w.core.config.crc16Update (buffer.slice 0 w.core.copyChunkLength.toNat)
      w.core.verifyCrc = w.core.expectedCrc := heq
    rw [heq'] at hcrc'
    exact ⟨rfl, hr'.zones, hr'.synced.core rfl rfl rfl, hc, hu, { hinst with }, htiles,
      _, hund', hcrc'⟩
  · refine Resident.inv ?_ .imageInvalid
    exact hr'.core rfl rfl rfl
  · rw [UInt32.le_iff_toNat_le, Nat.not_le] at hmore
    exact ⟨rfl, hr'.zones, hr'.synced.core rfl rfl rfl, hc, hu, { hinst with },
      ⟨Nat.le_of_lt hmore, htiles, _, hund', hcrc'⟩, hmore⟩

/-! ### Commits -/

/-- What a commit prepares does not depend on the metadata zones. -/
theorem NextOk.frame {next : BootState} (hn : NextOk reads flash log g c next)
    (hi : flash' .iap = flash .iap) (hs : flash' .staging = flash .staging) :
    NextOk reads flash' log g c next := by
  cases next with
  | downloadReady =>
    refine ⟨hn.1, hn.2.progress, ?_⟩
    have hstored := hn.2.stored
    rcases hn.1.outside with hz | hz <;> rw [hz] at hstored ⊢
    · rw [hi]; exact hstored
    · rw [hs]; exact hstored
  | copyErase => exact InstallOk.mk hn.state hn.mode hn.size (by rw [hs]; exact hn.staged)
  | copyRead =>
    exact ⟨{ hn.1 with staged := by rw [hs]; exact hn.1.staged }, hn.2.1,
      { hn.2.2 with copied := by rw [hi]; exact hn.2.2.copied }⟩
  | verifyRead => exact ⟨hn.1, { hn.2.1 with image := by rw [hi]; exact hn.2.1.image }, hn.2.2⟩
  | jumpPending => exact ⟨hn.1, { hn.2.1 with image := by rw [hi]; exact hn.2.1.image }, hn.2.2⟩
  | _ => exact hn

theorem CommitOk.frame (hc : CommitOk reads flash log g c) (hi : flash' .iap = flash .iap)
    (hs : flash' .staging = flash .staging) : CommitOk reads flash' log g c :=
  { hc with staged := by rw [hs]; exact hc.staged, next := hc.next.frame hi hs }

theorem CommitOk.copy (hc : CommitOk reads flash log g c) : c.metadataTargetZone.IsCopy := by
  rw [hc.target]; exact FlashZone.IsCopy.other _

/-- An operation on a copy leaves the image regions alone. -/
theorem FlashOp.apply_image (op : FlashOp) (hz : op.zone.IsCopy) (k : ℕ) (flash : Flash) :
    op.apply k flash .iap = flash .iap ∧ op.apply k flash .staging = flash .staging :=
  ⟨FlashOp.apply_of_ne hz.ne_iap k flash, FlashOp.apply_of_ne hz.ne_staging k flash⟩

theorem metadataErase_completes (hi : Inv reads w h) (hs : w.core.state = .metadataEraseWait) :
    Completes reads w h env st (.erase w.core.metadataTargetZone 0 metadataEncodedSize) := by
  obtain ⟨hr, hc⟩ := hi.evaluated hs rfl
  have hr' := hr.safe_metadataErase hc.target metadataEncodedSize
  have himage := FlashOp.apply_image (.erase w.core.metadataTargetZone 0 metadataEncodedSize)
    hc.copy metadataEncodedSize w.flash
  have hledger : h.ledger.observe (.eraseDone .metadataEraseWait w.core.metadataTargetZone 0
      metadataEncodedSize) = h.ledger := by
    rcases hc.copy with hz | hz <;> rw [hz] <;> rfl
  have hc' := (hc.frame himage.1 himage.2).later (e := .eraseDone .metadataEraseWait
    w.core.metadataTargetZone 0 metadataEncodedSize) (fun _ h => nomatch h)
  unfold Completes History.completed
  simp only [World.completed, FlashOp.deliver, storageDone, hs, FlashOp.doneEvent, History.observe,
    hledger]
  exact Outcome.quiet ⟨rfl, hr'.zones, hr'.synced.core rfl rfl rfl,
    { hc' with next := hc'.next.control _ _ _ _ _ _ _ _ }, slice_erase_done w.flash _⟩

theorem not_valid_of_blocking {m : Metadata} (hb : m.Blocking) : m.state ≠ .valid := by
  intro hv
  rcases hb with hb | hb | hb | hb <;> rw [hv] at hb <;> cases hb

/-- The phase facts of an evaluated phase. -/
theorem phaseOk_of_evaluated {s : BootState} (hs : c.state = s) (hsync : Synced flash g c)
    (hok : EvaluatedOk reads flash log g c s) : PhaseOk reads flash log g c := by
  unfold PhaseOk
  rw [hs]
  cases s <;> first | exact ⟨hsync, hok⟩ | exact hok.elim

/-- A prepared phase is entered once its record is the newest. -/
theorem NextOk.enter {next : BootState} (hn : NextOk reads flash log g c next)
    (hcur : Current flash c) (hlaunch : c.metadataState = .valid → Certified log g c →
      Installed reads flash g c → LaunchOk reads flash log g c) :
    EvaluatedOk reads flash log g c next := by
  cases next with
  | downloadErase => exact ⟨hcur, hn⟩
  | downloadReady => exact ⟨hcur, hn⟩
  | copyErase => exact ⟨hcur, hn⟩
  | copyRead => exact ⟨hcur, hn⟩
  | verifyRead => exact ⟨hcur, hn⟩
  | jumpPending => exact hlaunch hn.1 hn.2.2 hn.2.1
  | _ => exact hn.elim

theorem NextOk.not_waiting {next : BootState} (hn : NextOk reads flash log g c next)
    (hs : c.state = next) : expectedOp c = none := by
  unfold expectedOp
  rw [hs]
  cases next <;> first | rfl | exact hn.elim

/-- The record a complete write leaves is the newest. -/
theorem CommitOk.selected (hc : CommitOk reads flash log g c) (hr : Resident flash g c)
    (he : TargetErased flash c) :
    ((FlashOp.write c.metadataTargetZone 0 (metadataEncode (metadataCurrent c))).apply
      metadataEncodedSize flash).copy c.metadataTargetZone = some (metadataCurrent c) ∧
    ((FlashOp.write c.metadataTargetZone 0 (metadataEncode (metadataCurrent c))).apply
      metadataEncodedSize flash).selected = some (metadataCurrent c, c.metadataTargetZone) := by
  have hcopy := Flash.copy_write_cut (metadataCurrent c) he metadataEncodedSize
  rw [if_neg (Nat.lt_irrefl _)] at hcopy
  refine ⟨hcopy, ?_⟩
  have hS := hr.synced.source
  have hother : ((FlashOp.write c.metadataTargetZone 0 (metadataEncode (metadataCurrent c))).apply
      metadataEncodedSize flash).copy c.metadataSourceZone = flash.copy c.metadataSourceZone := by
    refine Flash.copy_apply_of_ne ?_ _ flash
    rw [FlashOp.zone, hc.target]
    exact hS.ne_other
  rw [hc.target] at hcopy hother ⊢
  cases hsrc : flash.copy c.metadataSourceZone with
  | none =>
    rw [Flash.selected_of_source_none hS (hother.trans hsrc), hcopy]; rfl
  | some r =>
    refine Flash.selected_of_successor hS (hother.trans hsrc) hcopy ?_
    rw [(hr.synced.record r hsrc).1]; rfl

theorem metadataWrite_completes (hi : Inv reads w h) (hs : w.core.state = .metadataWriteWait) :
    Completes reads w h env st (.write w.core.metadataTargetZone 0
      (w.core.copyBuffer.slice 0 metadataEncodedSize)) := by
  obtain ⟨hr, hc, he, hvalid⟩ := hi.evaluated hs rfl
  have hr' := hr.safe_metadataWrite hc he hvalid metadataEncodedSize
  have himage := FlashOp.apply_image (.write w.core.metadataTargetZone 0
    (w.core.copyBuffer.slice 0 metadataEncodedSize)) hc.copy metadataEncodedSize w.flash
  have hledger : h.ledger.observe (.writeDone .metadataWriteWait w.core.metadataTargetZone 0
      (w.core.copyBuffer.slice 0 metadataEncodedSize)) = h.ledger := by
    rcases hc.copy with hz | hz <;> rw [hz] <;> rfl
  obtain ⟨hcopy, hsel⟩ := hc.selected hr he
  rw [← hc.encoded] at hcopy hsel
  have hnext := (hc.next.frame himage.1 himage.2).later (e := .writeDone .metadataWriteWait
    w.core.metadataTargetZone 0 (w.core.copyBuffer.slice 0 metadataEncodedSize))
    (fun _ h => nomatch h)
  have hrec : RecordOk ((FlashOp.write w.core.metadataTargetZone 0 (w.core.copyBuffer.slice 0
      metadataEncodedSize)).apply metadataEncodedSize w.flash) h.ledger (metadataCurrent w.core) :=
    (hc.record hvalid).frame fun _ => himage.2
  have hsync : Synced ((FlashOp.write w.core.metadataTargetZone 0 (w.core.copyBuffer.slice 0
      metadataEncodedSize)).apply metadataEncodedSize w.flash) h.ledger
      (metadataWriteDone w.core) := by
    refine ⟨hc.copy, ?_, ?_, hr.synced.buffer⟩
    · intro r hr
      obtain rfl := Option.some.inj (hcopy.symm.trans hr)
      exact ⟨rfl, hrec⟩
    · intro _ hnone
      exact absurd (hcopy.symm.trans hnone) (by simp)
  have hnext' : NextOk reads ((FlashOp.write w.core.metadataTargetZone 0 (w.core.copyBuffer.slice 0
      metadataEncodedSize)).apply metadataEncodedSize w.flash) (h.log ++ [Event.writeDone
        .metadataWriteWait w.core.metadataTargetZone 0 (w.core.copyBuffer.slice 0
          metadataEncodedSize)]) h.ledger (metadataWriteDone w.core) w.core.metadataNextState :=
    hnext.control _ _ _ _ _ _ _ _
  have hcur : Current ((FlashOp.write w.core.metadataTargetZone 0 (w.core.copyBuffer.slice 0
      metadataEncodedSize)).apply metadataEncodedSize w.flash) (metadataWriteDone w.core) :=
    ⟨metadataCurrent w.core, hcopy, rfl, hsel⟩
  unfold Completes History.completed
  simp only [World.completed, FlashOp.deliver, storageDone, hs, FlashOp.doneEvent, History.observe,
    hledger]
  refine Outcome.quiet ⟨(hnext'.not_waiting rfl).symm, hr'.zones, ?_⟩
  refine phaseOk_of_evaluated rfl hsync (hnext'.enter hcur ?_)
  intro hv _ hinst
  -- the certificate before the write is the one that justifies the record
  have hcert : Certified h.log h.ledger w.core := by
    have hn := hc.next
    rcases hc.blocking with hb | ⟨_, hj⟩
    · exact absurd hv (not_valid_of_blocking hb)
    · rw [hj] at hn
      exact hn.2.2
  refine ⟨hvalid hv, Or.inr ?_, Or.inr ⟨hinst, hcert.readback⟩⟩
  rw [hc.encoded]
  exact ImageVerified.commit (m := metadataCurrent w.core) hcert.evidence hc.copy hv

end Atoman.Bootloader
