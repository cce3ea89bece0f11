import Atoman.Bootloader.Invariant

/-!
# What an operation leaves and what it proves

A core that gives up stays resident and relies on the two metadata copies alone;
`Resident` collects that. Every operation the core hands out leaves `Resident`
intact no matter how far it gets. There is one lemma for each kind of operation:
reads, operations on the IAP region, on staging, and the erase and write of a
metadata copy. The facts about the log survive the next observation.
-/

namespace Atoman.Bootloader
open Lib

/-- What a resident core and the next boot rely on. -/
structure Resident (flash : Flash) (g : Ledger) (c : Core) : Prop where
  zones : FlashOk flash g
  synced : Synced flash g c

/-- However far the operation gets, the device stays recoverable. -/
def Safe (flash : Flash) (g : Ledger) (c : Core) (op : FlashOp) : Prop :=
  ∀ k, Resident (op.apply k flash) g c

variable {reads : Prop} {flash flash' : Flash} {log : List Event} {g g' : Ledger} {c c' : Core}
  {op : FlashOp} {m r : Metadata}

/-! ## Frames -/

theorem RecordOk.frame (h : RecordOk flash g m)
    (hs : m.Installing → flash' .staging = flash .staging) : RecordOk flash' g m :=
  ⟨h.shape, h.blocking, fun hi => by rw [hs hi]; exact h.staged hi⟩

/-- The core's knowledge rests on four of its fields. -/
theorem Synced.core (h : Synced flash g c) (hz : c'.metadataSourceZone = c.metadataSourceZone)
    (hq : c'.metadataSequence = c.metadataSequence) (hcfg : c'.config = c.config) :
    Synced flash g c' := by
  refine ⟨?_, ?_, ?_, ?_⟩
  · rw [hz]; exact h.source
  · rw [hz, hq]; exact h.record
  · rw [hz]; exact h.present
  · rw [hcfg]; exact h.buffer

theorem Resident.core (h : Resident flash g c) (hz : c'.metadataSourceZone = c.metadataSourceZone)
    (hq : c'.metadataSequence = c.metadataSequence) (hcfg : c'.config = c.config) :
    Resident flash g c' := ⟨h.zones, h.synced.core hz hq hcfg⟩

/-- Giving up is always possible. -/
theorem Resident.inv (h : Resident flash g c) (result : Result) :
    Inv reads ⟨residentFailure c result, flash, none⟩ ⟨log, g⟩ :=
  ⟨rfl, h.zones, h.synced.core rfl rfl rfl, trivial⟩

/-- A change outside the copies that keeps staging, at least while it matters. -/
theorem Resident.frame (h : Resident flash g c)
    (hcopy : ∀ z : FlashZone, z.IsCopy → flash'.copy z = flash.copy z)
    (hstaging : ∀ z m, z.IsCopy → flash.copy z = some m → m.Installing →
      flash'.selected = some (m, z) ∨ z = c.metadataSourceZone →
      flash' .staging = flash .staging) : Resident flash' g c := by
  have hsel : flash'.selected = flash.selected := Flash.selected_congr hcopy
  refine ⟨⟨?_, ?_⟩, ⟨h.synced.source, ?_, ?_, h.synced.buffer⟩⟩
  · intro m z hm
    have hm' := hm
    rw [hsel] at hm'
    obtain ⟨hz, hc⟩ := Flash.copy_of_selected hm'
    exact (h.zones.record m z hm').frame fun hi => hstaging z m hz hc hi (Or.inl hm)
  · rw [hsel]; exact h.zones.present
  · intro r hr
    rw [hcopy _ h.synced.source] at hr
    obtain ⟨hseq, hrec⟩ := h.synced.record r hr
    exact ⟨hseq, hrec.frame fun hi => hstaging _ r h.synced.source hr hi (Or.inr rfl)⟩
  · rw [hcopy _ h.synced.source]; exact h.synced.present

/-! ## Operations outside the metadata zones -/

theorem FlashOp.zone_ne_copy {z : FlashZone} (h : op.zone = .iap ∨ op.zone = .staging)
    (hz : z.IsCopy) : op.zone ≠ z := by
  rcases h with h | h <;> rcases hz with rfl | rfl <;> rw [h] <;> decide

theorem Resident.safe_read (h : Resident flash g c) (zone : FlashZone) (offset length : ℕ)
    (target : ReadTarget) : Safe flash g c (.read zone offset length target) := fun _ => h

theorem Resident.safe_iap (h : Resident flash g c) (hop : op.zone = .iap) : Safe flash g c op := by
  intro k
  refine h.frame
    (fun z hz => Flash.copy_apply_of_ne (FlashOp.zone_ne_copy (Or.inl hop) hz) k flash) ?_
  intro z m _ _ _ _
  exact FlashOp.apply_of_ne (by rw [hop]; decide) k flash

/-- Staging may change while the newest record does not refer to it. -/
theorem Resident.safe_staging (h : Resident flash g c) (hcur : Current flash c)
    (hst : c.metadataState = .downloadStaged) (hop : op.zone = .staging) : Safe flash g c op := by
  intro k
  have hcopy : ∀ z : FlashZone, z.IsCopy → (op.apply k flash).copy z = flash.copy z :=
    fun z hz => Flash.copy_apply_of_ne (FlashOp.zone_ne_copy (Or.inr hop) hz) k flash
  refine h.frame hcopy ?_
  intro z m _ hm hi hsel
  exfalso
  obtain ⟨r, hr, hstate, hselected⟩ := hcur
  rw [Flash.selected_congr hcopy, hselected] at hsel
  have hmr : r = m := by
    rcases hsel with hsel | rfl
    · simp only [Option.some.injEq, Prod.mk.injEq] at hsel
      exact hsel.1
    · rw [hr] at hm; exact Option.some.inj hm
  subst hmr
  rcases hi with hi | hi <;> rw [hstate, hst] at hi <;> cases hi

/-! ## Metadata commits -/

/-- The replaced copy holds its old record, none, or the record under way. -/
theorem Resident.replace (h : Resident flash g c)
    (hother : ∀ z, z ≠ otherCopy c.metadataSourceZone → flash' z = flash z)
    (ht : flash'.copy (otherCopy c.metadataSourceZone) = none ∨
      ∃ m, flash'.copy (otherCopy c.metadataSourceZone) = some m ∧
        m.sequence = c.metadataSequence + 1 ∧ RecordOk flash g m) : Resident flash' g c := by
  have hS := h.synced.source
  have hcopy : flash'.copy c.metadataSourceZone = flash.copy c.metadataSourceZone := by
    unfold Flash.copy
    rw [hother _ (Ne.symm hS.ne_other)]
  have hstaging : flash' .staging = flash .staging := by
    apply hother
    rcases FlashZone.IsCopy.other c.metadataSourceZone with h | h <;> rw [h] <;> decide
  refine ⟨⟨?_, ?_⟩, ⟨hS, ?_, ?_, h.synced.buffer⟩⟩
  · intro m z hm
    refine RecordOk.frame ?_ fun _ => hstaging
    rcases Flash.selected_cases hS hm with hm | hm
    · rw [hcopy] at hm
      exact (h.synced.record m hm).2
    · rcases ht with ht | ⟨m', ht, _, hok⟩
      · rw [ht] at hm; cases hm
      · rw [ht] at hm
        exact Option.some.inj hm ▸ hok
  · intro htouched
    exact Flash.selected_ne_none hS (by rw [hcopy]; exact h.synced.present htouched)
  · intro r hr
    rw [hcopy] at hr
    obtain ⟨hseq, hok⟩ := h.synced.record r hr
    exact ⟨hseq, hok.frame fun _ => hstaging⟩
  · rw [hcopy]; exact h.synced.present

theorem Resident.safe_metadataErase (h : Resident flash g c)
    (ht : c.metadataTargetZone = otherCopy c.metadataSourceZone) :
    Safe flash g c (.erase c.metadataTargetZone 0 metadataEncodedSize) := by
  intro k
  by_cases hk : k = 0
  · subst hk
    refine h.frame ?_ ?_
    · intro z _
      unfold Flash.copy
      by_cases hz : c.metadataTargetZone = z
      · subst hz; rw [FlashOp.apply_erase_same]; simp
      · have hz' : (FlashOp.erase c.metadataTargetZone 0 metadataEncodedSize).zone ≠ z := hz
        rw [FlashOp.apply_of_ne hz']
    · intro z m _ _ _ _
      refine FlashOp.apply_of_ne (z := .staging) ?_ _ _
      rw [FlashOp.zone, ht]
      rcases FlashZone.IsCopy.other c.metadataSourceZone with h | h <;> rw [h] <;> decide
  · refine h.replace (fun z hz => FlashOp.apply_of_ne ?_ k flash) (Or.inl ?_)
    · rw [FlashOp.zone, ht]; exact Ne.symm hz
    · rw [← ht, Flash.copy_erase_cut, if_neg hk]

/-- What a record under way promises once it is whole. -/
theorem CommitOk.record (h : CommitOk reads flash log g c)
    (hvalid : c.metadataState = .valid → g.touched = false) :
    RecordOk flash g (metadataCurrent c) := by
  refine ⟨h.shape, ?_, h.staged⟩
  intro htouched
  rcases h.blocking with hb | ⟨hv, _⟩
  · exact hb
  · rw [hvalid hv] at htouched; cases htouched

theorem Resident.safe_metadataWrite (h : Resident flash g c) (hc : CommitOk reads flash log g c)
    (he : TargetErased flash c) (hvalid : c.metadataState = .valid → g.touched = false) :
    Safe flash g c (.write c.metadataTargetZone 0 (c.copyBuffer.slice 0 metadataEncodedSize)) := by
  intro k
  have hcut := Flash.copy_write_cut (metadataCurrent c) he k
  rw [hc.encoded]
  refine h.replace (fun z hz => FlashOp.apply_of_ne ?_ k flash) ?_
  · rw [FlashOp.zone, hc.target]; exact Ne.symm hz
  · rw [← hc.target, hcut]
    by_cases hk : k < metadataEncodedSize
    · exact Or.inl (if_pos hk)
    · exact Or.inr ⟨metadataCurrent c, if_neg hk, rfl, hc.record hvalid⟩

end Atoman.Bootloader

/-!
## Evidence accumulates in the log

How the facts about the log survive the next observation, and how the observation
a phase waits for extends them. Readback and CRC grow together, one chunk at a time.
-/

namespace Atoman.Bootloader
open Lib

variable {reads : Prop} {flash : Flash} {log events : List Event} {g : Ledger} {c : Core}
  {e : Event}

/-- The observation does not touch the IAP region. -/
def Event.Quiet (e : Event) : Prop := ∀ op : FlashOp, e = .submitted op → op.touchesIap = false

theorem Undisturbed.nil (log : List Event) : Undisturbed [] log :=
  ⟨log, [], (List.append_nil log).symm, List.Sublist.slnil, fun _ h => nomatch h⟩

theorem Quiet.snoc (h : Quiet log) (he : e.Quiet) : Quiet (log ++ [e]) := by
  intro op hop
  rcases List.mem_append.mp hop with hop | hop
  · exact h op hop
  · exact he op (List.mem_singleton.mp hop).symm

theorem Undisturbed.later (h : Undisturbed events log) (he : e.Quiet) :
    Undisturbed events (log ++ [e]) := by
  obtain ⟨before, after, rfl, hsub, hq⟩ := h
  exact ⟨before, after ++ [e], List.append_assoc _ _ _,
    hsub.trans (List.sublist_append_left _ _), hq.snoc he⟩

theorem Undisturbed.snoc (h : Undisturbed events log) (he : e.Quiet) :
    Undisturbed (events ++ [e]) (log ++ [e]) := by
  obtain ⟨before, after, rfl, hsub, hq⟩ := h
  exact ⟨before, after ++ [e], List.append_assoc _ _ _,
    hsub.append (List.Sublist.refl _), hq.snoc he⟩

theorem readbackEvents_append (offset : ℕ) (chunks : List (List UInt8)) (d : List UInt8) :
    readbackEvents offset (chunks ++ [d]) = readbackEvents offset chunks
      ++ [Event.readDone .verifyReadWait .iap (offset + chunks.flatten.length) d] := by
  induction chunks generalizing offset with
  | nil => rfl
  | cons a chunks ih =>
    simp only [List.cons_append, readbackEvents, ih, List.flatten_cons, List.length_append,
      Nat.add_assoc]

/-- One more chunk is read back. -/
theorem ReadbackCrc.snoc {cfg : Config} {size : ℕ} {crc : UInt16} {chunks : List (List UInt8)}
    (h : ReadbackCrc cfg size crc chunks) (d : List UInt8) :
    ReadbackCrc cfg (size + d.length) (cfg.crc16Update d crc) (chunks ++ [d]) := by
  refine ⟨?_, ?_⟩
  · simp [h.1]
  · rw [foldCrc, List.foldl_append, ← foldCrc, h.2]; rfl

theorem NoCommit.later (h : NoCommit log)
    (he : ∀ zone offset data, e ≠ .writeDone .metadataWriteWait zone offset data) :
    NoCommit (log ++ [e]) := by
  intro zone offset data hmem
  rcases List.mem_append.mp hmem with hmem | hmem
  · exact h zone offset data hmem
  · exact he zone offset data (List.mem_singleton.mp hmem).symm

theorem StartupChosen.later (h : StartupChosen log) (e : Event) : StartupChosen (log ++ [e]) := by
  obtain ⟨a, b, hsub, hs⟩ := h
  exact ⟨a, b, hsub.trans (List.sublist_append_left _ _), hs⟩

theorem StartupOk.later (h : StartupOk log g)
    (he : ∀ zone offset data, e ≠ .writeDone .metadataWriteWait zone offset data) :
    StartupOk (log ++ [e]) g := ⟨h.chosen.later e, h.untouched, h.fresh.later he⟩

/-- An accepted header completes the startup path. -/
theorem StartupChosen.evidence (h : StartupChosen log) (header : List UInt8) (size : UInt32) :
    StartupEvidence (log ++ [Event.readDone .startupWait .iap 0 header]
      ++ [Event.headerChecked header size true]) := by
  obtain ⟨a, b, hsub, hs⟩ := h
  refine ⟨a, b, header, size, ?_, hs⟩
  rw [List.append_assoc]
  exact hsub.append (List.Sublist.refl _)

theorem StartupEvidence.later (h : StartupEvidence log) (e : Event) :
    StartupEvidence (log ++ [e]) := by
  obtain ⟨a, b, header, size, hsub, hs⟩ := h
  exact ⟨a, b, header, size, hsub.trans (List.sublist_append_left _ _), hs⟩

theorem InstallEvidence.later {cfg : Config} (h : InstallEvidence cfg log) (he : e.Quiet) :
    InstallEvidence cfg (log ++ [e]) := by
  obtain ⟨chunks, header, m, z, hu, hrest⟩ := h
  exact ⟨chunks, header, m, z, hu.later he, hrest⟩

/-- The commit of a `VALID` record completes the install path. -/
theorem ImageVerified.commit {cfg : Config} {m : Metadata} {z : FlashZone}
    (h : ImageVerified cfg m.fileSize m.expectedCrc log) (hz : z.IsCopy) (hm : m.state = .valid) :
    InstallEvidence cfg (log ++ [Event.writeDone .metadataWriteWait z 0 (metadataEncode m)]) := by
  obtain ⟨chunks, header, hu, hcrc⟩ := h
  exact ⟨chunks, header, m, z, hu.snoc (fun _ h => nomatch h), hcrc, hz, hm⟩

theorem VerifyOk.later (h : VerifyOk log g c) (he : e.Quiet) : VerifyOk (log ++ [e]) g c := by
  obtain ⟨chunks, hu, hcrc⟩ := h.evidence
  exact { h with evidence := ⟨chunks, hu.later he, hcrc⟩ }

theorem Verified.later (h : Verified log g c) (he : e.Quiet) : Verified (log ++ [e]) g c := by
  obtain ⟨chunks, hu, hcrc⟩ := h.evidence
  exact { h with evidence := ⟨chunks, hu.later he, hcrc⟩ }

/-- An accepted header certifies the verified image. -/
theorem Verified.header (h : Verified log g c) (header : List UInt8) :
    Certified (log ++ [Event.readDone .finalReadWait .iap 0 header]
      ++ [Event.headerChecked header c.upgradeInfo.fileSize true]) g c := by
  obtain ⟨chunks, hu, hcrc⟩ := h.evidence
  refine ⟨h.readback, chunks, header, ?_, hcrc⟩
  have hu' := (hu.snoc (e := .readDone .finalReadWait .iap 0 header) (fun _ h => nomatch h)).snoc
    (e := .headerChecked header c.upgradeInfo.fileSize true) (fun _ h => nomatch h)
  rwa [List.append_assoc] at hu'

theorem Certified.later (h : Certified log g c) (he : e.Quiet) : Certified (log ++ [e]) g c := by
  obtain ⟨chunks, header, hu, hcrc⟩ := h.evidence
  exact { h with evidence := ⟨chunks, header, hu.later he, hcrc⟩ }

theorem LaunchOk.later (h : LaunchOk reads flash log g c) (he : e.Quiet)
    (hw : ∀ zone offset data, e ≠ .writeDone .metadataWriteWait zone offset data) :
    LaunchOk reads flash (log ++ [e]) g c := by
  refine ⟨h.untouched, ?_, ?_⟩
  · rcases h.evidence with hs | hi
    · exact Or.inl (hs.later e)
    · exact Or.inr (hi.later he)
  · rcases h.installed with hn | hi
    · exact Or.inl (hn.later hw)
    · exact Or.inr hi

/-- What the phase behind a commit needs does not mind further observations. -/
theorem NextOk.later {next : BootState} (h : NextOk reads flash log g c next) (he : e.Quiet) :
    NextOk reads flash (log ++ [e]) g c next := by
  cases next with
  | verifyRead => exact ⟨h.1, h.2.1, h.2.2.1.later he, h.2.2.2⟩
  | jumpPending => exact ⟨h.1, h.2.1, h.2.2.later he⟩
  | _ => exact h

/-- Nor the fields a commit works with. -/
theorem NextOk.control {next : BootState} (h : NextOk reads flash log g c next) (state : BootState)
    (result : Result) (copyBuffer : Memory UInt8) (metadataNextState : BootState)
    (metadataSourceZone metadataTargetZone : FlashZone) (metadataSequence : UInt32)
    (metadataValid : Bool) : NextOk reads flash log g
      { c with state, result, copyBuffer, metadataNextState, metadataSourceZone,
               metadataTargetZone, metadataSequence, metadataValid } next := by
  cases next with
  | downloadErase => exact ⟨{ h.1 with }, { h.2 with }⟩
  | downloadReady => exact ⟨{ h.1 with }, { h.2 with progress := { h.2.progress with } }⟩
  | copyErase => exact InstallOk.mk h.state h.mode h.size h.staged
  | copyRead => exact ⟨{ h.1 with }, h.2⟩
  | verifyRead => exact ⟨h.1, { h.2.1 with }, { h.2.2.1 with }, h.2.2.2⟩
  | jumpPending => exact ⟨h.1, { h.2.1 with }, { h.2.2 with }⟩
  | _ => exact h

/-- Nor whether the IAP region counts as touched. -/
theorem NextOk.touch {next : BootState} (h : NextOk reads flash log g c next) (touched : Bool) :
    NextOk reads flash log { g with touched } c next := by
  cases next with
  | downloadErase => exact ⟨h.1, { h.2 with }⟩
  | downloadReady => exact ⟨h.1, { h.2 with progress := { h.2.progress with } }⟩
  | copyErase => exact InstallOk.mk h.state h.mode h.size h.staged
  | copyRead => exact ⟨{ h.1 with }, h.2.1, { h.2.2 with }⟩
  | verifyRead => exact ⟨h.1, { h.2.1 with }, { h.2.2.1 with }, h.2.2.2⟩
  | jumpPending => exact ⟨h.1, { h.2.1 with }, { h.2.2 with }⟩
  | _ => exact h

theorem CommitOk.later (h : CommitOk reads flash log g c) (he : e.Quiet) :
    CommitOk reads flash (log ++ [e]) g c := { h with next := h.next.later he }

end Atoman.Bootloader

/-!
## Handing an operation to the storage

One call of the core and the storage's answers to it form an outcome. A phase that
submits an operation enters its waiting phase when the operation is taken and stays
resident when it is refused; both outcomes keep the invariant when the operation is
safe and the waiting phase's facts hold under the ledger that has seen it.
-/

namespace Atoman.Bootloader
open Lib

variable {reads : Prop} {w : World} {h : History} {flash : Flash} {log : List Event} {g : Ledger}
  {c : Core} {op : FlashOp} {env : Env} {st : Storage}

/-- The invariant after a call of the core that returned `r`. -/
def Outcome (reads : Prop) (w : World) (h : History) (env : Env) (st : Storage)
    (r : Core × List Call) : Prop :=
  let a := World.answerAll { w with core := r.1 } env st r.2
  Inv reads a.1 (a.2.foldl History.observe h)

/-! ## What an observed submission does to the ledger -/

theorem Ledger.observe_other (g : Ledger) (h₁ : op.touchesIap = false)
    (h₂ : op.commitsValid = false) : g.observe (.submitted op) = g := by
  simp [Ledger.observe, h₁, h₂]

theorem Ledger.observe_read (g : Ledger) (zone : FlashZone) (offset length : ℕ)
    (target : ReadTarget) : g.observe (.submitted (.read zone offset length target)) = g :=
  g.observe_other rfl rfl

theorem Ledger.observe_erase (g : Ledger) {zone : FlashZone} (hz : zone ≠ .iap)
    (offset length : ℕ) : g.observe (.submitted (.erase zone offset length)) = g := by
  refine g.observe_other ?_ rfl
  cases zone with
  | iap => exact absurd rfl hz
  | _ => rfl

theorem Ledger.observe_touching (g : Ledger) (h : op.touchesIap = true) :
    g.observe (.submitted op) = { g with touched := true } := by
  have hc : op.commitsValid = false := by
    cases op with
    | write zone offset data => cases zone <;> first | rfl | cases h
    | _ => rfl
  simp [Ledger.observe, h, hc]

/-- Programming a metadata copy clears `touched` exactly for a `VALID` record. -/
theorem Ledger.observe_commit (g : Ledger) {zone : FlashZone} (hz : zone.IsCopy) (m : Metadata) :
    g.observe (.submitted (.write zone 0 (metadataEncode m)))
      = { g with touched := g.touched && !decide (m.state = .valid) } := by
  rcases hz with rfl | rfl <;>
    simp [Ledger.observe, FlashOp.touchesIap, FlashOp.commitsValid, isValidRecord]

theorem FlashZone.IsCopy.ne_iap {z : FlashZone} (hz : z.IsCopy) : z ≠ .iap := by
  rcases hz with rfl | rfl <;> decide

theorem FlashZone.IsCopy.ne_staging {z : FlashZone} (hz : z.IsCopy) : z ≠ .staging := by
  rcases hz with rfl | rfl <;> decide

/-- The IAP region may be touched once the newest record blocks a start. -/
theorem Resident.touch (h : Resident flash g c) (hc : Current flash c)
    (hb : ∀ m : Metadata, m.state = c.metadataState → m.Blocking) :
    Resident flash { g with touched := true } c := by
  obtain ⟨r, hr, hstate, hsel⟩ := hc
  have hblock := hb r hstate
  refine ⟨⟨?_, ?_⟩, ⟨h.synced.source, ?_, ?_, h.synced.buffer⟩⟩
  · intro m z hm
    have hok := h.zones.record m z hm
    rw [hsel] at hm
    obtain ⟨rfl, rfl⟩ := Prod.mk.inj (Option.some.inj hm)
    exact ⟨hok.shape, fun _ => hblock, hok.staged⟩
  · intro _; rw [hsel]; simp
  · intro m hm
    obtain ⟨hseq, hok⟩ := h.synced.record m hm
    rw [hr] at hm
    obtain rfl := Option.some.inj hm
    exact ⟨hseq, ⟨hok.shape, fun _ => hblock, hok.staged⟩⟩
  · intro _; rw [hr]; simp

theorem RecordOk.clear {m : Metadata} (h : RecordOk flash g m) (b : Bool) :
    RecordOk flash { g with touched := g.touched && b } m :=
  ⟨h.shape, fun ht => h.blocking (Bool.and_elim_left ht), h.staged⟩

theorem Resident.clear (h : Resident flash g c) (b : Bool) :
    Resident flash { g with touched := g.touched && b } c := by
  refine ⟨⟨fun m z hm => (h.zones.record m z hm).clear b, ?_⟩,
    ⟨h.synced.source, ?_, ?_, h.synced.buffer⟩⟩
  · exact fun ht => h.zones.present (Bool.and_elim_left ht)
  · intro r hr
    exact ⟨(h.synced.record r hr).1, (h.synced.record r hr).2.clear b⟩
  · exact fun ht => h.synced.present (Bool.and_elim_left ht)

/-! ## Outcomes -/

theorem Outcome.quiet (hi : Inv reads ⟨c, w.flash, w.pending⟩ h) :
    Outcome reads w h env st (c, []) := hi

/-- Submitting: the waiting phase when taken, resident when refused. -/
theorem submitOp_outcome {wait : BootState} (hop : expectedOp { c with state := wait } = some op)
    (hflash : FlashOk w.flash (h.ledger.observe (.submitted op)))
    (hphase : PhaseOk reads w.flash (h.log ++ [Event.submitted op])
      (h.ledger.observe (.submitted op)) { c with state := wait })
    (hsafe : Safe w.flash (h.ledger.observe (.submitted op)) c op) (hp : w.pending = none) :
    Outcome reads w h env st (submitOp env c op wait) := by
  unfold submitOp
  by_cases ha : env.submit.accepted = true
  · rw [if_pos ha]
    simp only [Outcome, World.answerAll, World.answer, if_pos ha, List.append_nil]
    exact ⟨hop.symm, hflash, hphase⟩
  · rw [if_neg ha]
    simp only [Outcome, World.answerAll, World.answer, if_neg ha, List.append_nil]
    rw [hp]
    exact (hsafe st.progress).inv env.submit

/-- A read may be submitted whenever the core is resident. -/
theorem submitRead_outcome {wait : BootState} {zone : FlashZone} {offset length : ℕ}
    {target : ReadTarget}
    (hop : expectedOp { c with state := wait } = some (.read zone offset length target))
    (hr : Resident w.flash h.ledger c)
    (hphase : PhaseOk reads w.flash (h.log ++ [Event.submitted (.read zone offset length target)])
      h.ledger { c with state := wait }) (hp : w.pending = none) :
    Outcome reads w h env st (submitOp env c (.read zone offset length target) wait) := by
  have hg := h.ledger.observe_read zone offset length target
  refine submitOp_outcome hop ?_ ?_ ?_ hp <;> rw [hg]
  · exact hr.zones
  · exact hphase
  · exact hr.safe_read zone offset length target

theorem Event.quiet_read (zone : FlashZone) (offset length : ℕ) (target : ReadTarget) :
    (Event.submitted (.read zone offset length target)).Quiet := by
  rintro op ⟨⟩; rfl

/-- An operation on the IAP region may be submitted under a blocking record. -/
theorem submitTouching_outcome {wait : BootState}
    (hop : expectedOp { c with state := wait } = some op) (hz : op.zone = .iap)
    (ht : op.touchesIap = true) (hr : Resident w.flash h.ledger c) (hc : Current w.flash c)
    (hb : ∀ m : Metadata, m.state = c.metadataState → m.Blocking)
    (hphase : PhaseOk reads w.flash (h.log ++ [Event.submitted op])
      { h.ledger with touched := true }
      { c with state := wait }) (hp : w.pending = none) :
    Outcome reads w h env st (submitOp env c op wait) := by
  have hg := h.ledger.observe_touching ht
  have hr' := hr.touch hc hb
  refine submitOp_outcome hop ?_ ?_ ?_ hp <;> rw [hg]
  · exact hr'.zones
  · exact hphase
  · exact hr'.safe_iap hz

end Atoman.Bootloader
