import Atoman.Bootloader.Download

/-!
# How far a staged installation has come

The newest record measures the installation that follows a staged download: 0 while
only the download is on record, one more than the retry count while it is being
installed, 5 once it is complete. Every erase of the IAP region is paid for by such a
step, and no step and no power cut goes back.
-/

namespace Atoman.Bootloader
open Lib

/-- The measure of a record. -/
def Metadata.progress (m : Metadata) : ℕ :=
  match m.state with
  | .installPending | .copying => m.retryCount.toNat + 1
  | .valid => 5
  | _ => 0

/-- A record of an installation that has come as far as `lo` and has seen `n` erases. -/
structure Metadata.Tracked (lo n : ℕ) (m : Metadata) : Prop where
  kind : m.state = .downloadStaged ∨ m.Installing ∨ m.state = .valid
  retry : m.Installing → m.retryCount.toNat ≤ 3
  floor : lo ≤ m.progress
  erases : n ≤ min 4 m.progress

variable {lo n : ℕ} {flash : Flash} {log : List Event} {g : Ledger} {c : Core} {m r : Metadata}
  {w : World} {h : History} {env : Env} {st : Storage} {op : FlashOp} {S : FlashZone}

theorem Metadata.Installing.progress (h : m.Installing) : m.progress = m.retryCount.toNat + 1 := by
  rcases h with h | h <;> simp [Metadata.progress, h]

theorem Metadata.Tracked.le {n' : ℕ} (h : m.Tracked lo n) (hn : n' ≤ n) : m.Tracked lo n' :=
  { h with erases := Nat.le_trans hn h.erases }

/-- What is on record when nothing is running. -/
def Budget (lo n : ℕ) (flash : Flash) : Prop :=
  ∃ m z, flash.selected = some (m, z) ∧ m.Tracked lo n

/-! ## What a commit does to the newest record -/

/-- An operation outside the two copies does not change the newest record. -/
theorem selected_outside (h : op.zone = .iap ∨ op.zone = .staging) (k : ℕ) (flash : Flash) :
    (op.apply k flash).selected = flash.selected :=
  Flash.selected_congr fun _ hz => Flash.copy_apply_of_ne (FlashOp.zone_ne_copy h hz) k flash

/-- Erasing the other copy, however far, keeps the newest record. -/
theorem selected_eraseCut (hS : S.IsCopy) (h : flash.selected = some (r, S)) (k : ℕ) :
    ((FlashOp.erase (otherCopy S) 0 metadataEncodedSize).apply k flash).selected
      = some (r, S) := by
  by_cases hk : k = 0
  · subst hk
    rw [← h]
    refine Flash.selected_congr fun z hz => ?_
    by_cases hzo : otherCopy S = z
    · rw [← hzo, Flash.copy_erase_cut, if_pos rfl]
    · have hne : (FlashOp.erase (otherCopy S) 0 metadataEncodedSize).zone ≠ z := hzo
      exact Flash.copy_apply_of_ne hne 0 flash
  · have hnone : ((FlashOp.erase (otherCopy S) 0 metadataEncodedSize).apply k flash).copy
        (otherCopy S) = none := by
      rw [Flash.copy_erase_cut, if_neg hk]
    have hne : (FlashOp.erase (otherCopy S) 0 metadataEncodedSize).zone ≠ S := hS.ne_other
    rw [Flash.selected_of_other_none hS hnone, Flash.copy_apply_of_ne hne,
      (Flash.copy_of_selected h).2]
    rfl

/-- Writing the other copy leaves the newest record, or the complete successor is it. -/
theorem selected_writeCut (hS : S.IsCopy) (h : flash.selected = some (r, S))
    (he : (flash (otherCopy S)).slice 0 metadataEncodedSize
      = List.replicate metadataEncodedSize 0xFF) (hseq : m.sequence = r.sequence + 1) (k : ℕ) :
    ((FlashOp.write (otherCopy S) 0 (metadataEncode m)).apply k flash).selected
      = if k < metadataEncodedSize then some (r, S) else some (m, otherCopy S) := by
  have hcut := Flash.copy_write_cut m he k
  have hsrc : ((FlashOp.write (otherCopy S) 0 (metadataEncode m)).apply k flash).copy S
      = some r := by
    have hne : (FlashOp.write (otherCopy S) 0 (metadataEncode m)).zone ≠ S := hS.ne_other
    rw [Flash.copy_apply_of_ne hne, (Flash.copy_of_selected h).2]
  split
  case isTrue hk =>
    rw [if_pos hk] at hcut
    rw [Flash.selected_of_other_none hS hcut, hsrc]
    rfl
  case isFalse hk =>
    rw [if_neg hk] at hcut
    exact Flash.selected_of_successor hS hsrc hcut hseq

/-! ## Phases -/

/-- The IAP region has been erased for the newest record. -/
def Attempt (lo n : ℕ) (flash : Flash) (c : Core) : Prop :=
  ∃ r, flash.selected = some (r, c.metadataSourceZone) ∧ r.Tracked lo n ∧ r.Installing ∧
    r.retryCount = c.metadataRetryCount

/-- The erase the phase behind a commit is going to issue. -/
def BootState.erases (s : BootState) : ℕ := if s = .copyErase then 1 else 0

/-- A commit of an installation, over the newest record `r`. -/
structure Advance (lo n : ℕ) (flash : Flash) (c : Core) (r : Metadata) : Prop where
  newest : flash.selected = some (r, c.metadataSourceZone)
  old : r.Tracked lo n
  new : (metadataCurrent c).Tracked lo (n + c.metadataNextState.erases)
  grows : r.progress ≤ (metadataCurrent c).progress
  next : (metadataCurrent c).Installing ∧ (c.metadataNextState = .copyErase ∨
      c.metadataNextState = .copyRead ∨ c.metadataNextState = .verifyRead) ∨
    c.metadataState = .valid ∧ c.metadataNextState = .jumpPending

/-- What the newest record says in each phase. No session is open. -/
def Progress (lo n : ℕ) (flash : Flash) (c : Core) : Prop :=
  match c.state with
  | .metadataErase | .metadataEraseWait | .metadataWrite | .metadataWriteWait =>
    ∃ r, Advance lo n flash c r
  | .copyErase => Attempt lo (n + 1) flash c
  | .copyEraseWait | .copyRead | .copyReadWait | .copyWrite | .copyWriteWait
  | .copyVerifyRead | .copyVerifyReadWait | .verifyRead | .verifyReadWait
  | .finalRead | .finalReadWait => Attempt lo n flash c
  | .downloadErase | .downloadEraseWait | .downloadReady | .packetWriteWait => False
  | _ => Budget lo n flash

theorem Attempt.budget (h : Attempt lo n flash c) : Budget lo n flash := by
  obtain ⟨r, hsel, hr, _⟩ := h
  exact ⟨r, _, hsel, hr⟩

theorem Attempt.le {n' : ℕ} (h : Attempt lo n flash c) (hn : n' ≤ n) : Attempt lo n' flash c := by
  obtain ⟨r, hsel, hr, hrest⟩ := h
  exact ⟨r, hsel, hr.le hn, hrest⟩

theorem Progress.budget (h : Progress lo n flash c) : Budget lo n flash := by
  unfold Progress at h
  split at h
  case h_5 => exact (h.le (Nat.le_succ n)).budget
  case h_17 | h_18 | h_19 | h_20 => exact h.elim
  case h_21 => exact h
  case h_1 | h_2 | h_3 | h_4 =>
    obtain ⟨r, hr⟩ := h
    exact ⟨r, _, hr.newest, hr.old⟩
  all_goals exact h.budget

/-! ## Interrupted operations -/

/-- While the replaced copy is being erased, the newest record stays. -/
theorem Advance.erase (ha : Advance lo n flash c r) (hS : c.metadataSourceZone.IsCopy)
    (ht : c.metadataTargetZone = otherCopy c.metadataSourceZone) (k : ℕ) :
    ((FlashOp.erase c.metadataTargetZone 0 metadataEncodedSize).apply k flash).selected
      = some (r, c.metadataSourceZone) := by
  rw [ht]
  exact selected_eraseCut hS ha.newest k

/-- While the record is being written, the newest record is the old one or the new. -/
theorem Advance.write {reads : Prop} (ha : Advance lo n flash c r) (hs : Synced flash g c)
    (hc : CommitOk reads flash log g c) (he : TargetErased flash c) (k : ℕ) :
    ((FlashOp.write c.metadataTargetZone 0 (c.copyBuffer.slice 0 metadataEncodedSize)).apply k
      flash).selected = if k < metadataEncodedSize then some (r, c.metadataSourceZone)
        else some (metadataCurrent c, c.metadataTargetZone) := by
  have hseq : (metadataCurrent c).sequence = r.sequence + 1 := by
    rw [(hs.record r (Flash.copy_of_selected ha.newest).2).1]
    rfl
  unfold TargetErased at he
  rw [hc.target] at he ⊢
  rw [hc.encoded]
  exact selected_writeCut hs.source ha.newest he hseq k

/-- **Cut.** However far the operation in flight got, the next boot finds no less. -/
theorem Progress.cut {reads : Prop} (hi : Inv reads w h) (hp : Progress lo n w.flash w.core)
    (hop : w.pending = some op) (k : ℕ) : Budget lo n (op.apply k w.flash) := by
  have hb := hp.budget
  have hexp : expectedOp w.core = some op := hi.pending ▸ hop
  have hout : op.zone = .iap ∨ op.zone = .staging → Budget lo n (op.apply k w.flash) := by
    intro hz
    obtain ⟨m, z, hsel, hm⟩ := hb
    exact ⟨m, z, by rw [selected_outside hz, hsel], hm⟩
  unfold Progress at hp
  unfold expectedOp at hexp
  cases hs : w.core.state <;> rw [hs] at hp hexp <;>
    simp only [Option.some.injEq, reduceCtorEq] at hexp <;> subst hexp
  case metaAWait | metaBWait | startupWait => exact hb
  case downloadEraseWait | packetWriteWait => exact hp.elim
  case metadataEraseWait =>
    obtain ⟨r, ha⟩ := hp
    obtain ⟨hr, hc⟩ := hi.evaluated hs rfl
    exact ⟨r, _, ha.erase hr.synced.source hc.target k, ha.old⟩
  case metadataWriteWait =>
    obtain ⟨r, ha⟩ := hp
    obtain ⟨hr, hc, he, _⟩ := hi.evaluated hs rfl
    have hsel := ha.write hr.synced hc he k
    split at hsel
    · exact ⟨r, _, hsel, ha.old⟩
    · exact ⟨_, _, hsel, ha.new.le (Nat.le_add_right _ _)⟩
  case copyEraseWait | copyWriteWait => exact hout (Or.inl rfl)
  all_goals exact hb

/-! ## Counting erases -/

/-- An erase of the IAP region is handed to the storage. -/
def Event.erasesIap : Event → Bool
  | .submitted (.erase .iap _ _) => true
  | _ => false

/-- How many erases of the IAP region are among some observations. -/
def iapErases (es : List Event) : ℕ := es.countP Event.erasesIap

@[simp] theorem iapErases_nil : iapErases [] = 0 := rfl

@[simp] theorem iapErases_append (es fs : List Event) :
    iapErases (es ++ fs) = iapErases es + iapErases fs := List.countP_append

@[simp] theorem iapErases_settle (w : World) : iapErases (w.settle env st).2 = 0 := by
  unfold World.settle
  split
  · split
    · split
      · rename_i op _ _ _
        cases op <;> rfl
      · rfl
    · rfl
  · rfl

/-- Only operations are erases. -/
theorem iapErases_answerAll (w : World) {calls : List Call} (h : ∀ op, Call.flash op ∉ calls) :
    iapErases (w.answerAll env st calls).2 = 0 := by
  induction calls generalizing w with
  | nil => rfl
  | cons call calls ih =>
    simp only [World.answerAll, iapErases_append, ih _ fun op hop =>
      h op (List.mem_cons_of_mem _ hop), Nat.add_zero]
    cases call with
    | flash op => exact absurd List.mem_cons_self (h op)
    | _ => rfl

theorem iapErases_submitOp {wait : BootState} (hproc : process env w.core = submitOp env c op wait)
    (hp : w.pending = none) :
    iapErases (w.step (.process env st)).2 = iapErases [.submitted op] := by
  have hset : w.settle env st = (w, []) := by simp [World.settle, hp]
  simp only [World.step, hset, hproc, submitOp, World.answerAll, World.answer, List.append_nil,
    List.nil_append]

theorem iapErases_waiting (hs : w.core.state.waiting = true) :
    iapErases (w.step (.process env st)).2 = 0 := by
  have hs' : (w.settle env st).1.core.state.waiting = true := by
    unfold World.settle
    split
    · split
      · simpa using hs
      · exact hs
    · exact hs
  simp only [World.step, iapErases_append, iapErases_settle, Nat.zero_add]
  refine iapErases_answerAll _ fun op hop => ?_
  rw [process_waiting hs', storageWaitHandle] at hop
  split at hop
  · cases hop
  · split at hop
    · cases hop
    · obtain ⟨_, _, _, hcall⟩ := storageDone_calls hop
      cases hcall

theorem iapErases_copy (hz : op.zone.IsCopy) : iapErases [.submitted op] = 0 := by
  cases op with
  | erase zone offset length =>
    rcases hz with hz | hz <;> cases hz <;> rfl
  | _ => rfl

/-! ## Calls of `process` -/

/-- What a step leaves, the erases it issued included. -/
def Stepped (lo n : ℕ) (w : World) (a : Action) : Prop :=
  Progress lo (n + iapErases (w.step a).2) (w.step a).1.flash (w.step a).1.core

theorem Progress.submit {wait : BootState} (hp : w.pending = none)
    (hproc : process env w.core = submitOp env c op wait)
    (hnext : Progress lo (n + iapErases [.submitted op]) w.flash { c with state := wait })
    (hcut : ∀ k, Budget lo (n + iapErases [.submitted op]) (op.apply k w.flash)) :
    Stepped lo n w (.process env st) := by
  unfold Stepped
  rw [iapErases_submitOp hproc hp, step_submitOp hp hproc]
  split
  · exact hnext
  · exact hcut st.progress

/-- Operations other than an erase of the IAP region, outside the two copies. -/
theorem Attempt.submit {wait : BootState} (ha : Attempt lo n w.flash c) (hp : w.pending = none)
    (hproc : process env w.core = submitOp env c op wait)
    (hop : iapErases [.submitted op] = 0) (hz : op.zone = .iap ∨ op.zone = .staging)
    (hwait : Attempt lo n w.flash { c with state := wait } →
      Progress lo n w.flash { c with state := wait }) : Stepped lo n w (.process env st) := by
  refine Progress.submit hp hproc ?_ fun k => ?_ <;> rw [hop, Nat.add_zero]
  · exact hwait ha
  · obtain ⟨m, z, hsel, hm⟩ := ha.budget
    exact ⟨m, z, by rw [selected_outside hz, hsel], hm⟩

/-- A call of `process` that submits nothing. -/
theorem Stepped.quiet {calls : List Call} (hp : w.pending = none)
    (hproc : process env w.core = (c, calls)) (hcalls : ∀ op, Call.flash op ∉ calls)
    (hnext : Progress lo n w.flash c) : Stepped lo n w (.process env st) := by
  have hset : w.settle env st = (w, []) := by simp [World.settle, hp]
  unfold Stepped
  simp only [World.step, hset, hproc, answerAll_of_no_flash _ hcalls, List.nil_append,
    iapErases_answerAll _ hcalls]
  exact hnext

/-- Reads leave the budget alone. -/
theorem Progress.submitRead {wait : BootState} {zone : FlashZone} {offset length : ℕ}
    {target : ReadTarget} (hb : Budget lo n w.flash) (hp : w.pending = none)
    (hproc : process env w.core = submitOp env c (.read zone offset length target) wait)
    (hnext : Progress lo n w.flash { c with state := wait }) :
    Stepped lo n w (.process env st) :=
  Progress.submit hp hproc hnext fun _ => hb

theorem Progress.startupRead (hb : Budget lo n w.flash) (hp : w.pending = none)
    (hs : w.core.state = .startupRead) : Stepped lo n w (.process env st) := by
  have hproc : process env w.core = startupReadSubmit env w.core := process_phase hs rfl
  unfold startupReadSubmit at hproc
  simp only at hproc
  split at hproc
  · exact Stepped.quiet hp hproc (fun _ h => nomatch h) hb
  · exact Progress.submitRead hb hp hproc hb

theorem Progress.jumpPending (hb : Budget lo n w.flash) (hp : w.pending = none)
    (hs : w.core.state = .jumpPending) : Stepped lo n w (.process env st) := by
  have hproc : process env w.core = ((jumpStep env w.core).1, (jumpStep env w.core).2) :=
    process_phase hs rfl
  have hcalls : ∀ op, Call.flash op ∉ (jumpStep env w.core).2 := by
    intro op hop
    unfold jumpStep at hop
    split at hop
    · cases hop
    · split at hop
      · cases hop
      · cases List.mem_singleton.mp hop
  refine Stepped.quiet hp hproc hcalls ?_
  unfold jumpStep
  split
  · simpa only [Progress, hs] using hb
  · split
    · exact hb
    · simp only
      split
      · exact hb
      · simpa only [Progress, hs] using hb

/-- **Step.** A phase that does not wait. -/
theorem Progress.act {reads : Prop} (hi : Inv reads w h) (hw : w.core.state.waiting = false)
    (hp : Progress lo n w.flash w.core) : Stepped lo n w (.process env st) := by
  have hnone := hi.idle hw
  have hb := hp.budget
  have hphase := hp
  unfold Progress at hphase
  cases hs : w.core.state <;> rw [hs] at hphase
  case metaARead | metaBRead => exact Progress.submitRead hb hnone (process_phase hs rfl) hb
  case startupRead => exact Progress.startupRead hb hnone hs
  case downloadErase | downloadReady => exact hphase.elim
  case copyErase =>
    -- The erase spends what the commit before it has put on record.
    refine Progress.submit hnone (process_phase hs rfl) hphase fun k => ?_
    obtain ⟨m, z, hsel, hm⟩ := Attempt.budget hphase
    exact ⟨m, z, by rw [selected_outside (Or.inl rfl), hsel], hm⟩
  case copyRead =>
    exact Attempt.submit
      (c := { w.core with copyChunkLength := chunkLength w.core w.core.copyOffset })
      hphase hnone (process_phase hs rfl) rfl (Or.inr rfl) id
  case copyWrite => exact Attempt.submit hphase hnone (process_phase hs rfl) rfl (Or.inl rfl) id
  case copyVerifyRead =>
    exact Attempt.submit hphase hnone (process_phase hs rfl) rfl (Or.inl rfl) id
  case verifyRead =>
    have hproc : process env w.core = submitOp env
        { w.core with copyChunkLength := chunkLength w.core w.core.verifyOffset }
        (.read .iap w.core.verifyOffset.toNat (chunkLength w.core w.core.verifyOffset).toNat
          (.copyBuffer 0)) .verifyReadWait := by
      rw [process_phase hs rfl]
      rfl
    exact Attempt.submit
      (c := { w.core with copyChunkLength := chunkLength w.core w.core.verifyOffset })
      hphase hnone hproc rfl (Or.inl rfl) id
  case finalRead => exact Attempt.submit hphase hnone (process_phase hs rfl) rfl (Or.inl rfl) id
  case metadataErase =>
    obtain ⟨r, ha⟩ := hphase
    obtain ⟨hr, hc⟩ := hi.evaluated hs rfl
    have hop :
        iapErases [.submitted (.erase w.core.metadataTargetZone 0 metadataEncodedSize)] = 0 :=
      iapErases_copy hc.copy
    refine Progress.submit hnone (process_phase hs rfl) ?_ fun k => ?_ <;>
      rw [hop, Nat.add_zero]
    · exact ⟨r, { ha with }⟩
    · exact ⟨r, _, ha.erase hr.synced.source hc.target k, ha.old⟩
  case metadataWrite =>
    obtain ⟨r, ha⟩ := hphase
    obtain ⟨hr, hc, he⟩ := hi.evaluated hs rfl
    refine Progress.submit hnone (process_phase hs rfl) ⟨r, { ha with }⟩ fun k => ?_
    have hsel := ha.write hr.synced hc he k
    split at hsel
    · exact ⟨r, _, hsel, ha.old⟩
    · exact ⟨_, _, hsel, ha.new.le (Nat.le_add_right _ _)⟩
  case jumpPending => exact Progress.jumpPending hb hnone hs
  case uninitialized | waitUpgrade | configError =>
    exact Stepped.quiet hnone (process_phase hs rfl) (fun _ h => nomatch h) hp
  all_goals rw [hs] at hw; cases hw

/-! ## Completions -/

/-- A commit over the newest record starts. -/
theorem Advance.start (hb : 84 ≤ c.config.copyBufferSize) {state : MetadataState}
    {next : BootState} (ha : Advance lo n flash (committing c state next) r) :
    Progress lo n flash (metadataCommitStart c state next) := by
  rw [metadataCommitStart_eq hb]
  exact ⟨r, ha⟩

/-- A commit that records the copying once more. -/
theorem Attempt.recommit (ha : Attempt lo n flash c) (hb : 84 ≤ c.config.copyBufferSize)
    {next : BootState} (hn : next = .copyRead ∨ next = .verifyRead) :
    Progress lo n flash (metadataCommitStart c .copying next) := by
  obtain ⟨r, hsel, hr, hi, hretry⟩ := ha
  have hcur : (metadataCurrent (committing c .copying next)).Installing := Or.inr rfl
  have hprog : (metadataCurrent (committing c .copying next)).progress = r.progress := by
    rw [hcur.progress, hi.progress, hretry]
    rfl
  have hnone : next.erases = 0 := by rcases hn with rfl | rfl <;> rfl
  refine Advance.start hb ⟨hsel, hr, ⟨Or.inr (Or.inl hcur), fun _ => ?_, ?_, ?_⟩, ?_,
    Or.inl ⟨hcur, Or.inr hn⟩⟩
  · have hle := hr.retry hi
    rw [hretry] at hle
    exact hle
  · rw [hprog]
    exact hr.floor
  · rw [hprog]
    show n + next.erases ≤ _
    rw [hnone]
    exact hr.erases
  · exact Nat.le_of_eq hprog.symm

/-- The commit that ends the installation. -/
theorem Attempt.finish (ha : Attempt lo n flash c) (hb : 84 ≤ c.config.copyBufferSize) :
    Progress lo n flash
      (metadataCommitStart { c with metadataRetryCount := 0 } .valid .jumpPending) := by
  obtain ⟨r, hsel, hr, hi, _⟩ := ha
  have hle := hr.retry hi
  have hgrow : r.progress ≤ 5 := by
    rw [hi.progress]
    omega
  have hfloor := hr.floor
  have herases := hr.erases
  have hbuf : 84 ≤ ({ c with metadataRetryCount := 0 } : Core).config.copyBufferSize := hb
  refine Advance.start hbuf (r := r) ⟨hsel, hr, ⟨Or.inr (Or.inr rfl),
    fun h => h.elim (fun h => nomatch h) (fun h => nomatch h), ?_, ?_⟩, hgrow, Or.inr ⟨rfl, rfl⟩⟩
  · show lo ≤ 5
    omega
  · show n + 0 ≤ min 4 5
    omega

theorem Attempt.copyVerifyDone (ha : Attempt lo n flash c) (hb : 84 ≤ c.config.copyBufferSize) :
    Progress lo n flash (copyVerifyDone c) := by
  unfold Bootloader.copyVerifyDone
  split
  · exact ha.budget
  · simp only
    split
    · exact Attempt.recommit (c := { c with
        copyOffset := c.copyOffset + c.copyChunkLength, copyChunkLength := 0, verifyOffset := 0
        verifyCrc := c.config.crc16Init }) ha hb (Or.inr rfl)
    · exact Attempt.recommit (c := { c with
        copyOffset := c.copyOffset + c.copyChunkLength, copyChunkLength := 0 }) ha hb (Or.inl rfl)

theorem Attempt.verifyReadDone (ha : Attempt lo n flash c) :
    Progress lo n flash (verifyReadDone c) := by
  unfold Bootloader.verifyReadDone
  simp only
  split
  · split
    · exact ha.budget
    · exact ha
  · exact ha

/-- A header check ends resident, in the final commit or in the jump. -/
theorem installedHeaderEvaluate_core (env : Env) (c : Core) (finalImage : Bool) :
    ∃ info, (∃ r, (installedHeaderEvaluate env c finalImage).1
        = residentFailure { c with upgradeInfo := info } r) ∨
      (installedHeaderEvaluate env c finalImage).1 = if finalImage then
          metadataCommitStart { c with upgradeInfo := info, metadataRetryCount := 0 } .valid
            .jumpPending
        else { c with upgradeInfo := info, state := .jumpPending, result := .success } := by
  unfold installedHeaderEvaluate
  simp only
  split
  · exact ⟨c.upgradeInfo, Or.inl ⟨_, rfl⟩⟩
  · have hfix : ∃ info, (if c.upgradeInfo.fileSize = 0 then { c with
        upgradeInfo := { c.upgradeInfo with fileSize := (env.zoneInfo .iap).2.size } } else c)
        = { c with upgradeInfo := info } := by
      split
      · exact ⟨_, rfl⟩
      · exact ⟨c.upgradeInfo, rfl⟩
    obtain ⟨info, hfix⟩ := hfix
    rw [hfix]
    refine ⟨info, ?_⟩
    split
    · exact Or.inl ⟨_, rfl⟩
    · right
      cases finalImage <;> rfl

/-- The header of the installed image: resident, or the final commit. -/
theorem Attempt.header (ha : Attempt lo n flash c) (hb : 84 ≤ c.config.copyBufferSize) :
    Progress lo n flash (installedHeaderEvaluate env c true).1 := by
  obtain ⟨info, ⟨r, h⟩ | h⟩ := installedHeaderEvaluate_core env c true <;> rw [h]
  · exact ha.budget
  · exact Attempt.finish (c := { c with upgradeInfo := info }) ha hb

/-- The header at startup: resident, or on to the jump. -/
theorem Budget.header (hb : Budget lo n flash) :
    Progress lo n flash (installedHeaderEvaluate env c false).1 := by
  obtain ⟨info, ⟨r, h⟩ | h⟩ := installedHeaderEvaluate_core env c false <;> rw [h]
  · exact hb
  · exact hb

/-- The record of a commit is the newest. -/
theorem Advance.done {reads : Prop} (ha : Advance lo n flash c r) (hs : Synced flash g c)
    (hc : CommitOk reads flash log g c) (he : TargetErased flash c) :
    Progress lo n ((FlashOp.write c.metadataTargetZone 0
      (c.copyBuffer.slice 0 metadataEncodedSize)).apply metadataEncodedSize flash)
      (metadataWriteDone c) := by
  have hsel := ha.write hs hc he metadataEncodedSize
  rw [if_neg (Nat.lt_irrefl _)] at hsel
  have hnew := ha.new
  rcases ha.next with ⟨hi, hn | hn | hn⟩ | ⟨_, hn⟩ <;> rw [hn] at hnew <;>
    simp only [Progress, metadataWriteDone, hn]
  · exact ⟨metadataCurrent c, hsel, hnew, hi, rfl⟩
  · exact ⟨metadataCurrent c, hsel, hnew, hi, rfl⟩
  · exact ⟨metadataCurrent c, hsel, hnew, hi, rfl⟩
  · exact ⟨metadataCurrent c, _, hsel, hnew⟩

/-! ## Boots -/

/-- Without a request for a session, a start reads the header or stays resident. -/
theorem Budget.startupDecide (hb : Budget lo n flash) (hbuf : 84 ≤ c.config.copyBufferSize) :
    (startupDecide env c).sessionActive = true ∨ Progress lo n flash (startupDecide env c) := by
  unfold Bootloader.startupDecide
  split
  · exact Or.inr hb
  · exact Or.inr hb
  · simp only
    split
    · rcases upgradeBegin_cases env { c with state := .waitUpgrade } (some c.startupUpgradeInfo)
        c.config.defaultMode with ⟨r, hne, heq⟩ | ⟨i, m, _, _, heq⟩ <;> rw [heq]
      · cases r <;> first | exact absurd rfl hne | exact Or.inr hb
      · refine Or.inl ?_
        have hbuf' :
            84 ≤ (sessionReset { c with state := .waitUpgrade } i m).config.copyBufferSize :=
          hbuf
        simp only [metadataCommitStart_eq hbuf']
        rfl
    · exact Or.inr hb

/-- A boot takes the next attempt if there is one left. -/
theorem Budget.retry (hm : m.Tracked lo n) (hi : m.Installing) (hlt : ¬ m.retryCount ≥ 3)
    (hsel : flash.selected = some (m, S)) (hbuf : 84 ≤ c.config.copyBufferSize)
    (hS : c.metadataSourceZone = S) (hr : c.metadataRetryCount = m.retryCount + 1) :
    Progress lo n flash (metadataCommitStart c .copying .copyErase) := by
  have hlt' : m.retryCount.toNat < 3 := by
    rw [ge_iff_le, UInt8.not_le, UInt8.lt_iff_toNat_lt] at hlt
    exact hlt
  have hcount : c.metadataRetryCount.toNat = m.retryCount.toNat + 1 := by
    rw [hr, UInt8.toNat_add, UInt8.toNat_one, Nat.mod_eq_of_lt (by omega)]
  have hcur : (metadataCurrent (committing c .copying .copyErase)).Installing := Or.inr rfl
  have hprog : (metadataCurrent (committing c .copying .copyErase)).progress = m.progress + 1 := by
    rw [hcur.progress, hi.progress, ← hcount]
    rfl
  have hfloor := hm.floor
  have herases := hm.erases
  have hold := hi.progress
  refine Advance.start hbuf (r := m) ⟨by rw [hsel, ← hS]; rfl, hm,
    ⟨Or.inr (Or.inl hcur), fun _ => ?_, ?_, ?_⟩, ?_, Or.inl ⟨hcur, Or.inl rfl⟩⟩
  · show c.metadataRetryCount.toNat ≤ 3
    omega
  · omega
  · show n + 1 ≤ _
    rw [hprog]
    omega
  · omega

/-- **Evaluation.** A boot resumes the installation, stays resident or starts the image,
unless it opens a new session. -/
theorem Budget.evaluate (hb : Budget lo n flash)
    (hbuf : 84 ≤ c.config.copyBufferSize)
    (hsel : metadataSelect (c.copyBuffer.slice 0 metadataEncodedSize)
      (c.copyBuffer.slice metadataEncodedSize metadataEncodedSize) = flash.selected) :
    (metadataStartupEvaluate env c).sessionActive = true ∨
      Progress lo n flash (metadataStartupEvaluate env c) := by
  obtain ⟨m, S, hm, ht⟩ := hb
  have hbudget : Budget lo n flash := ⟨m, S, hm, ht⟩
  unfold metadataStartupEvaluate
  rw [hsel, hm]
  simp only
  split
  · rename_i hinst
    split
    · exact Or.inr hbudget
    · rename_i hlt
      exact Or.inr (Budget.retry (c := { metadataLoad c m S with
        metadataRetryCount := (metadataLoad c m S).metadataRetryCount + 1, copyOffset := 0 })
        ht hinst.1 hlt hm hbuf rfl rfl)
  · split
    · exact Or.inr hbudget
    · exact hbudget.startupDecide hbuf

/-! ## The waiting phases -/

theorem Attempt.outside (ha : Attempt lo n flash c) (hz : op.zone = .iap ∨ op.zone = .staging)
    (k : ℕ) : Attempt lo n (op.apply k flash) c := by
  unfold Attempt
  rw [selected_outside hz]
  exact ha

/-- The second metadata read of a boot completes the selection. -/
theorem Inv.selected_metaB {reads : Prop} (hi : Inv reads w h) (hs : w.core.state = .metaBWait)
    (hf : st.delivered = (w.flash .metaB).slice 0 metadataEncodedSize) {c' : Core}
    (hc : c' = (FlashOp.read .metaB 0 metadataEncodedSize
      (.copyBuffer metadataEncodedSize)).deliver st.delivered w.core) :
    metadataSelect (c'.copyBuffer.slice 0 metadataEncodedSize)
      (c'.copyBuffer.slice metadataEncodedSize metadataEncodedSize) = w.flash.selected := by
  have hp := hi.phase
  unfold PhaseOk at hp
  rw [hs] at hp
  have hlen : st.delivered.length = metadataEncodedSize := by rw [hf, Memory.length_slice]
  rw [deliver_copyBuffer _ _ _ _ _ hlen] at hc
  subst hc
  have hA : (w.core.copyBuffer.write metadataEncodedSize st.delivered).slice 0 metadataEncodedSize
      = (w.flash .metaA).slice 0 metadataEncodedSize := by
    rw [Memory.slice_write_disjoint _ _ (Or.inl (by simp)), hp.2.buffer]
  have hB : (w.core.copyBuffer.write metadataEncodedSize st.delivered).slice metadataEncodedSize
      metadataEncodedSize = (w.flash .metaB).slice 0 metadataEncodedSize := by
    rw [Memory.slice_write_of_length hlen, hf]
  simp only [hA, hB]
  rfl

/-- The operation a phase has waited for is complete. -/
theorem Progress.complete (hi : Inv False w h) (hop : w.pending = some op)
    (hread : w.core.state = .metaAWait ∨ w.core.state = .metaBWait → w.faithful st.delivered)
    (hp : Progress lo n w.flash w.core) :
    (storageDone env (w.completed op st).core).1.sessionActive = true ∨
      Progress lo n (w.completed op st).flash (storageDone env (w.completed op st).core).1 := by
  have hb := hp.budget
  have hexp : expectedOp w.core = some op := hi.op hop
  have hstate : (w.completed op st).core.state = w.core.state := by simp [World.completed]
  unfold storageDone
  rw [hstate]
  unfold Progress at hp
  unfold expectedOp at hexp
  cases hs : w.core.state <;> rw [hs] at hp hexp <;>
    simp only [Option.some.injEq, reduceCtorEq] at hexp <;> subst hexp
  case metaAWait => exact Or.inr hb
  case metaBWait =>
    have hbuf : 84 ≤ w.core.config.copyBufferSize := by
      have hboot := hi.phase
      unfold PhaseOk at hboot
      rw [hs] at hboot
      exact hboot.1.buffer
    exact Budget.evaluate hb hbuf
      (hi.selected_metaB hs (hread (Or.inr hs) _ _ _ _ hop) rfl)
  case startupWait => exact Or.inr hb.header
  case downloadEraseWait | packetWriteWait => exact hp.elim
  case copyEraseWait =>
    have hz : (FlashOp.erase .iap 0 w.core.upgradeInfo.fileSize.toNat).zone = .iap := rfl
    exact Or.inr (hp.outside (Or.inl hz) _)
  case copyReadWait => exact Or.inr hp
  case copyWriteWait =>
    have hz : (FlashOp.write .iap w.core.copyOffset.toNat
      (w.core.copyBuffer.slice 0 w.core.copyChunkLength.toNat)).zone = .iap := rfl
    exact Or.inr (hp.outside (Or.inl hz) _)
  case copyVerifyReadWait =>
    obtain ⟨hr, _⟩ := hi.evaluated hs rfl
    exact Or.inr (Attempt.copyVerifyDone hp hr.synced.buffer)
  case verifyReadWait => exact Or.inr (Attempt.verifyReadDone hp)
  case finalReadWait =>
    obtain ⟨hr, _⟩ := hi.evaluated hs rfl
    exact Or.inr (Attempt.header hp hr.synced.buffer)
  case metadataEraseWait =>
    obtain ⟨r, ha⟩ := hp
    obtain ⟨hr, hc⟩ := hi.evaluated hs rfl
    exact Or.inr ⟨r, { ha with newest := ha.erase hr.synced.source hc.target _ }⟩
  case metadataWriteWait =>
    obtain ⟨r, ha⟩ := hp
    obtain ⟨hr, hc, he, _⟩ := hi.evaluated hs rfl
    have hlen : (FlashOp.write w.core.metadataTargetZone 0
        (w.core.copyBuffer.slice 0 metadataEncodedSize)).size = metadataEncodedSize :=
      Memory.length_slice _ _ _
    unfold World.completed
    rw [hlen]
    exact Or.inr (ha.done hr.synced hc he)

/-- **Step.** A phase that waits. -/
theorem Progress.react (hi : Inv False w h) (hw : w.core.state.waiting = true)
    (ha : w.Admits False (.process env st)) (hp : Progress lo n w.flash w.core) :
    ((w.step (.process env st)).1.core.sessionActive = true) ∨
      Stepped lo n w (.process env st) := by
  have hsome : (expectedOp w.core).isSome = true := by rw [isSome_expectedOp, hw]
  obtain ⟨op, hexp⟩ := Option.isSome_iff_exists.mp hsome
  have hpend : w.pending = some op := hi.pending.trans hexp
  unfold Stepped
  rw [iapErases_waiting hw, Nat.add_zero]
  rcases step_waiting env st hw hpend with h | ⟨_, _, h⟩ | ⟨hbusy, _, h⟩ <;> rw [h]
  · exact Or.inr hp
  · exact Or.inr (hp.cut hi hpend st.progress)
  · exact hp.complete hi hpend fun hs => (ha.2.1 hs hbusy).2

end Atoman.Bootloader
