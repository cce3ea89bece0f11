import Atoman.Bootloader.Launch

/-!
# Metadata commits on any storage

Here nothing is assumed about the storage: any read may fail or lie, so the core may
be resident with the defaults of a boot that never saw its metadata. A commit replaces
the copy that is not the source. Whether it is atomic and durable depends on the source
copy alone, and the condition is exact.
-/

namespace Atoman.Bootloader
open Lib

variable {w w' : World} {c : Core} {env : Env} {st : Storage}

/-- Every run: any initial flash, any actions. -/
def anyRuns : Transition World where
  init w := ∃ flash buffer, w = (Sys.initial flash buffer).world
  next w w' := ∃ a, w' = (w.step a).1

/-! ## What every reachable core has in common -/

/-- The phases of a commit. -/
def BootState.committing : BootState → Bool
  | .metadataErase | .metadataEraseWait | .metadataWrite | .metadataWriteWait => true
  | _ => false

/-- The phases a commit leads to. -/
def BootState.afterCommit : BootState → Bool
  | .downloadErase | .downloadReady | .copyErase | .copyRead | .verifyRead | .jumpPending => true
  | _ => false

/-- An initialised core. -/
structure Ready (c : Core) : Prop where
  buffer : 84 ≤ c.config.copyBufferSize
  source : c.metadataSourceZone.IsCopy

/-- The record under way sits in the copy buffer. -/
structure Committing (c : Core) : Prop where
  target : c.metadataTargetZone = otherCopy c.metadataSourceZone
  encoded : c.copyBuffer.slice 0 metadataEncodedSize = metadataEncode (metadataCurrent c)
  next : c.metadataNextState.afterCommit = true

/-- A core that waits for nothing. -/
structure Settled (c : Core) : Prop where
  ready : Ready c
  idle : c.state.waiting = false
  commit : c.state.committing = true → Committing c

theorem Ready.core {c' : Core} (hr : Ready c) (hcfg : c'.config = c.config)
    (hz : c'.metadataSourceZone = c.metadataSourceZone) : Ready c' :=
  ⟨by rw [hcfg]; exact hr.buffer, by rw [hz]; exact hr.source⟩

theorem Ready.resident (hr : Ready c) (result : Result) : Settled (residentFailure c result) :=
  ⟨⟨hr.buffer, hr.source⟩, rfl, fun h => nomatch h⟩

theorem Ready.commit (hr : Ready c) (state : MetadataState) {next : BootState}
    (hn : next.afterCommit = true) : Settled (metadataCommitStart c state next) := by
  rw [metadataCommitStart_eq hr.buffer]
  have hencoded : (committing c state next).copyBuffer.slice 0 metadataEncodedSize
      = metadataEncode (metadataCurrent { c with metadataState := state }) := by
    simp only [Bootloader.committing]
    exact Memory.slice_write_of_length (length_metadataEncode _)
  exact ⟨⟨hr.buffer, hr.source⟩, rfl, fun _ => ⟨rfl, hencoded, hn⟩⟩

/-- A phase that neither waits nor commits asks for nothing more. -/
theorem Ready.plain (hr : Ready c) (hw : c.state.waiting = false)
    (hc : c.state.committing = false) : Settled c :=
  ⟨hr, hw, fun h => by rw [hc] at h; cases h⟩

theorem Ready.upgradeBegin (hr : Ready c) (hw : c.state.waiting = false)
    (hc : c.state.committing = true → Committing c) (env : Env) (info : Option UpgradeInfo)
    (mode : Option UpgradeMode) : Settled (upgradeBegin env c info mode).1 := by
  rcases upgradeBegin_cases env c info mode with ⟨r, _, heq⟩ | ⟨i, m, _, _, heq⟩ <;> rw [heq]
  · exact ⟨hr, hw, hc⟩
  · refine Ready.commit ?_ _ rfl
    exact hr.core rfl rfl

theorem Ready.startupDecide (hr : Ready c) : Settled (startupDecide env c) := by
  unfold Bootloader.startupDecide
  split
  · exact Ready.plain ⟨hr.buffer, hr.source⟩ rfl rfl
  · exact Ready.plain ⟨hr.buffer, hr.source⟩ rfl rfl
  · simp only
    have hr' : Ready { c with state := .waitUpgrade } := ⟨hr.buffer, hr.source⟩
    split
    · have hb := hr'.upgradeBegin rfl (fun h => nomatch h) env (some c.startupUpgradeInfo)
        c.config.defaultMode
      split <;> rename_i heq <;> rw [heq] at hb
      · exact hb
      · exact hb.ready.resident _
    · exact Ready.plain ⟨hr.buffer, hr.source⟩ rfl rfl

theorem copy_of_metadataSelect {a b : List UInt8} {m : Metadata} {z : FlashZone}
    (h : metadataSelect a b = some (m, z)) : z.IsCopy := by
  unfold metadataSelect at h
  split at h
  · cases h
  · obtain ⟨⟩ := h; exact Or.inl rfl
  · obtain ⟨⟩ := h; exact Or.inr rfl
  · split at h <;> obtain ⟨⟩ := h
    · exact Or.inr rfl
    · exact Or.inl rfl

theorem Ready.metadataStartupEvaluate (hr : Ready c) :
    Settled (metadataStartupEvaluate env c) := by
  unfold Bootloader.metadataStartupEvaluate
  split
  · rename_i m source hsel
    have hr' : Ready (metadataLoad c m source) := ⟨hr.buffer, copy_of_metadataSelect hsel⟩
    simp only
    split
    · split
      · exact hr'.resident _
      · refine Ready.commit ?_ _ rfl
        exact hr'.core rfl rfl
    · split
      · exact hr'.resident _
      · exact hr'.startupDecide
  · exact Ready.startupDecide ⟨hr.buffer, Or.inr rfl⟩

theorem Ready.installedHeaderEvaluate (hr : Ready c) (finalImage : Bool) :
    Settled (installedHeaderEvaluate env c finalImage).1 := by
  unfold Bootloader.installedHeaderEvaluate
  simp only
  split
  · exact hr.resident _
  · have hfix : Ready (if c.upgradeInfo.fileSize = 0 then { c with
        upgradeInfo := { c.upgradeInfo with fileSize := (env.zoneInfo .iap).2.size } } else c) := by
      split
      · exact ⟨hr.buffer, hr.source⟩
      · exact hr
    generalize (if c.upgradeInfo.fileSize = 0 then { c with
        upgradeInfo := { c.upgradeInfo with fileSize := (env.zoneInfo .iap).2.size } } else c)
      = c' at hfix ⊢
    split
    · exact hfix.resident _
    · split
      · refine Ready.commit ?_ _ rfl
        exact hfix.core rfl rfl
      · refine Ready.plain ?_ rfl rfl
        exact hfix.core rfl rfl

theorem afterCommit_plain {s : BootState} (h : s.afterCommit = true) :
    s.waiting = false ∧ s.committing = false := by
  cases s <;> first | exact ⟨rfl, rfl⟩ | cases h

/-- Whatever completes, the core settles. -/
theorem Ready.storageDone (hr : Ready c) (hc : c.state.committing = true → Committing c) :
    Settled (storageDone env c).1 := by
  unfold Bootloader.storageDone
  split
  case h_1 => exact Ready.plain ⟨hr.buffer, hr.source⟩ rfl rfl
  case h_2 => exact hr.metadataStartupEvaluate
  case h_3 => exact hr.installedHeaderEvaluate false
  case h_4 => exact hr.commit _ rfl
  case h_5 =>
    obtain ⟨b, n, hfoot⟩ := footerTailUpdate_eq c
      (c.packetBuffer.slice 0 c.pendingPacketLength.toNat)
    simp only [packetWriteDone, hfoot]
    exact Ready.plain ⟨hr.buffer, hr.source⟩ rfl rfl
  case h_6 => exact Ready.plain ⟨hr.buffer, hr.source⟩ rfl rfl
  case h_7 => exact Ready.plain ⟨hr.buffer, hr.source⟩ rfl rfl
  case h_8 => exact Ready.plain ⟨hr.buffer, hr.source⟩ rfl rfl
  case h_9 =>
    unfold copyVerifyDone
    split
    · exact hr.resident _
    · simp only
      split
      · refine Ready.commit ?_ _ rfl
        exact hr.core rfl rfl
      · refine Ready.commit ?_ _ rfl
        exact hr.core rfl rfl
  case h_10 =>
    rcases verifyReadDone_cases c with ⟨_, ⟨_, hdone⟩ | hdone⟩ | ⟨_, hdone⟩ <;> simp only [hdone]
    · refine Ready.plain ?_ rfl rfl
      exact hr.core rfl rfl
    · refine Ready.resident ?_ _
      exact hr.core rfl rfl
    · refine Ready.plain ?_ rfl rfl
      exact hr.core rfl rfl
  case h_11 => exact hr.installedHeaderEvaluate true
  case h_12 hs =>
    have hk := hc (by rw [hs]; rfl)
    exact ⟨⟨hr.buffer, hr.source⟩, rfl, fun _ => ⟨hk.target, hk.encoded, hk.next⟩⟩
  case h_13 hs =>
    have hk := hc (by rw [hs]; rfl)
    have hplain := afterCommit_plain hk.next
    refine Ready.plain ⟨hr.buffer, ?_⟩ hplain.1 hplain.2
    show c.metadataTargetZone.IsCopy
    rw [hk.target]; exact FlashZone.IsCopy.other _
  case h_14 => exact hr.resident _

/-- The worlds that runs visit. -/
structure Shape (w : World) : Prop where
  ready : w.core.state ≠ .configError → Ready w.core
  commit : w.core.state.committing = true → Committing w.core
  idle : w.core.state.waiting = false → w.pending = none
  inFlight : w.core.state.committing = true → w.pending = expectedOp w.core

theorem Settled.shape (hc : Settled c) (flash : Flash) : Shape ⟨c, flash, none⟩ := by
  refine ⟨fun _ => hc.ready, hc.commit, fun _ => rfl, fun _ => ?_⟩
  have hexp := isSome_expectedOp c
  rw [hc.idle] at hexp
  exact (Option.isSome_eq_false_iff.mp hexp |> Option.isNone_iff_eq_none.mp).symm

/-- Calls other than storage operations leave the world alone. -/
theorem answerAll_of_no_flash (calls : List Call) (h : ∀ op, Call.flash op ∉ calls) :
    (w.answerAll env st calls).1 = w := by
  induction calls generalizing w with
  | nil => rfl
  | cons call calls ih =>
    have ih' := fun w => ih (w := w) fun op hop => h op (List.mem_cons_of_mem _ hop)
    cases call with
    | flash op => exact absurd List.mem_cons_self (h op)
    | headerIsValid => exact ih' w
    | jumpToIap => exact ih' w

theorem submitOp_shape {op : FlashOp} {wait : BootState} {flash : Flash} (hr : Ready c)
    (hwait : wait.waiting = true) (hc : wait.committing = true →
      Committing c ∧ expectedOp { c with state := wait } = some op) :
    Shape (World.answerAll ⟨(submitOp env c op wait).1, flash, none⟩ env st
      (submitOp env c op wait).2).1 := by
  unfold submitOp
  by_cases ha : env.submit.accepted = true
  · simp only [World.answerAll, World.answer, if_pos ha]
    refine ⟨fun _ => hr.core rfl rfl, fun h => ?_, fun h => ?_, fun h => (hc h).2.symm⟩
    · obtain ⟨⟨ht, he, hn⟩, _⟩ := hc h
      exact ⟨ht, he, hn⟩
    · exact absurd (hwait.symm.trans h) (by decide)
  · simp only [World.answerAll, World.answer, if_neg ha]
    exact (hr.resident env.submit).shape _

theorem Shape.act (hw : Shape w) (hs : w.core.state.waiting = false) :
    Shape (World.answerAll { w with core := (process env w.core).1 } env st
      (process env w.core).2).1 := by
  have hp := hw.idle hs
  obtain ⟨c, flash, pending⟩ := w
  obtain rfl : pending = none := hp
  have hready : c.state ≠ .configError → Ready c := hw.ready
  change c.state.waiting = false at hs
  rw [process_phase rfl hs]
  unfold processPhase
  split
  case h_1 h => exact submitOp_shape (hready (by rw [h]; decide)) rfl fun h => nomatch h
  case h_2 h => exact submitOp_shape (hready (by rw [h]; decide)) rfl fun h => nomatch h
  case h_3 h =>
    have hr := hready (by rw [h]; decide)
    unfold startupReadSubmit
    simp only
    split
    · exact (hr.resident .configError).shape flash
    · exact submitOp_shape hr rfl fun h => nomatch h
  case h_4 h => exact submitOp_shape (hready (by rw [h]; decide)) rfl fun h => nomatch h
  case h_5 h => exact submitOp_shape (hready (by rw [h]; decide)) rfl fun h => nomatch h
  case h_6 h =>
    refine submitOp_shape (c := { c with copyChunkLength := chunkLength c c.copyOffset }) ?_ rfl
      fun h => nomatch h
    exact (hready (by rw [h]; decide)).core rfl rfl
  case h_7 h => exact submitOp_shape (hready (by rw [h]; decide)) rfl fun h => nomatch h
  case h_8 h => exact submitOp_shape (hready (by rw [h]; decide)) rfl fun h => nomatch h
  case h_9 h =>
    have hsubmit : verifyReadSubmit env c = submitOp env
        { c with copyChunkLength := chunkLength c c.verifyOffset } (.read .iap
          c.verifyOffset.toNat (chunkLength c c.verifyOffset).toNat (.copyBuffer 0))
        .verifyReadWait := rfl
    rw [hsubmit]
    refine submitOp_shape ?_ rfl fun h => nomatch h
    exact (hready (by rw [h]; decide)).core rfl rfl
  case h_10 h => exact submitOp_shape (hready (by rw [h]; decide)) rfl fun h => nomatch h
  case h_11 h =>
    have hk := hw.commit (by show c.state.committing = true; rw [h]; rfl)
    exact submitOp_shape (hready (by rw [h]; decide)) rfl fun _ => ⟨hk, rfl⟩
  case h_12 h =>
    have hk := hw.commit (by show c.state.committing = true; rw [h]; rfl)
    exact submitOp_shape (hready (by rw [h]; decide)) rfl fun _ => ⟨hk, rfl⟩
  case h_13 h =>
    have hr := hready (by rw [h]; decide)
    unfold jumpStep
    split
    · exact hw
    · split
      · exact (hr.resident env.reasonClear).shape flash
      · simp only [World.answerAll, World.answer]
        split
        · refine (Ready.resident ?_ env.jump).shape flash
          exact hr.core rfl rfl
        · refine (Ready.plain (c := { c with jumpCalled := true }) ?_ ?_ ?_).shape flash
          · exact hr.core rfl rfl
          · show c.state.waiting = false
            rw [h]; rfl
          · show c.state.committing = false
            rw [h]; rfl
  case h_14 => exact hw

theorem deliver_of_expected {op : FlashOp} (hc : c.state.committing = true)
    (hop : expectedOp c = some op) (bytes : List UInt8) : op.deliver bytes c = c := by
  unfold expectedOp at hop
  cases hs : c.state <;> rw [hs] at hop hc <;> cases hc <;> cases hop <;> rfl

theorem Ready.deliver (hr : Ready c) (op : FlashOp) (bytes : List UInt8) :
    Ready (op.deliver bytes c) := by
  cases op with
  | read zone offset length target => cases target <;> exact hr.core rfl rfl
  | _ => exact hr

/-- The reaction of a waiting core to storage that has gone idle. -/
theorem Shape.react (hw : Shape w) (hs : w.core.state.waiting = true) {op : FlashOp}
    (hp : w.pending = some op) (flash : Flash) (hb : env.busy = false) :
    Shape (World.answerAll ⟨(process env (op.deliver st.delivered w.core)).1, flash, none⟩ env st
      (process env (op.deliver st.delivered w.core)).2).1 := by
  have hr : Ready w.core := hw.ready (by
    intro h
    rw [h] at hs; cases hs)
  have hproc : process env (op.deliver st.delivered w.core)
      = storageWaitHandle env (op.deliver st.delivered w.core) :=
    process_waiting (by rw [FlashOp.deliver_state]; exact hs)
  have hcommit : (op.deliver st.delivered w.core).state.committing = true →
      Committing (op.deliver st.delivered w.core) := by
    intro h
    rw [FlashOp.deliver_state] at h
    have hexp : expectedOp w.core = some op := by rw [← hw.inFlight h, hp]
    rw [deliver_of_expected h hexp]
    exact hw.commit h
  rw [hproc, storageWaitHandle, hb]
  simp only [Bool.false_eq_true, if_false]
  split
  · exact ((hr.deliver op st.delivered).resident env.result).shape flash
  · rw [answerAll_of_no_flash]
    · exact ((hr.deliver op st.delivered).storageDone hcommit).shape flash
    · intro op' hop'
      obtain ⟨_, _, _, hcall⟩ := storageDone_calls hop'
      cases hcall

theorem Shape.process (hw : Shape w) (env : Env) (st : Storage) :
    Shape (w.step (.process env st)).1 := by
  simp only [World.step]
  by_cases hs : w.core.state.waiting = true
  · cases hp : w.pending with
    | none =>
      have hset : w.settle env st = (w, []) := by simp [World.settle, hp]
      have hr : Ready w.core := hw.ready (by
        intro h
        rw [h] at hs; cases hs)
      rw [hset]
      rw [process_waiting hs]
      unfold storageWaitHandle
      split
      · exact hw
      · split
        · simp only [World.answerAll, hp]
          exact (hr.resident env.result).shape w.flash
        · rw [answerAll_of_no_flash]
          · rw [hp]
            exact (hr.storageDone hw.commit).shape w.flash
          · intro op hop
            obtain ⟨_, _, _, hcall⟩ := storageDone_calls hop
            cases hcall
    | some op =>
      by_cases hb : env.busy = true
      · have hset : w.settle env st = (w, []) := by simp [World.settle, hp, hb]
        have hproc : Bootloader.process env w.core = (w.core, []) := by
          simp [process_waiting hs, storageWaitHandle, hb]
        rw [hset]
        simp only [hproc]
        exact hw
      · have hb' : env.busy = false := by simpa using hb
        simp only [World.settle, hp, hs, hb', Bool.not_false, Bool.and_self, if_true]
        exact hw.react hs hp _ hb'
  · have hs' : w.core.state.waiting = false := by simpa using hs
    have hset : w.settle env st = (w, []) := by simp [World.settle, hw.idle hs']
    rw [hset]
    exact hw.act hs'

theorem Shape.step (hw : Shape w) (a : Action) : Shape (w.step a).1 := by
  cases a with
  | boot args cut =>
    simp only [World.step]
    unfold bootloaderInit
    simp only
    split
    · exact ⟨fun h => absurd rfl h, (fun h => by cases h), fun _ => rfl, fun _ => rfl⟩
    · rename_i hvalid
      refine (Ready.plain ⟨?_, Or.inr rfl⟩ rfl rfl).shape _
      simp only [Config.valid, Bool.not_eq_true', not_or, Bool.not_eq_false,
        decide_eq_true_eq] at hvalid
      exact hvalid.2.2.1
  | process env st => exact hw.process env st
  | upgradeBegin env info mode =>
    simp only [World.step]
    rcases upgradeBegin_cases env w.core info mode with ⟨r, _, heq⟩ | ⟨i, m, hs, _, heq⟩ <;>
      simp only [heq]
    · exact hw
    · rw [hw.idle (by rw [hs]; rfl)]
      refine (Ready.commit (c := sessionReset w.core i m) ?_ _ rfl).shape w.flash
      exact (hw.ready (by rw [hs]; decide)).core rfl rfl
  | packetSubmit env st offset data =>
    simp only [World.step]
    rcases packetSubmit_cases env w.core offset data with ⟨r, heq⟩ | ⟨d, _, hs, _, _, _, _, heq⟩ <;>
      simp only [heq]
    · exact hw
    · have hr := hw.ready (by rw [hs]; decide)
      have hp := hw.idle (by rw [hs]; rfl)
      by_cases hacc : env.submit.accepted = true
      · simp only [hacc, if_true, World.answerAll, World.answer]
        exact ⟨fun _ => hr.core rfl rfl, (fun h => by cases h), (fun h => by cases h),
          fun h => by cases h⟩
      · simp only [if_neg hacc, World.answerAll, World.answer, hp]
        refine (Ready.plain ?_ rfl rfl).shape _
        exact hr.core rfl rfl
  | upgradeEnd expectedCrc =>
    simp only [World.step]
    unfold upgradeEnd
    by_cases hbusy : w.core.state ≠ .downloadReady ∨ !w.core.sessionActive
    · rw [if_pos hbusy]
      exact hw
    · rw [if_neg hbusy]
      have hs : w.core.state = .downloadReady := by
        by_contra hs
        exact hbusy (Or.inl hs)
      have hr := hw.ready (by rw [hs]; decide)
      rw [hw.idle (by rw [hs]; rfl)]
      split
      · exact (hr.resident _).shape w.flash
      · simp only
        split
        · have hr' : Ready { w.core with expectedCrc := expectedCrc, sessionActive := false } :=
            hr.core rfl rfl
          have hc : Settled (metadataCommitStart _ .installPending .copyErase) :=
            hr'.commit .installPending rfl
          rw [metadataCommitStart_eq hr'.buffer] at hc ⊢
          exact hc.shape w.flash
        · refine (Ready.plain ?_ rfl rfl).shape w.flash
          exact hr.core rfl rfl

theorem reachable_shape (hw : anyRuns.Reachable w) : Shape w := by
  refine Transition.Reachable.invariant (P := Shape) ?_ ?_ hw
  · rintro _ ⟨flash, buffer, rfl⟩
    exact ⟨fun h => absurd rfl h, (fun h => nomatch h), fun _ => rfl, fun _ => rfl⟩
  · rintro w _ hw ⟨a, rfl⟩
    exact hw.step a

/-! ## The commit that starts in a world -/

/-- The commit of `w` under way: calls of `process` that stay within its phases. -/
inductive CommitRun (w : World) : World → Prop
  | start : CommitRun w w
  | step {w' : World} (env : Env) (st : Storage) (hr : CommitRun w w')
      (hc : (w'.step (.process env st)).1.core.state.committing = true) :
      CommitRun w (w'.step (.process env st)).1

/-- The newest record, wherever it sits. -/
def Flash.newest (flash : Flash) : Option Metadata := flash.selected.map Prod.fst

/-- **Atomicity and durability** of the commit that starts in `w`: a power cut at any
point leaves the new record or the one selected before, and completion selects the new. -/
structure CommitAtomic (w : World) : Prop where
  cut : ∀ w', CommitRun w w' → ∀ k, (w'.cutFlash k).newest = some (metadataCurrent w.core) ∨
    (w'.cutFlash k).newest = w.flash.newest
  done : ∀ w' env st, CommitRun w w' → w'.core.state = .metadataWriteWait → env.busy = false →
    env.result = .success →
    (w'.step (.process env st)).1.flash.newest = some (metadataCurrent w.core)

/-- The next sequence wins against a record of the source copy. -/
def nextWins (c : Core) (r : Metadata) : Bool :=
  if c.metadataSourceZone = .metaB then !sequenceIsNewer r.sequence (c.metadataSequence + 1)
  else sequenceIsNewer (c.metadataSequence + 1) r.sequence

/-- The source copy is the newest record and the next sequence wins against it, or it
already holds the very record to be written. -/
def CommitSafe (w : World) : Prop :=
  w.flash.copy w.core.metadataSourceZone = some (metadataCurrent w.core) ∨
  w.flash.copy w.core.metadataSourceZone = w.flash.newest ∧
    (w.flash.copy w.core.metadataSourceZone).all (nextWins w.core) = true

instance (w : World) : Decidable (CommitSafe w) := by unfold CommitSafe; infer_instance

/-- The flash after `k` bytes of the commit's erase. -/
def eraseCut (w : World) (k : ℕ) : Flash :=
  (FlashOp.erase w.core.metadataTargetZone 0 metadataEncodedSize).apply k w.flash

/-- The flash after the erase and `k` bytes of the write. -/
def writeCut (w : World) (k : ℕ) : Flash :=
  (FlashOp.write w.core.metadataTargetZone 0 (metadataEncode (metadataCurrent w.core))).apply k
    (eraseCut w metadataEncodedSize)

/-- A commit may start in the world. -/
structure CommitReady (w : World) : Prop where
  state : w.core.state = .metadataErase
  pending : w.pending = none
  source : w.core.metadataSourceZone.IsCopy
  committing : Committing w.core

theorem Shape.commitReady (hw : Shape w) (hs : w.core.state = .metadataErase) : CommitReady w :=
  ⟨hs, hw.idle (by rw [hs]; rfl), (hw.ready (by rw [hs]; decide)).source,
    hw.commit (by rw [hs]; rfl)⟩

/-! ### Copies during the commit -/

section Copies
variable (h : CommitReady w) (k : ℕ)
include h

theorem eraseCut_source : (eraseCut w k).copy w.core.metadataSourceZone
    = w.flash.copy w.core.metadataSourceZone := by
  refine Flash.copy_apply_of_ne ?_ k w.flash
  rw [FlashOp.zone, h.committing.target]
  exact h.source.ne_other

theorem writeCut_source : (writeCut w k).copy w.core.metadataSourceZone
    = w.flash.copy w.core.metadataSourceZone := by
  refine (Flash.copy_apply_of_ne ?_ k _).trans (eraseCut_source h _)
  rw [FlashOp.zone, h.committing.target]
  exact h.source.ne_other

theorem eraseCut_target (hk : k ≠ 0) :
    (eraseCut w k).copy (otherCopy w.core.metadataSourceZone) = none := by
  rw [← h.committing.target, eraseCut, Flash.copy_erase_cut, if_neg hk]

theorem writeCut_target : (writeCut w k).copy (otherCopy w.core.metadataSourceZone)
    = if k < metadataEncodedSize then none else some (metadataCurrent w.core) := by
  rw [← h.committing.target]
  exact Flash.copy_write_cut _ (slice_erase_done w.flash _) k

/-- With the target erased, the source copy is the newest record. -/
theorem newest_of_target_none {flash : Flash}
    (hs : flash.copy w.core.metadataSourceZone = w.flash.copy w.core.metadataSourceZone)
    (ht : flash.copy (otherCopy w.core.metadataSourceZone) = none) :
    flash.newest = w.flash.copy w.core.metadataSourceZone := by
  rw [Flash.newest, Flash.selected_of_other_none h.source ht, hs]
  cases w.flash.copy w.core.metadataSourceZone <;> rfl

/-- With both copies present, the sequences decide. -/
theorem newest_writeCut_done : (writeCut w metadataEncodedSize).newest
      = some (metadataCurrent w.core) ↔
    w.flash.copy w.core.metadataSourceZone = some (metadataCurrent w.core) ∨
    (w.flash.copy w.core.metadataSourceZone).all (nextWins w.core) = true := by
  have ht := writeCut_target h metadataEncodedSize
  rw [if_neg (Nat.lt_irrefl _)] at ht
  have hs := writeCut_source h metadataEncodedSize
  cases hsrc : w.flash.copy w.core.metadataSourceZone with
  | none =>
    rw [Flash.newest, Flash.selected_of_source_none h.source (hs.trans hsrc), ht]
    simp
  | some r =>
    rw [Flash.newest, Flash.selected_of_both h.source (hs.trans hsrc) ht]
    rcases h.source with hz | hz <;> simp only [hz, nextWins, metadataCurrent, Option.all_some]
    · by_cases hn : sequenceIsNewer (w.core.metadataSequence + 1) r.sequence = true <;> simp [hn]
    · by_cases hn : sequenceIsNewer r.sequence (w.core.metadataSequence + 1) = true <;> simp [hn]

end Copies

/-! ### Stages of the commit -/

/-- The worlds a commit goes through: only the phase, the flash and the operation in
flight change. -/
inductive CommitStage (w : World) : World → Prop
  | erase : CommitStage w ⟨{ w.core with state := .metadataErase }, w.flash, none⟩
  | eraseWait : CommitStage w ⟨{ w.core with state := .metadataEraseWait }, w.flash,
      some (.erase w.core.metadataTargetZone 0 metadataEncodedSize)⟩
  | write : CommitStage w
      ⟨{ w.core with state := .metadataWrite }, eraseCut w metadataEncodedSize, none⟩
  | writeWait : CommitStage w
      ⟨{ w.core with state := .metadataWriteWait }, eraseCut w metadataEncodedSize,
        some (.write w.core.metadataTargetZone 0 (metadataEncode (metadataCurrent w.core)))⟩

theorem CommitStage.step (h : CommitReady w) (hw : CommitStage w w') (env : Env) (st : Storage)
    (hc : (w'.step (.process env st)).1.core.state.committing = true) :
    CommitStage w (w'.step (.process env st)).1 := by
  cases hw with
  | erase =>
    by_cases ha : env.submit.accepted = true
    · simpa [World.step, World.settle, process, processPhase, BootState.waiting, submitOp, ha,
        World.answerAll, World.answer] using CommitStage.eraseWait
    · simp [World.step, World.settle, process, processPhase, BootState.waiting, submitOp, ha,
        World.answerAll, World.answer, residentFailure, BootState.committing] at hc
  | eraseWait =>
    by_cases hb : env.busy = true
    · simpa [World.step, World.settle, process, processPhase, BootState.waiting,
        storageWaitHandle, hb, World.answerAll] using CommitStage.eraseWait
    · by_cases hres : env.result = .success
      · simpa [World.step, World.settle, process, processPhase, BootState.waiting,
          storageWaitHandle, hb, hres, storageDone, World.answerAll, FlashOp.deliver,
          FlashOp.size, eraseCut]
          using CommitStage.write
      · simp [World.step, World.settle, process, BootState.waiting, storageWaitHandle, hb, hres,
          World.answerAll, residentFailure, BootState.committing] at hc
  | write =>
    by_cases ha : env.submit.accepted = true
    · have hstage := CommitStage.writeWait (w := w)
      rw [← h.committing.encoded] at hstage
      simpa [World.step, World.settle, process, processPhase, BootState.waiting, submitOp, ha,
        World.answerAll, World.answer] using hstage
    · simp [World.step, World.settle, process, processPhase, BootState.waiting, submitOp, ha,
        World.answerAll, World.answer, residentFailure, BootState.committing] at hc
  | writeWait =>
    by_cases hb : env.busy = true
    · simpa [World.step, World.settle, process, processPhase, BootState.waiting,
        storageWaitHandle, hb, World.answerAll] using CommitStage.writeWait
    · by_cases hres : env.result = .success
      · have hn := (afterCommit_plain h.committing.next).2
        simp [World.step, World.settle, process, BootState.waiting, storageWaitHandle, hb, hres,
          storageDone, World.answerAll, FlashOp.deliver, metadataWriteDone, hn] at hc
      · simp [World.step, World.settle, process, BootState.waiting, storageWaitHandle, hb, hres,
          World.answerAll, residentFailure, BootState.committing] at hc

theorem CommitRun.stage (h : CommitReady w) (hr : CommitRun w w') : CommitStage w w' := by
  induction hr with
  | start =>
    have hstage := CommitStage.erase (w := w)
    obtain ⟨⟨⟩, flash, pending⟩ := w
    obtain rfl := h.state
    obtain rfl := h.pending
    exact hstage
  | step env st _ hc ih => exact ih.step h env st hc

/-- The first stage is the world itself. -/
theorem CommitReady.eq (h : CommitReady w) :
    w = ⟨{ w.core with state := .metadataErase }, w.flash, none⟩ := by
  obtain ⟨⟨⟩, flash, pending⟩ := w
  obtain rfl := h.state
  obtain rfl := h.pending
  rfl

theorem commitRun_eraseWait (h : CommitReady w) : CommitRun w
    ⟨{ w.core with state := .metadataEraseWait }, w.flash,
      some (.erase w.core.metadataTargetZone 0 metadataEncodedSize)⟩ := by
  have hrun : CommitRun w ⟨{ w.core with state := .metadataErase }, w.flash, none⟩ := by
    rw [← h.eq]; exact .start
  exact hrun.step calmEnv ⟨0, []⟩ rfl

theorem commitRun_writeWait (h : CommitReady w) : CommitRun w
    ⟨{ w.core with state := .metadataWriteWait }, eraseCut w metadataEncodedSize,
      some (.write w.core.metadataTargetZone 0 (metadataEncode (metadataCurrent w.core)))⟩ := by
  have hrun := ((commitRun_eraseWait h).step calmEnv ⟨0, []⟩ rfl).step calmEnv ⟨0, []⟩ rfl
  rw [← h.committing.encoded]
  exact hrun

/-- The write is done: its bytes are on the flash. -/
theorem step_writeWait_flash (w : World) {env : Env} (st : Storage) (hb : env.busy = false)
    (hres : env.result = .success) :
    (World.step ⟨{ w.core with state := .metadataWriteWait }, eraseCut w metadataEncodedSize,
      some (.write w.core.metadataTargetZone 0 (metadataEncode (metadataCurrent w.core)))⟩
      (.process env st)).1.flash = writeCut w metadataEncodedSize := by
  simp [World.step, World.settle, process, BootState.waiting, storageWaitHandle, hb, hres,
    storageDone, World.answerAll, FlashOp.deliver, FlashOp.size, writeCut]

theorem CommitSafe.atomic (h : CommitReady w) (hs : CommitSafe w) : CommitAtomic w := by
  have hold {flash : Flash} (hnew : flash.newest = w.flash.copy w.core.metadataSourceZone) :
      flash.newest = some (metadataCurrent w.core) ∨ flash.newest = w.flash.newest := by
    rcases hs with hs | ⟨hs, _⟩
    · exact Or.inl (hnew.trans hs)
    · exact Or.inr (hnew.trans hs)
  have herase (k : ℕ) : (eraseCut w k).newest = some (metadataCurrent w.core) ∨
      (eraseCut w k).newest = w.flash.newest := by
    by_cases hk : k = 0
    · refine Or.inr ?_
      rw [Flash.newest, Flash.newest, Flash.selected_congr fun z _ => ?_]
      by_cases hz : z = w.core.metadataTargetZone
      · rw [eraseCut, hz, Flash.copy_erase_cut, if_pos hk]
      · exact Flash.copy_apply_of_ne (fun h => hz h.symm) k w.flash
    · exact hold (newest_of_target_none h (eraseCut_source h k) (eraseCut_target h k hk))
  have hdone : (writeCut w metadataEncodedSize).newest = some (metadataCurrent w.core) :=
    (newest_writeCut_done h).mpr (hs.imp_right And.right)
  refine ⟨?_, ?_⟩
  · intro w' hr k
    cases hr.stage h with
    | erase => exact Or.inr rfl
    | eraseWait => exact herase k
    | write => exact herase metadataEncodedSize
    | writeWait =>
      by_cases hk : k < metadataEncodedSize
      · have ht := writeCut_target h k
        rw [if_pos hk] at ht
        exact hold (newest_of_target_none h (writeCut_source h k) ht)
      · have hlen : (metadataEncode (metadataCurrent w.core)).length ≤ k :=
          (length_metadataEncode _).trans_le (Nat.not_lt.mp hk)
        have hfull : writeCut w k = writeCut w metadataEncodedSize := by
          unfold writeCut FlashOp.apply
          simp only
          rw [List.take_of_length_le hlen, List.take_of_length_le (by simp)]
        refine Or.inl ?_
        show (writeCut w k).newest = _
        rw [hfull, hdone]
  · intro w' env st hr hphase hb hres
    cases hr.stage h with
    | erase => cases hphase
    | eraseWait => cases hphase
    | write => cases hphase
    | writeWait =>
      rw [step_writeWait_flash w st hb hres, hdone]

theorem CommitAtomic.safe (h : CommitReady w) (ha : CommitAtomic w) : CommitSafe w := by
  have hcut := ha.cut _ (commitRun_eraseWait h) 1
  have hone : (eraseCut w 1).newest = w.flash.copy w.core.metadataSourceZone :=
    newest_of_target_none h (eraseCut_source h 1) (eraseCut_target h 1 (by decide))
  change (eraseCut w 1).newest = _ ∨ (eraseCut w 1).newest = _ at hcut
  rw [hone] at hcut
  have hdone := ha.done _ calmEnv ⟨0, []⟩ (commitRun_writeWait h) rfl rfl rfl
  rw [step_writeWait_flash w ⟨0, []⟩ rfl rfl] at hdone
  rcases hcut with hcut | hcut
  · exact Or.inl hcut
  · rcases (newest_writeCut_done h).mp hdone with hd | hd
    · exact Or.inl hd
    · exact Or.inr ⟨hcut, hd⟩

/-- **Exactness.** In every reachable world, a commit that is about to start is atomic and
durable if and only if the core's idea of the source copy is right. -/
theorem commit_atomic_iff (hw : anyRuns.Reachable w) (hs : w.core.state = .metadataErase) :
    CommitAtomic w ↔ CommitSafe w :=
  have h := (reachable_shape hw).commitReady hs
  ⟨fun ha => ha.safe h, fun hsafe => hsafe.atomic h⟩

/-! ### Two first commits -/

def World.acts (w : World) (actions : List Action) : World :=
  actions.foldl (fun w a => (w.step a).1) w

theorem reachable_acts (hw : anyRuns.Reachable w) (actions : List Action) :
    anyRuns.Reachable (w.acts actions) := by
  induction actions generalizing w with
  | nil => exact hw
  | cons a actions ih => exact ih (.step hw ⟨a, rfl⟩)

/-- A direct download requested after the boot calls. -/
def directRequest : Action := .upgradeBegin calmEnv (some ⟨1, 34, 7, 0⟩) (some .direct)

/-- The first commit of a device that was erased and boots for recovery. -/
def firstCommit : World :=
  (Sys.initial (fun _ _ => 0xFF) fun _ => 0).world.acts
    ([Action.boot recoveryArgs 0] ++
      List.replicate 4 (Action.process calmEnv ⟨0, List.replicate metadataEncodedSize 0xFF⟩) ++
      [directRequest])

theorem commit_atomic_erased : CommitAtomic firstCommit :=
  (commit_atomic_iff (reachable_acts (.start ⟨_, _, rfl⟩) _) (by decide +kernel)).mpr
    (by decide +kernel)

def validRecord (sequence : UInt32) : Metadata where
  state := .valid
  mode := .direct
  moduleId := 1
  retryCount := 0
  sequence := sequence
  version := 7
  fileSize := 34
  expectedCrc := 0
  receivedLength := 34
  runningCrc := 0
  copyOffset := 0
  errorCode := 0

/-- A device with record 5 in the first zone and record 4 in the second. -/
def twoRecords : Flash
  | .metaA => Memory.write (fun _ => 0xFF) 0 (metadataEncode (validRecord 5))
  | .metaB => Memory.write (fun _ => 0xFF) 0 (metadataEncode (validRecord 4))
  | _ => fun _ => 0xFF

/-- It boots, its first metadata read fails, and a download is requested. -/
def missedRead : World :=
  (Sys.initial twoRecords fun _ => 0).world.acts
    [.boot plainArgs 0, .process calmEnv ⟨0, []⟩,
      .process { calmEnv with result := .storageError } ⟨0, []⟩, directRequest]

/-- The commit erases record 5 and its own record, numbered 1, loses against record 4. -/
theorem commit_not_atomic : anyRuns.Reachable missedRead ∧
    missedRead.core.state = .metadataErase ∧ ¬ CommitAtomic missedRead := by
  have hw : anyRuns.Reachable missedRead := reachable_acts (.start ⟨_, _, rfl⟩) _
  have hs : missedRead.core.state = .metadataErase := by decide +kernel
  refine ⟨hw, hs, fun ha => ?_⟩
  have hsafe : ¬ CommitSafe missedRead := by decide +kernel
  exact hsafe (ha.safe ((reachable_shape hw).commitReady hs))

end Atoman.Bootloader
