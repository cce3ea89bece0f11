import Atoman.Bootloader.Progress

/-!
# Automatic recovery

A staged installation is repeated at most three times. The runs start where
`upgradeEnd` has accepted a staged image and open no further session; boots, storage
failures and power cuts are free. A device without retries left stays resident.
-/

namespace Atoman.Bootloader
open Lib

variable {lo n : ℕ} {flash : Flash} {c : Core} {w : World} {h : History} {env : Env}
  {st : Storage} {op : FlashOp}

/-! ## A session counts no retries -/

/-- The phases before the metadata are evaluated. -/
def BootState.booting : BootState → Bool
  | .metaARead | .metaAWait | .metaBRead | .metaBWait => true
  | _ => false

/-- An open session has no retries behind it. -/
def Unretried (c : Core) : Prop :=
  c.sessionActive = true → c.metadataRetryCount = 0 ∧ c.state.booting = false

theorem Unretried.resident (c : Core) (r : Result) : Unretried (residentFailure c r) :=
  fun h => nomatch h

theorem Unretried.commit (h : c.sessionActive = true → c.metadataRetryCount = 0)
    (state : MetadataState) (next : BootState) : Unretried (metadataCommitStart c state next) := by
  unfold metadataCommitStart
  simp only
  split
  · exact Unretried.resident _ _
  · exact fun ha => ⟨h ha, rfl⟩

theorem Unretried.submit {wait : BootState} (h : Unretried c)
    (hw : wait.booting = true → c.sessionActive = false) :
    Unretried (submitOp env c op wait).1 := by
  unfold submitOp
  simp only
  split
  · refine fun ha => ⟨(h ha).1, ?_⟩
    show wait.booting = false
    by_contra hb
    have hfalse := hw (by simpa using hb)
    exact absurd (ha.symm.trans hfalse) (by decide)
  · exact Unretried.resident _ _

theorem Unretried.upgradeBegin (h : Unretried c) (info : Option UpgradeInfo)
    (mode : Option UpgradeMode) : Unretried (upgradeBegin env c info mode).1 := by
  rcases upgradeBegin_cases env c info mode with ⟨r, _, heq⟩ | ⟨i, m, _, _, heq⟩ <;> rw [heq]
  · exact h
  · exact Unretried.commit (fun _ => rfl) _ _

/-- Evaluating the metadata opens a session only with a fresh count. -/
theorem Unretried.evaluate (h : c.sessionActive = false) :
    Unretried (metadataStartupEvaluate env c) := by
  have hno : ∀ {c' : Core}, c'.sessionActive = false → Unretried c' :=
    fun h' ha => absurd (ha.symm.trans h') (by decide)
  have hdecide : ∀ {c' : Core}, c'.sessionActive = false → Unretried (startupDecide env c') := by
    intro c' h'
    unfold startupDecide
    split
    · exact hno h'
    · exact hno h'
    · simp only
      split
      · rcases upgradeBegin_cases env { c' with state := .waitUpgrade } (some c'.startupUpgradeInfo)
          c'.config.defaultMode with ⟨r, hne, heq⟩ | ⟨i, m, _, _, heq⟩ <;> rw [heq]
        · cases r <;> first | exact absurd rfl hne | exact Unretried.resident _ _
        · exact Unretried.commit (fun _ => rfl) _ _
      · exact hno h'
  unfold metadataStartupEvaluate
  split
  · simp only
    split
    · split
      · exact Unretried.resident _ _
      · refine Unretried.commit ?_ _ _
        exact fun ha => absurd (ha.symm.trans h) (by decide)
    · split
      · exact Unretried.resident _ _
      · exact hdecide h
  · exact hdecide h

theorem Unretried.storageDone (h : Unretried c)
    (hn : c.state = .metadataWriteWait → c.metadataNextState.booting = false) :
    Unretried (storageDone env c).1 := by
  have hcount : c.sessionActive = true → c.metadataRetryCount = 0 := fun ha => (h ha).1
  have hboot : c.state.booting = true → c.sessionActive = false := by
    intro hb
    by_contra ha
    rw [(h (by simpa using ha)).2] at hb
    cases hb
  unfold Bootloader.storageDone
  split
  case h_1 hs => exact fun ha => absurd (ha.symm.trans (hboot (by rw [hs]; rfl))) (by decide)
  case h_2 hs => exact Unretried.evaluate (hboot (by rw [hs]; rfl))
  case h_3 hs =>
    obtain ⟨info, ⟨r, heq⟩ | heq⟩ := installedHeaderEvaluate_core env c false <;> rw [heq]
    · exact Unretried.resident _ _
    · exact fun ha => ⟨hcount ha, rfl⟩
  case h_4 =>
    refine Unretried.commit ?_ _ _
    exact hcount
  case h_5 =>
    obtain ⟨b, k, hfoot⟩ := footerTailUpdate_eq c
      (c.packetBuffer.slice 0 c.pendingPacketLength.toNat)
    simp only [packetWriteDone, hfoot]
    exact fun ha => ⟨hcount ha, rfl⟩
  case h_9 =>
    unfold copyVerifyDone
    split
    · exact Unretried.resident _ _
    · simp only
      split
      · refine Unretried.commit ?_ _ _
        exact hcount
      · refine Unretried.commit ?_ _ _
        exact hcount
  case h_10 =>
    unfold verifyReadDone
    simp only
    split
    · split
      · exact Unretried.resident _ _
      · exact fun ha => ⟨hcount ha, rfl⟩
    · exact fun ha => ⟨hcount ha, rfl⟩
  case h_11 =>
    obtain ⟨info, ⟨r, heq⟩ | heq⟩ := installedHeaderEvaluate_core env c true <;> rw [heq]
    · exact Unretried.resident _ _
    · exact Unretried.commit (fun _ => rfl) _ _
  case h_13 hs => exact fun ha => ⟨hcount ha, hn hs⟩
  case h_14 => exact Unretried.resident _ _
  all_goals exact fun ha => ⟨hcount ha, rfl⟩

theorem Unretried.phase (h : Unretried c) : Unretried (processPhase env c c.state).1 := by
  have hboot : c.state.booting = true → c.sessionActive = false := by
    intro hb
    by_contra ha
    rw [(h (by simpa using ha)).2] at hb
    cases hb
  unfold processPhase
  split
  case h_1 hs => exact h.submit fun _ => hboot (by rw [hs]; rfl)
  case h_2 hs => exact h.submit fun _ => hboot (by rw [hs]; rfl)
  case h_3 =>
    unfold startupReadSubmit
    simp only
    split
    · exact Unretried.resident _ _
    · exact h.submit (fun hb => nomatch hb)
  case h_6 =>
    refine Unretried.submit ?_ (fun hb => nomatch hb)
    exact h
  case h_9 =>
    unfold verifyReadSubmit
    simp only
    split
    · exact fun ha => ⟨(h ha).1, rfl⟩
    · exact Unretried.resident _ _
  case h_13 hs =>
    unfold jumpStep
    split
    · exact h
    · split
      · exact Unretried.resident _ _
      · simp only
        split
        · exact Unretried.resident _ _
        · exact h
  case h_14 => exact h
  all_goals exact h.submit (fun hb => nomatch hb)

theorem Unretried.process (h : Unretried c)
    (hn : c.state = .metadataWriteWait → c.metadataNextState.booting = false) :
    Unretried (process env c).1 := by
  unfold Bootloader.process
  split
  · unfold storageWaitHandle
    split
    · exact h
    · split
      · exact Unretried.resident _ _
      · exact h.storageDone hn
  · exact h.phase

theorem Unretried.packetSubmit (h : Unretried c) (offset : UInt32) (data : Option (List UInt8)) :
    Unretried (packetSubmit env c offset data).1 := by
  rcases packetSubmit_cases env c offset data with
    ⟨r, heq⟩ | ⟨d, rfl, hs, _, _, _, _, heq⟩ <;> rw [heq]
  · exact h
  · simp only
    split
    · exact fun ha => ⟨(h ha).1, rfl⟩
    · exact fun ha => nomatch ha

theorem Unretried.upgradeEnd (h : Unretried c) (expectedCrc : UInt16) :
    Unretried (upgradeEnd c expectedCrc).1 := by
  unfold Bootloader.upgradeEnd
  split
  · exact h
  · split
    · exact Unretried.resident _ _
    · have hend : ∀ {c' : Core}, c'.sessionActive = false → Unretried c' :=
        fun h' ha => absurd (ha.symm.trans h') (by decide)
      simp only
      split
      · refine hend ?_
        unfold metadataCommitStart
        simp only
        split <;> rfl
      · exact hend rfl

theorem FlashOp.deliver_unretried (op : FlashOp) (bytes : List UInt8) (h : Unretried c) :
    Unretried (op.deliver bytes c) := by
  cases op with
  | read zone offset length target => cases target <;> exact h
  | _ => exact h

/-- A delivery does not touch what a commit leads to. -/
theorem FlashOp.deliver_next (op : FlashOp) (bytes : List UInt8) (c : Core) :
    (op.deliver bytes c).metadataNextState = c.metadataNextState := by
  cases op with
  | read zone offset length target => cases target <;> rfl
  | _ => rfl

theorem answerAll_core (w : World) (calls : List Call) :
    (w.answerAll env st calls).1.core = w.core := by
  induction calls generalizing w with
  | nil => rfl
  | cons call calls ih =>
    simp only [World.answerAll, ih]
    cases call with
    | flash op =>
      simp only [World.answer]
      split <;> rfl
    | _ => rfl

theorem NextOk.not_booting {reads : Prop} {log : List Event} {g : Ledger} {next : BootState}
    (hn : NextOk reads flash log g c next) : next.booting = false := by
  cases next <;> first | rfl | exact hn.elim

/-- **Step.** No action opens a session with retries behind it. -/
theorem Unretried.step {reads : Prop} (hi : Inv reads w h) (hu : Unretried w.core) (a : Action) :
    Unretried (w.step a).1.core := by
  cases a with
  | boot args cut =>
    simp only [World.step, bootloaderInit]
    split <;> exact fun ha => by cases ha
  | process env st =>
    simp only [World.step, answerAll_core]
    have hset : Unretried (w.settle env st).1.core ∧
        (w.settle env st).1.core.state = w.core.state ∧
        (w.settle env st).1.core.metadataNextState = w.core.metadataNextState := by
      unfold World.settle
      split
      · split
        · exact ⟨FlashOp.deliver_unretried _ _ hu, FlashOp.deliver_state _ _ _,
            FlashOp.deliver_next _ _ _⟩
        · exact ⟨hu, rfl, rfl⟩
      · exact ⟨hu, rfl, rfl⟩
    refine hset.1.process fun hs => ?_
    rw [hset.2.1] at hs
    obtain ⟨_, hc, _⟩ := hi.evaluated hs rfl
    rw [hset.2.2]
    exact hc.next.not_booting
  | upgradeBegin env info mode => exact hu.upgradeBegin info mode
  | packetSubmit env st offset data =>
    simp only [World.step, answerAll_core]
    exact hu.packetSubmit offset data
  | upgradeEnd expectedCrc => exact hu.upgradeEnd expectedCrc

/-- **Run.** In every reachable state. -/
theorem reachable_unretried {reads : Prop} {s : Sys} (hs : (runs reads).Reachable s) :
    Unretried s.world.core := by
  have h : Inv reads s.world s.history ∧ Unretried s.world.core := by
    refine hs.invariant (P := fun s => Inv reads s.world s.history ∧ Unretried s.world.core) ?_ ?_
    · rintro _ ⟨flash, buffer, rfl, hf⟩
      exact ⟨initial_inv flash buffer hf, fun ha => nomatch ha⟩
    · rintro s _ ⟨hi, hu⟩ ⟨a, ha, rfl⟩
      exact ⟨step_inv hi ha, hu.step hi a⟩
  exact h.2

/-! ## Runs without a new session -/

/-- A device under recovery and the IAP erases it has issued. -/
structure Recovery where
  sys : Sys
  erases : ℕ

def Recovery.step (r : Recovery) (a : Action) : Recovery :=
  ⟨r.sys.step a, r.erases + iapErases (r.sys.world.step a).2⟩

/-- From the end of a staged session, whatever happens but a new session. -/
def recoveries : Transition Recovery where
  init r := ∃ (s : Sys) (crc : UInt16), (runs False).Reachable s ∧ s.world.core.mode = .staged ∧
    (upgradeEnd s.world.core crc).2 = .success ∧ r = ⟨s.step (.upgradeEnd crc), 0⟩
  next r t := ∃ a, r.sys.world.Admits False a ∧ t = r.step a ∧
    t.sys.world.core.sessionActive = false

/-- **Step.** Unless a session is opened, every action keeps the account. -/
theorem Progress.step (hi : Inv False w h) (hp : Progress lo n w.flash w.core) {a : Action}
    (ha : w.Admits False a) (hno : (w.step a).1.core.sessionActive = false) :
    Stepped lo n w a := by
  cases a with
  | boot args cut =>
    have hb : Budget lo n (w.cutFlash cut) := by
      unfold World.cutFlash
      split
      · rename_i op hop
        exact hp.cut hi hop cut
      · exact hp.budget
    simp only [Stepped, World.step, bootloaderInit, iapErases_nil, Nat.add_zero]
    split <;> exact hb
  | process env st =>
    by_cases hw : w.core.state.waiting = true
    · rcases hp.react hi hw ha with hopen | hstep
      · rw [hno] at hopen
        cases hopen
      · exact hstep
    · exact hp.act hi (by simpa using hw)
  | upgradeBegin env info mode =>
    simp only [Stepped, World.step] at hno ⊢
    rcases upgradeBegin_cases env w.core info mode with ⟨r, hne, heq⟩ | ⟨i, m, hs, _, heq⟩
    · simp only [heq, if_neg hne, iapErases_nil, Nat.add_zero]
      exact hp
    · have hbuf : 84 ≤ (sessionReset w.core i m).config.copyBufferSize :=
        (hi.evaluated hs rfl).1.synced.buffer
      simp only [heq, metadataCommitStart_eq hbuf] at hno
      cases hno
  | packetSubmit env st offset data =>
    rcases packetSubmit_cases env w.core offset data with
      ⟨r, heq⟩ | ⟨d, rfl, hs, _, _, _, _, heq⟩
    · simp only [Stepped, World.step, heq, World.answerAll, ne_eq, not_true, and_false, if_false,
        List.append_nil, iapErases_nil, Nat.add_zero]
      exact hp
    · simp only [Progress, hs] at hp
  | upgradeEnd expectedCrc =>
    have hbusy : upgradeEnd w.core expectedCrc = (w.core, .busy) := by
      refine if_pos (Or.inl fun hs => ?_)
      simp only [Progress, hs] at hp
    simp only [Stepped, World.step, hbusy, reduceCtorEq, if_false, iapErases_nil, Nat.add_zero]
    exact hp

/-- The end of a staged session prepares the first installation. -/
theorem Progress.start (hi : Inv False w h) (hu : Unretried w.core) (hmode : w.core.mode = .staged)
    {crc : UInt16} (hend : (upgradeEnd w.core crc).2 = .success) :
    Progress 0 0 w.flash (upgradeEnd w.core crc).1 := by
  have hready : ¬ (w.core.state ≠ .downloadReady ∨ !w.core.sessionActive) := by
    intro hbusy
    rw [upgradeEnd, if_pos hbusy] at hend
    cases hend
  have hs : w.core.state = .downloadReady := by
    by_contra hs
    exact hready (Or.inl hs)
  have hactive : w.core.sessionActive = true := by
    by_contra hs
    exact hready (Or.inr (by simpa using hs))
  obtain ⟨hr, ⟨r, _, hstate, hsel⟩, hd, _⟩ := hi.evaluated hs rfl
  have hstaged : r.state = .downloadStaged := by
    rw [hstate, hd.state, hmode]
    rfl
  have hgood : ¬ (w.core.receivedLength ≠ w.core.upgradeInfo.fileSize
      ∨ w.core.runningCrc ≠ crc ∨ !footerIsValid w.core) := by
    intro hbad
    rw [upgradeEnd, if_neg hready, if_pos hbad] at hend
    cases hend
  have hbuf : 84 ≤ ({ w.core with expectedCrc := crc, sessionActive := false } :
    Core).config.copyBufferSize := hr.synced.buffer
  have hcount : w.core.metadataRetryCount.toNat = 0 := by rw [(hu hactive).1]; rfl
  have hprog : r.progress = 0 := by simp [Metadata.progress, hstaged]
  have hcore : (upgradeEnd w.core crc).1 = { committing { w.core with
      expectedCrc := crc, sessionActive := false } .installPending .copyErase with
      result := .inProgress } := by
    rw [upgradeEnd, if_neg hready, if_neg hgood]
    simp only
    rw [if_pos hmode, metadataCommitStart_eq hbuf]
  rw [hcore]
  refine ⟨r, hsel, ⟨Or.inl hstaged, fun hi => ?_, Nat.zero_le _, Nat.zero_le _⟩,
    ⟨Or.inr (Or.inl (Or.inl rfl)), fun _ => ?_, Nat.zero_le _, ?_⟩, ?_,
    Or.inl ⟨Or.inl rfl, Or.inl rfl⟩⟩
  · rcases hi with hi | hi <;> rw [hstaged] at hi <;> cases hi
  · exact Nat.le_trans (Nat.le_of_eq hcount) (Nat.zero_le 3)
  · show 0 + 1 ≤ min 4 (w.core.metadataRetryCount.toNat + 1)
    omega
  · rw [hprog]
    exact Nat.zero_le _

/-- What holds in a recovery that has come as far as `lo`. -/
structure RecoveryInv (lo : ℕ) (r : Recovery) : Prop where
  inv : Inv False r.sys.world r.sys.history
  progress : Progress lo r.erases r.sys.world.flash r.sys.world.core

theorem RecoveryInv.next {r t : Recovery} (h : RecoveryInv lo r) (hn : recoveries.next r t) :
    RecoveryInv lo t := by
  obtain ⟨a, ha, rfl, hno⟩ := hn
  exact ⟨step_inv h.inv ha, h.progress.step h.inv ha hno⟩

/-- **Run.** The account holds throughout a recovery. -/
theorem recovery_inv {r : Recovery} (hr : recoveries.Reachable r) : RecoveryInv 0 r := by
  refine hr.invariant (P := RecoveryInv 0) ?_ fun r t h => h.next
  rintro _ ⟨s, crc, hs, hmode, hend, rfl⟩
  have hi := reachable_inv hs
  exact ⟨step_inv hi trivial, Progress.start hi (reachable_unretried hs) hmode hend⟩

/-! ## The retry count -/

/-- A recovery never falls behind the record it has reached. -/
theorem Progress.raise {m : Metadata} {z : FlashZone} (h : Progress lo n flash c)
    (hsel : flash.selected = some (m, z)) : Progress m.progress n flash c := by
  have hbudget : Budget lo n flash → Budget m.progress n flash := by
    rintro ⟨m', z', hsel', hm⟩
    obtain ⟨rfl, rfl⟩ := Prod.mk.inj (Option.some.inj (hsel.symm.trans hsel'))
    exact ⟨m, z, hsel, { hm with floor := Nat.le_refl _ }⟩
  have hattempt : ∀ {n : ℕ}, Attempt lo n flash c → Attempt m.progress n flash c := by
    rintro n ⟨r, hsel', hr, hrest⟩
    obtain ⟨rfl, rfl⟩ := Prod.mk.inj (Option.some.inj (hsel.symm.trans hsel'))
    exact ⟨m, hsel', { hr with floor := Nat.le_refl _ }, hrest⟩
  have hadvance : (∃ r, Advance lo n flash c r) → ∃ r, Advance m.progress n flash c r := by
    rintro ⟨r, hr⟩
    obtain ⟨rfl, rfl⟩ := Prod.mk.inj (Option.some.inj (hsel.symm.trans hr.newest))
    exact ⟨m, { hr with
      old := { hr.old with floor := Nat.le_refl _ }
      new := { hr.new with floor := hr.grows } }⟩
  unfold Progress at h ⊢
  split at h
  case h_1 | h_2 | h_3 | h_4 => exact hadvance h
  case h_17 | h_18 | h_19 | h_20 => exact h
  case h_21 => exact hbudget h
  all_goals exact hattempt h

/-- The record a boot would find. -/
def Recovery.newest (r : Recovery) : Option Metadata := r.sys.world.flash.newest

/-- While it is unfinished, an installation never forgets a retry. -/
theorem retry_mono {r t : Recovery} (hr : recoveries.Reachable r) (ht : recoveries.Steps r t)
    {m : Metadata} (hm : r.newest = some m) (hi : m.Installing) :
    ∃ m', t.newest = some m' ∧
      (m'.state = .valid ∨ m'.Installing ∧ m.retryCount ≤ m'.retryCount) := by
  obtain ⟨⟨m₀, z⟩, hsel, hfst⟩ := Option.map_eq_some_iff.mp hm
  obtain rfl : m₀ = m := hfst
  have hinv := recovery_inv hr
  have hraised : RecoveryInv _ t := ht.invariant (P := RecoveryInv _)
    ⟨hinv.inv, hinv.progress.raise hsel⟩ fun _ _ h hn => h.next hn
  obtain ⟨m', z', hsel', hm'⟩ := hraised.progress.budget
  refine ⟨m', by rw [Recovery.newest, Flash.newest, hsel']; rfl, ?_⟩
  have hfloor := hm'.floor
  rw [hi.progress] at hfloor
  rcases hm'.kind with hk | hk | hk
  · simp [Metadata.progress, hk] at hfloor
  · rw [hk.progress] at hfloor
    exact Or.inr ⟨hk, UInt8.le_iff_toNat_le.mpr (by omega)⟩
  · exact Or.inl hk

/-! ## Without retries left -/

/-- Three retries are on record and the installation is still unfinished. -/
def Exhausted (flash : Flash) : Prop :=
  ∃ m z, flash.selected = some (m, z) ∧ m.Installing ∧ 3 ≤ m.retryCount

/-- A boot that is reading its metadata, has failed its configuration, or stays resident. -/
structure Stuck (w : World) : Prop where
  record : Exhausted w.flash
  phase : w.core.state.booting = true ∨ w.core.state = .configError ∨
    w.core.state = .waitUpgrade ∧ w.core.result = .recoveryRequired

/-- A device that reads its metadata has at most a read in flight. -/
theorem Stuck.cut {reads : Prop} (hi : Inv reads w h) (hs : Stuck w) (k : ℕ) :
    w.cutFlash k = w.flash := by
  have hp := hi.pending
  unfold World.cutFlash
  unfold expectedOp at hp
  rcases hs.phase with hb | hb | ⟨hb, _⟩
  · cases hstate : w.core.state <;> rw [hstate] at hb hp
    case metaARead | metaBRead => rw [hp]
    case metaAWait | metaBWait =>
      rw [hp]
      rfl
    all_goals cases hb
  · rw [hb] at hp
    rw [hp]
  · rw [hb] at hp
    rw [hp]

/-- The evaluation refuses another attempt. -/
theorem Exhausted.evaluate {reads : Prop} (env : Env) (hi : Inv reads w h) (he : Exhausted w.flash)
    (hsel : metadataSelect (c.copyBuffer.slice 0 metadataEncodedSize)
      (c.copyBuffer.slice metadataEncodedSize metadataEncodedSize) = w.flash.selected) :
    (metadataStartupEvaluate env c).state = .waitUpgrade ∧
      (metadataStartupEvaluate env c).result = .recoveryRequired := by
  obtain ⟨m, z, hm, hinst, hcount⟩ := he
  have hshape := (hi.flash.record m z hm).shape hinst
  unfold metadataStartupEvaluate
  rw [hsel, hm]
  simp only
  rw [if_pos ⟨hinst, hshape⟩, if_pos hcount]
  exact ⟨rfl, rfl⟩

/-- The metadata reads of a stuck device. -/
theorem Stuck.reading (hi : Inv False w h) (hs : Stuck w) (hb : w.core.state.booting = true)
    (ha : w.Admits False (.process env st)) :
    Stuck (w.step (.process env st)).1 ∧ iapErases (w.step (.process env st)).2 = 0 := by
  cases hstate : w.core.state
  case metaARead =>
    have hnone : w.pending = none := hi.idle (by rw [hstate]; rfl)
    have hproc : process env w.core = submitOp env w.core
        (.read .metaA 0 metadataEncodedSize (.copyBuffer 0)) .metaAWait := process_phase hstate rfl
    rw [iapErases_submitOp hproc hnone, step_submitOp hnone hproc, if_pos (ha.1 (Or.inl hstate))]
    exact ⟨⟨hs.record, Or.inl rfl⟩, rfl⟩
  case metaBRead =>
    have hnone : w.pending = none := hi.idle (by rw [hstate]; rfl)
    have hproc : process env w.core = submitOp env w.core
        (.read .metaB 0 metadataEncodedSize (.copyBuffer metadataEncodedSize)) .metaBWait :=
      process_phase hstate rfl
    rw [iapErases_submitOp hproc hnone, step_submitOp hnone hproc, if_pos (ha.1 (Or.inr hstate))]
    exact ⟨⟨hs.record, Or.inl rfl⟩, rfl⟩
  case metaAWait =>
    have hw : w.core.state.waiting = true := by rw [hstate]; rfl
    have hop : w.pending = some (.read .metaA 0 metadataEncodedSize (.copyBuffer 0)) := by
      rw [hi.pending, expectedOp, hstate]
    refine ⟨?_, iapErases_waiting hw⟩
    rcases step_waiting env st hw hop with h | ⟨hbusy, hres, h⟩ | ⟨_, _, h⟩ <;> rw [h]
    · exact hs
    · exact absurd (ha.2.1 (Or.inl hstate) hbusy).1 hres
    · have hphase : (w.completed (.read .metaA 0 metadataEncodedSize (.copyBuffer 0)) st).core.state
          = .metaAWait := hstate
      rw [storageDone, hphase]
      exact ⟨hs.record, Or.inl rfl⟩
  case metaBWait =>
    have hw : w.core.state.waiting = true := by rw [hstate]; rfl
    have hop : w.pending
        = some (.read .metaB 0 metadataEncodedSize (.copyBuffer metadataEncodedSize)) := by
      rw [hi.pending, expectedOp, hstate]
    refine ⟨?_, iapErases_waiting hw⟩
    rcases step_waiting env st hw hop with h | ⟨hbusy, hres, h⟩ | ⟨hbusy, _, h⟩ <;>
      rw [h]
    · exact hs
    · exact absurd (ha.2.1 (Or.inr hstate) hbusy).1 hres
    · have hphase : (w.completed (.read .metaB 0 metadataEncodedSize
          (.copyBuffer metadataEncodedSize)) st).core.state = .metaBWait := hstate
      have hdone := hs.record.evaluate env hi
        (hi.selected_metaB hstate ((ha.2.1 (Or.inr hstate) hbusy).2 _ _ _ _ hop) rfl)
      rw [storageDone, hphase]
      exact ⟨hs.record, Or.inr (Or.inr hdone)⟩
  all_goals rw [hstate] at hb; cases hb

/-- **Step.** A stuck device stays stuck and erases nothing. -/
theorem Stuck.step (hi : Inv False w h) (hs : Stuck w) {a : Action} (ha : w.Admits False a)
    (hno : (w.step a).1.core.sessionActive = false) :
    Stuck (w.step a).1 ∧ iapErases (w.step a).2 = 0 := by
  have hready : w.core.state ≠ .downloadReady := by
    intro h
    rcases hs.phase with hb | hb | ⟨hb, _⟩ <;> rw [h] at hb <;> cases hb
  cases a with
  | boot args cut =>
    simp only [World.step, bootloaderInit, iapErases_nil, and_true]
    rw [hs.cut hi]
    split
    · exact ⟨hs.record, Or.inr (Or.inl rfl)⟩
    · exact ⟨hs.record, Or.inl rfl⟩
  | process env st =>
    by_cases hb : w.core.state.booting = true
    · exact hs.reading hi hb ha
    · have hidle : w.core.state.waiting = false ∧ process env w.core = (w.core, []) := by
        rcases hs.phase with h | h | ⟨h, _⟩
        · exact absurd h hb
        · exact ⟨by rw [h]; rfl, process_phase h rfl⟩
        · exact ⟨by rw [h]; rfl, process_phase h rfl⟩
      have hnone := hi.idle hidle.1
      have hset : w.settle env st = (w, []) := by simp [World.settle, hnone]
      rw [step_idle hnone hidle.2]
      refine ⟨hs, ?_⟩
      simp only [World.step, hset, hidle.2, World.answerAll, List.append_nil, iapErases_nil]
  | upgradeBegin env info mode =>
    simp only [World.step] at hno ⊢
    rcases upgradeBegin_cases env w.core info mode with ⟨r, hne, heq⟩ | ⟨i, m, hstate, _, heq⟩
    · simp only [heq, if_neg hne, iapErases_nil, and_true]
      exact hs
    · have hbuf : 84 ≤ (sessionReset w.core i m).config.copyBufferSize :=
        (hi.evaluated hstate rfl).1.synced.buffer
      simp only [heq, metadataCommitStart_eq hbuf] at hno
      cases hno
  | packetSubmit env st offset data =>
    rcases packetSubmit_cases env w.core offset data with
      ⟨r, heq⟩ | ⟨d, rfl, hstate, _, _, _, _, heq⟩
    · simp only [World.step, heq, World.answerAll, ne_eq, not_true, and_false, if_false,
        List.append_nil, iapErases_nil, and_true]
      exact hs
    · exact absurd hstate hready
  | upgradeEnd expectedCrc =>
    have hbusy : upgradeEnd w.core expectedCrc = (w.core, .busy) := if_pos (Or.inl hready)
    simp only [World.step, hbusy, reduceCtorEq, if_false, iapErases_nil, and_true]
    exact hs

/-- **Run.** A device that boots without retries left is stuck from then on. -/
theorem stuck_forever {r t : Recovery} (hi : Inv False r.sys.world r.sys.history) {args : InitArgs}
    {cut : ℕ} (he : Exhausted (r.sys.world.cutFlash cut))
    (ht : recoveries.Steps (r.step (.boot args cut)) t) :
    Stuck t.sys.world ∧ t.erases = r.erases := by
  have hbase : Stuck (r.step (.boot args cut)).sys.world := by
    refine ⟨he, ?_⟩
    simp only [Recovery.step, Sys.step, World.step, bootloaderInit]
    split
    · exact Or.inr (Or.inl rfl)
    · exact Or.inl rfl
  have h : Inv False t.sys.world t.sys.history ∧ Stuck t.sys.world ∧ t.erases = r.erases := by
    refine ht.invariant (P := fun t => Inv False t.sys.world t.sys.history ∧ Stuck t.sys.world ∧
      t.erases = r.erases) ⟨step_inv (a := .boot args cut) hi trivial, hbase, rfl⟩
        fun t u hu hn => ?_
    obtain ⟨hi', hs, hcount⟩ := hu
    obtain ⟨a, ha, rfl, hno⟩ := hn
    obtain ⟨hs', hzero⟩ := hs.step hi' ha hno
    refine ⟨step_inv hi' ha, hs', ?_⟩
    rw [← hcount]
    show t.erases + iapErases (t.sys.world.step a).2 = t.erases
    rw [hzero, Nat.add_zero]
  exact h.2

theorem Stuck.silent (hs : Stuck w) (a : Action) : Event.jumped ∉ (w.step a).2 := by
  intro hj
  have hstate := jumped_phase hj
  rcases hs.phase with hb | hb | ⟨hb, _⟩ <;> rw [hstate] at hb <;> cases hb

/-- Four erases leave a finished installation or one without retries. -/
theorem Budget.spent (hb : Budget lo 4 flash) :
    (∃ m, flash.newest = some m ∧ m.state = .valid) ∨ Exhausted flash := by
  obtain ⟨m, z, hsel, hm⟩ := hb
  have herases := hm.erases
  rcases hm.kind with hk | hk | hk
  · simp [Metadata.progress, hk] at herases
  · rw [hk.progress] at herases
    refine Or.inr ⟨m, z, hsel, hk, UInt8.le_iff_toNat_le.mpr ?_⟩
    show 3 ≤ m.retryCount.toNat
    omega
  · exact Or.inl ⟨m, by rw [Flash.newest, hsel]; rfl, hk⟩

/-- **Bounded automatic recovery.** From a staged image whose `upgradeEnd` succeeded, over
any boots, power cuts and storage failures and without a new session: the IAP region is
erased at most four times; as long as the installation is unfinished its retry count never
decreases; and a boot after the fourth erase, or with three retries on record, finds the
installation finished or stays resident for good, without an erase or a jump. -/
theorem recovery_bounded {r : Recovery} (hr : recoveries.Reachable r) :
    r.erases ≤ 4 ∧
    (∀ t m, recoveries.Steps r t → r.newest = some m → m.Installing →
      ∃ m', t.newest = some m' ∧
        (m'.state = .valid ∨ m'.Installing ∧ m.retryCount ≤ m'.retryCount)) ∧
    (∀ args cut, r.erases = 4 ∨ Exhausted (r.sys.world.cutFlash cut) →
      (∃ m, (r.sys.world.cutFlash cut).newest = some m ∧ m.state = .valid) ∨
      ∀ t, recoveries.Steps (r.step (.boot args cut)) t →
        Stuck t.sys.world ∧ t.erases = r.erases ∧
          ∀ a, Event.jumped ∉ (t.sys.world.step a).2) := by
  obtain ⟨hi, hp⟩ := recovery_inv hr
  refine ⟨?_, fun t m ht hm hinst => retry_mono hr ht hm hinst, fun args cut hend => ?_⟩
  · obtain ⟨m, z, _, hm⟩ := hp.budget
    have herases := hm.erases
    omega
  · have hstuck : Exhausted (r.sys.world.cutFlash cut) →
        ∀ t, recoveries.Steps (r.step (.boot args cut)) t → Stuck t.sys.world ∧
          t.erases = r.erases ∧ ∀ a, Event.jumped ∉ (t.sys.world.step a).2 := by
      intro he t ht
      obtain ⟨hs, hcount⟩ := stuck_forever hi he ht
      exact ⟨hs, hcount, hs.silent⟩
    rcases hend with hfour | he
    · have hb : Budget 0 4 (r.sys.world.cutFlash cut) := by
        rw [← hfour]
        unfold World.cutFlash
        split
        · rename_i op hop
          exact hp.cut hi hop cut
        · exact hp.budget
      rcases hb.spent with hvalid | he
      · exact Or.inl hvalid
      · exact Or.inr (hstuck he)
    · exact Or.inr (hstuck he)

/-! ## An installation that is interrupted once -/

/-- A call of `process` on storage that takes every operation and finishes it at once. -/
def Recovery.play (r : Recovery) : Recovery :=
  r.step (.process calmEnv ⟨0, r.sys.world.honest⟩)

/-- `footerImage` has been received into staging. -/
def receivedImage : Sys :=
  let s := (Sys.play calmEnv)^[4] ((Sys.initial (fun _ _ => 0xFF) fun _ => 0).step
    (.boot recoveryArgs 0))
  let s := (Sys.play calmEnv)^[10] (s.step (.upgradeBegin calmEnv (some ⟨1, 34, 7, 0⟩)
    (some .staged)))
  Sys.play calmEnv (s.step (.packetSubmit calmEnv ⟨0, []⟩ 0 (some footerImage)))

/-- The first installation begins. -/
def firstInstall : Recovery := ⟨receivedImage.step (.upgradeEnd (sumCrc footerImage)), 0⟩

/-- The first installation is cut in its erase, and the next boot has put its retry on
record. -/
def retried : Recovery :=
  let r : Recovery := ⟨receivedImage.step (.upgradeEnd (sumCrc footerImage)), 0⟩
  Recovery.play^[8] ((Recovery.play^[5] r).step (.boot plainArgs 7))

/-- The second installation has been completed. -/
def recovered : Recovery := Recovery.play^[20] retried

theorem steps_play {r : Recovery} (k : ℕ)
    (h : ∀ i < k, (Recovery.play^[i + 1] r).sys.world.core.sessionActive = false) :
    recoveries.Steps r (Recovery.play^[k] r) := by
  induction k with
  | zero => exact .refl
  | succ k ih =>
    have hk := h k (Nat.lt_succ_self k)
    rw [Function.iterate_succ_apply'] at hk ⊢
    exact .tail (ih fun i hi => h i (Nat.lt_succ_of_lt hi))
      ⟨_, admits_honest _ rfl rfl, rfl, hk⟩

theorem receivedImage_reachable : (runs False).Reachable receivedImage := by
  have hboot : (runs False).Reachable ((Sys.initial (fun _ _ => 0xFF) fun _ => 0).step
      (.boot recoveryArgs 0)) := by
    refine .step (.start ⟨_, _, rfl, ?_⟩) ⟨.boot recoveryArgs 0, trivial, rfl⟩
    intro z m hm
    rw [Flash.copy_of_erased (by simp [Memory.slice, List.map_const'])] at hm
    cases hm
  have h₁ := reachable_play calmEnv hboot rfl rfl 4
  have h₂ := reachable_play calmEnv (.step h₁ ⟨.upgradeBegin calmEnv (some ⟨1, 34, 7, 0⟩)
    (some .staged), trivial, rfl⟩) rfl rfl 10
  exact reachable_play calmEnv (.step h₂ ⟨.packetSubmit calmEnv ⟨0, []⟩ 0 (some footerImage),
    trivial, rfl⟩) rfl rfl 1

/-- What the runs below ask of their states, checked in one evaluation of the whole run. -/
theorem retried_checked :
    (receivedImage.world.core.mode = .staged ∧
      (upgradeEnd receivedImage.world.core (sumCrc footerImage)).2 = .success) ∧
    ((∀ i < 5, (Recovery.play^[i + 1] firstInstall).sys.world.core.sessionActive = false) ∧
      ((Recovery.play^[5] firstInstall).step
        (.boot plainArgs 7)).sys.world.core.sessionActive = false ∧
      ∀ i < 8, (Recovery.play^[i + 1] ((Recovery.play^[5] firstInstall).step
        (.boot plainArgs 7))).sys.world.core.sessionActive = false) ∧
    (∀ i < 20, (Recovery.play^[i + 1] retried).sys.world.core.sessionActive = false) ∧
    retried.newest.any (fun m => m.Installing ∧ m.retryCount = 1) = true ∧
    retried.newest.map Metadata.retryCount = some 1 ∧
    recovered.newest.map Metadata.retryCount = some 0 := by
  decide +kernel

theorem retried_reachable : recoveries.Reachable retried := by
  obtain ⟨⟨hmode, hend⟩, ⟨hfirst, hboot, hsecond⟩, -⟩ := retried_checked
  have hstart : recoveries.Reachable firstInstall :=
    .start ⟨receivedImage, sumCrc footerImage, receivedImage_reachable, hmode, hend, rfl⟩
  have hcut := hstart.steps (steps_play 5 hfirst)
  exact (Transition.Reachable.step hcut ⟨.boot plainArgs 7, trivial, rfl, hboot⟩).steps
    (steps_play 8 hsecond)

theorem retried_recovers : recoveries.Steps retried recovered :=
  steps_play 20 retried_checked.2.2.1

/-- The installation goes on from its record. -/
theorem recovery_bounded_retried : retried.erases ≤ 4 ∧ ∃ m', recovered.newest = some m' ∧
    (m'.state = .valid ∨ m'.Installing ∧ 1 ≤ m'.retryCount) := by
  obtain ⟨herases, hmono, _⟩ := recovery_bounded retried_reachable
  have hcount := retried_checked.2.2.2.1
  obtain ⟨m, hm, hinst⟩ := Option.any_eq_true .. |>.mp hcount
  rw [decide_eq_true_eq] at hinst
  have h := hmono recovered m retried_recovers hm hinst.1
  rw [hinst.2] at h
  exact ⟨herases, h⟩

/-- With the completed installation the count on record drops from one to zero. -/
theorem retry_count_reset : recoveries.Reachable retried ∧ recoveries.Steps retried recovered ∧
    retried.newest.map Metadata.retryCount = some 1 ∧
    recovered.newest.map Metadata.retryCount = some 0 :=
  ⟨retried_reachable, retried_recovers, retried_checked.2.2.2.2⟩

end Atoman.Bootloader
