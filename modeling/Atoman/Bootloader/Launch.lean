import Atoman.Bootloader.Preservation

/-!
# Launch safety

The jump to the IAP image is justified by what the same boot has observed, and no
`VALID` record is programmed without a verified image behind it. Together they say
that an IAP region that was erased or programmed is not started before its contents
have been read back, checked and recorded.
-/

namespace Atoman.Bootloader
open Lib

variable {s : Sys} {w : World} {c : Core} {env : Env} {st : Storage}

/-! ## Where the calls come from -/

theorem mem_answerAll_flash {op : FlashOp} (calls : List Call) :
    Event.submitted op ∈ (w.answerAll env st calls).2 → Call.flash op ∈ calls := by
  induction calls generalizing w with
  | nil => exact fun h => nomatch h
  | cons call calls ih =>
    intro h
    rcases List.mem_append.mp h with h | h
    · cases call with
      | flash op' =>
        obtain ⟨⟩ := List.mem_singleton.mp h
        exact List.mem_cons_self
      | headerIsValid => cases List.mem_singleton.mp h
      | jumpToIap => cases List.mem_singleton.mp h
    · exact List.mem_cons_of_mem _ (ih h)

theorem mem_answerAll_jumped (calls : List Call) :
    Event.jumped ∈ (w.answerAll env st calls).2 → Call.jumpToIap ∈ calls := by
  induction calls generalizing w with
  | nil => exact fun h => nomatch h
  | cons call calls ih =>
    intro h
    rcases List.mem_append.mp h with h | h
    · cases call with
      | jumpToIap => exact List.mem_cons_self
      | flash op' => cases List.mem_singleton.mp h
      | headerIsValid => cases List.mem_singleton.mp h
    · exact List.mem_cons_of_mem _ (ih h)

/-- The storage going idle shows completions only. -/
theorem settle_events {e : Event} (h : e ∈ (w.settle env st).2) :
    ∃ op : FlashOp, ∃ c : Core, e = op.doneEvent c := by
  unfold World.settle at h
  cases hp : w.pending with
  | none => rw [hp] at h; cases h
  | some op =>
    rw [hp] at h
    simp only at h
    split at h
    · simp only at h
      split at h
      · exact ⟨op, _, List.mem_singleton.mp h⟩
      · cases h
    · cases h

theorem settle_state (w : World) (env : Env) (st : Storage) :
    (w.settle env st).1.core.state = w.core.state := by
  unfold World.settle
  cases w.pending with
  | none => rfl
  | some op =>
    simp only
    split
    · exact op.deliver_state _ _
    · rfl

/-- Waiting phases call nothing but the header check. -/
theorem storageDone_calls {call : Call} (h : call ∈ (storageDone env c).2) :
    ∃ header size ok, call = .headerIsValid header size ok := by
  have hheader : ∀ finalImage, call ∈ (installedHeaderEvaluate env c finalImage).2 →
      ∃ header size ok, call = .headerIsValid header size ok := by
    intro finalImage h
    unfold installedHeaderEvaluate at h
    simp only at h
    repeat' split at h
    all_goals first | exact ⟨_, _, _, List.mem_singleton.mp h⟩ | cases h
  unfold storageDone at h
  split at h <;> first | exact hheader _ h | cases h

/-- The operation a phase of `process` submits. -/
theorem process_calls {call : Call} (h : call ∈ (process env c).2) :
    (∃ header size ok, call = .headerIsValid header size ok) ∨
    (call = .jumpToIap ∧ c.state = .jumpPending) ∨
    ∃ op, call = .flash op ∧ (op.commitsValid = true → c.state = .metadataWrite ∧
      op = .write c.metadataTargetZone 0 (c.copyBuffer.slice 0 metadataEncodedSize)) := by
  unfold process at h
  split at h
  · refine Or.inl ?_
    unfold storageWaitHandle at h
    split at h
    · cases h
    · split at h
      · cases h
      · exact storageDone_calls h
  · refine Or.inr ?_
    unfold processPhase at h
    split at h
    case h_12 hs => exact Or.inr ⟨_, List.mem_singleton.mp h, fun _ => ⟨hs, rfl⟩⟩
    case h_13 hs =>
      refine Or.inl ⟨?_, hs⟩
      unfold jumpStep at h
      split at h
      · cases h
      · split at h
        · cases h
        · exact List.mem_singleton.mp h
    case h_3 hs =>
      unfold startupReadSubmit at h
      simp only at h
      split at h
      · cases h
      · exact Or.inr ⟨_, List.mem_singleton.mp h, fun hv => nomatch hv⟩
    case h_14 => cases h
    all_goals exact Or.inr ⟨_, List.mem_singleton.mp h, fun hv => nomatch hv⟩

theorem mem_process_events {e : Event} (h : e ∈ (w.step (.process env st)).2) :
    (∃ op : FlashOp, ∃ c : Core, e = op.doneEvent c) ∨
      e ∈ (World.answerAll { (w.settle env st).1 with
        core := (process env (w.settle env st).1.core).1 } env st
        (process env (w.settle env st).1.core).2).2 := by
  rcases List.mem_append.mp h with h | h
  · exact Or.inl (settle_events h)
  · exact Or.inr h

/-- A jump happens in the phase that prepares it. -/
theorem jumped_phase {a : Action} (h : Event.jumped ∈ (w.step a).2) :
    w.core.state = .jumpPending := by
  cases a with
  | boot args cut => cases h
  | process env st =>
    rcases mem_process_events h with ⟨op, c, hop⟩ | h
    · cases op <;> cases hop
    · rcases process_calls (mem_answerAll_jumped _ h) with ⟨_, _, _, hc⟩ | ⟨_, hs⟩ | ⟨_, hc, _⟩
      · cases hc
      · rwa [settle_state] at hs
      · cases hc
  | upgradeBegin env info mode =>
    simp only [World.step] at h
    split at h <;> first | cases List.mem_singleton.mp h | cases h
  | packetSubmit env st offset data =>
    simp only [World.step] at h
    rcases List.mem_append.mp h with h | h
    · rcases packetSubmit_cases env w.core offset data with ⟨r, heq⟩ | ⟨d, _, _, _, _, _, _, heq⟩
      · rw [heq] at h; cases mem_answerAll_jumped _ h
      · rw [heq] at h
        cases List.mem_singleton.mp (mem_answerAll_jumped _ h)
    · split at h <;> first | cases List.mem_singleton.mp h | cases h
  | upgradeEnd expectedCrc =>
    simp only [World.step] at h
    split at h <;> first | cases List.mem_singleton.mp h | cases h

/-- A `VALID` record is handed over in the phase that programs the record. -/
theorem commit_phase {reads : Prop} {h : History} (hi : Inv reads w h) {a : Action} {op : FlashOp}
    (he : Event.submitted op ∈ (w.step a).2) (hv : op.commitsValid = true) :
    w.core.state = .metadataWrite ∧
      op = .write w.core.metadataTargetZone 0 (w.core.copyBuffer.slice 0 metadataEncodedSize) := by
  cases a with
  | boot args cut => cases he
  | process env st =>
    rcases mem_process_events he with ⟨op', c, hop⟩ | he
    · cases op' <;> cases hop
    · rcases process_calls (mem_answerAll_flash _ he) with ⟨_, _, _, hc⟩ | ⟨hc, _⟩ | ⟨_, hc, hs⟩
      · cases hc
      · cases hc
      · cases hc
        obtain ⟨hstate, hop⟩ := hs hv
        rw [settle_state] at hstate
        have hset : w.settle env st = (w, []) := by
          have hp : w.pending = none := hi.idle (by rw [hstate]; rfl)
          simp [World.settle, hp]
        rw [hset] at hop
        exact ⟨hstate, hop⟩
  | upgradeBegin env info mode =>
    simp only [World.step] at he
    split at he <;> first | cases List.mem_singleton.mp he | cases he
  | packetSubmit env st offset data =>
    simp only [World.step] at he
    rcases List.mem_append.mp he with he | he
    · rcases packetSubmit_cases env w.core offset data with ⟨r, heq⟩ | ⟨d, _, hs, _, _, _, _, heq⟩
      · rw [heq] at he; cases mem_answerAll_flash _ he
      · rw [heq] at he
        obtain ⟨⟩ := List.mem_singleton.mp (mem_answerAll_flash _ he)
        obtain ⟨_, _, hd, _⟩ := hi.evaluated hs rfl
        rcases hd.outside with hz | hz <;> rw [hz] at hv <;> cases hv
    · split at he <;> first | cases List.mem_singleton.mp he | cases he
  | upgradeEnd expectedCrc =>
    simp only [World.step] at he
    split at he <;> first | cases List.mem_singleton.mp he | cases he

/-- **Launch safety.** From a flash without an unfinished installation, through any boots,
calls, storage results and power cuts: a jump has startup or install evidence in the log
of its own boot, and no erase or program operation on the IAP region is newer than the
last `VALID` record; and a `VALID` record is programmed only after the image it describes
was read back with the recorded CRC and its header accepted, with the IAP region left
alone since. -/
theorem launch_safe (hs : (runs False).Reachable s) (a : Action) :
    (Event.jumped ∈ (s.world.step a).2 →
      (StartupEvidence s.history.log ∨ InstallEvidence s.world.core.config s.history.log) ∧
        s.history.ledger.touched = false) ∧
    (∀ op : FlashOp, Event.submitted op ∈ (s.world.step a).2 → op.commitsValid = true →
      ∃ z m, op = .write z 0 (metadataEncode m) ∧
        ImageVerified s.world.core.config m.fileSize m.expectedCrc s.history.log) := by
  have hi := reachable_inv hs
  refine ⟨?_, ?_⟩
  · intro hj
    obtain ⟨_, hl⟩ := hi.evaluated (jumped_phase hj) rfl
    exact ⟨hl.evidence, hl.untouched⟩
  · intro op he hv
    obtain ⟨hstate, rfl⟩ := commit_phase hi he hv
    obtain ⟨_, hc, _⟩ := hi.evaluated hstate rfl
    refine ⟨_, metadataCurrent s.world.core, by rw [hc.encoded], ?_⟩
    have hvalid : (metadataCurrent s.world.core).state = .valid := by
      rw [hc.encoded] at hv
      rcases hc.copy with hz | hz <;> rw [hz] at hv <;>
        simpa [FlashOp.commitsValid, isValidRecord] using hv
    rcases hc.blocking with hb | ⟨_, hj⟩
    · exact absurd hvalid (not_valid_of_blocking hb)
    · have hn := hc.next
      rw [hj] at hn
      exact hn.2.2.evidence

/-! ## A device without records -/

/-- The bytes a read in flight should deliver. -/
def World.honest (w : World) : List UInt8 :=
  match w.pending with
  | some (.read zone offset length _) => (w.flash zone).slice offset length
  | _ => []

/-- A call of `process` on storage that takes every operation and finishes it at once. -/
def Sys.play (env : Env) (s : Sys) : Sys := s.step (.process env ⟨0, s.world.honest⟩)

theorem admits_honest {reads : Prop} (w : World) (hsub : env.submit = .success)
    (hres : env.result = .success) : w.Admits reads (.process env ⟨0, w.honest⟩) := by
  have hf : w.faithful w.honest := by
    intro zone offset length target hp
    rw [World.honest, hp]
  exact ⟨fun _ => by rw [hsub]; rfl, fun _ _ => ⟨hres, hf⟩, fun _ _ => hf⟩

theorem reachable_play {reads : Prop} (env : Env) (hs : (runs reads).Reachable s)
    (hsub : env.submit = .success) (hres : env.result = .success) (n : ℕ) :
    (runs reads).Reachable ((Sys.play env)^[n] s) := by
  induction n generalizing s with
  | zero => exact hs
  | succ n ih =>
    exact ih (.step hs ⟨_, admits_honest s.world hsub hres, rfl⟩)

/-- A platform that agrees to everything. -/
def calmEnv : Env where
  zoneInfo _ := (.success, ⟨0x10000, true, true, true⟩)
  submit := .success
  busy := false
  result := .success
  beginBusy := false
  headerCheck _ _ := (.success, true)
  reasonClear := .success
  jump := .success

def plainArgs : InitArgs where
  config := ⟨1, some .direct, 16, 1024, 128, 0xFFFF, fun data crc =>
    data.foldl (fun c b => c + b.toUInt16) crc⟩
  mounted := true
  bootReason := .powerOn
  upgradeInfo := none
  packetBuffer := fun _ => 0
  copyBuffer := fun _ => 0

/-- An erased device after its first boot. -/
def erasedBoot : Sys := (Sys.initial (fun _ _ => 0xFF) fun _ => 0).step (.boot plainArgs 0)

theorem erasedBoot_reachable (reads : Prop) : (runs reads).Reachable erasedBoot := by
  refine .step (.start ⟨_, _, rfl, ?_⟩) ⟨.boot plainArgs 0, trivial, rfl⟩
  intro z m hm
  rw [Flash.copy_of_erased (by simp [Memory.slice, List.map_const'])] at hm
  cases hm

/-- A provisioned image without a record is started on the seventh call. -/
theorem launch_safe_erased :
    let s := (Sys.play calmEnv)^[6] erasedBoot
    let a := Action.process calmEnv ⟨0, []⟩
    Event.jumped ∈ (s.world.step a).2 ∧
      (StartupEvidence s.history.log ∨ InstallEvidence s.world.core.config s.history.log) ∧
      s.history.ledger.touched = false := by
  have hj : Event.jumped ∈ (((Sys.play calmEnv)^[6] erasedBoot).world.step
      (.process calmEnv ⟨0, []⟩)).2 := by decide +kernel
  exact ⟨hj, (launch_safe (reachable_play calmEnv (erasedBoot_reachable False) rfl rfl 6) _).1 hj⟩

end Atoman.Bootloader

/-!
## Install fidelity

What a session has accepted is what gets installed: staging keeps the session's bytes
while a record refers to them, and a jump that follows a commit of its own boot finds
them in the IAP region, each byte programmed and read back once since the last erase.
-/

namespace Atoman.Bootloader
open Lib

variable {s : Sys}

/-- The observation of a programmed metadata record. -/
def Event.commits : Event → Bool
  | .writeDone .metadataWriteWait _ _ _ => true
  | _ => false

/-- The boot that observed this log has programmed a metadata record; a start of the
image that was found at boot never does. -/
def committed (log : List Event) : Bool := log.any Event.commits

theorem NoCommit.committed {log : List Event} (h : NoCommit log) : committed log = false := by
  rw [Bootloader.committed, List.any_eq_false]
  intro e he hc
  unfold Event.commits at hc
  split at hc
  · exact h _ _ _ he
  · cases hc

/-- The image of the session in the IAP region, every byte handled once. -/
structure InstalledOnce (flash : Flash) (g : Ledger) (c : Core) : Prop where
  image : (flash .iap).slice 0 c.upgradeInfo.fileSize.toNat = g.ended
  written : ∀ i < c.upgradeInfo.fileSize.toNat, covering g.written i = 1
  compared : c.mode = .staged → ∀ i < c.upgradeInfo.fileSize.toNat, covering g.compared i = 1
  readback : ∀ i < c.upgradeInfo.fileSize.toNat, covering g.readback i = 1

/-- **Install fidelity.** On storage whose successful reads are faithful, through any
sessions and resets: while the newest record is `INSTALL_PENDING` or `COPYING`, staging
holds the packets of the last completed session; and a jump in a boot that has committed
a record finds them in the IAP region. -/
theorem install_fidelity (hs : (runs True).Reachable s) :
    (∀ m z, s.world.flash.selected = some (m, z) → m.Installing →
      (s.world.flash .staging).slice 0 m.fileSize.toNat = s.history.ledger.ended) ∧
    (∀ a, Event.jumped ∈ (s.world.step a).2 → committed s.history.log = true →
      InstalledOnce s.world.flash s.history.ledger s.world.core) := by
  have hi := reachable_inv hs
  refine ⟨fun m z hm => (hi.flash.record m z hm).staged, ?_⟩
  intro a hj hcommit
  obtain ⟨_, hl⟩ := hi.evaluated (jumped_phase hj) rfl
  rcases hl.installed with hn | ⟨hinst, hread⟩
  · rw [hn.committed] at hcommit; cases hcommit
  · exact ⟨hinst.image trivial, fun i hi => covering_eq_one hinst.written (Nat.zero_le i) hi,
      fun hm i hi => covering_eq_one (hinst.compared hm) (Nat.zero_le i) hi,
      fun i hi => covering_eq_one hread (Nat.zero_le i) hi⟩

/-! ## A staged installation -/

/-- An image of footer size with its footer. -/
def footerImage : List UInt8 :=
  [0, 0, 0, 0, 1, 7, 0, 0, 0, 34, 0, 0, 0] ++ List.replicate 16 0 ++ [1] ++
    u32Le (footerCrc32Calculate ([0, 0, 0, 0, 1, 7, 0, 0, 0, 34, 0, 0, 0]
      ++ List.replicate 16 0 ++ [1]))

def recoveryArgs : InitArgs := { plainArgs with bootReason := .recovery }

def sumCrc (data : List UInt8) : UInt16 := recoveryArgs.config.crc16Update data 0xFFFF

/-- The whole installation of `footerImage` through staging, up to the jump. -/
def stagedInstall : Sys :=
  let s₁ := (Sys.play calmEnv)^[4] ((Sys.initial (fun _ _ => 0xFF) fun _ => 0).step
    (.boot recoveryArgs 0))
  let s₂ := (Sys.play calmEnv)^[10] (s₁.step (.upgradeBegin calmEnv (some ⟨1, 34, 7, 0⟩)
    (some .staged)))
  let s₃ := Sys.play calmEnv (s₂.step (.packetSubmit calmEnv ⟨0, []⟩ 0 (some footerImage)))
  (Sys.play calmEnv)^[24] (s₃.step (.upgradeEnd (sumCrc footerImage)))

theorem stagedInstall_reachable : (runs True).Reachable stagedInstall := by
  have hboot : (runs True).Reachable ((Sys.initial (fun _ _ => 0xFF) fun _ => 0).step
      (.boot recoveryArgs 0)) := by
    refine .step (.start ⟨_, _, rfl, ?_⟩) ⟨.boot recoveryArgs 0, trivial, rfl⟩
    intro z m hm
    rw [Flash.copy_of_erased (by simp [Memory.slice, List.map_const'])] at hm
    cases hm
  have h₁ := reachable_play calmEnv hboot rfl rfl 4
  have h₂ := reachable_play calmEnv (.step h₁ ⟨.upgradeBegin calmEnv (some ⟨1, 34, 7, 0⟩)
    (some .staged), trivial, rfl⟩) rfl rfl 10
  have h₃ := reachable_play calmEnv (.step h₂ ⟨.packetSubmit calmEnv ⟨0, []⟩ 0 (some footerImage),
    trivial, rfl⟩) rfl rfl 1
  exact reachable_play calmEnv (.step h₃ ⟨.upgradeEnd (sumCrc footerImage), trivial, rfl⟩)
    rfl rfl 24

/-- The staged image is jumped to and is what the session sent. -/
theorem install_fidelity_staged :
    Event.jumped ∈ (stagedInstall.world.step (.process calmEnv ⟨0, []⟩)).2 ∧
      InstalledOnce stagedInstall.world.flash stagedInstall.history.ledger
        stagedInstall.world.core := by
  have hj : Event.jumped ∈ (stagedInstall.world.step (.process calmEnv ⟨0, []⟩)).2 := by
    decide +kernel
  have hc : committed stagedInstall.history.log = true := by decide +kernel
  exact ⟨hj, (install_fidelity stagedInstall_reachable).2 _ hj hc⟩

end Atoman.Bootloader
