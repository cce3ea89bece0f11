import Atoman.Bootloader.Completion

/-!
# The invariant holds in every reachable state

Every action keeps the invariant: a boot at any moment, one call of `process` in any
phase, and the three calls of the upgrade service. The runs then satisfy it by
induction.
-/

namespace Atoman.Bootloader
open Lib

variable {reads : Prop} {w : World} {h : History} {flash : Flash} {log : List Event} {g : Ledger}
  {c : Core} {env : Env} {st : Storage}

/-! ## Boots -/

/-- A power cut leaves a flash the next boot can rely on. -/
theorem Inv.cut (hi : Inv reads w h) (k : ℕ) : FlashOk (w.cutFlash k) h.ledger := by
  unfold World.cutFlash
  cases hp : w.pending with
  | none => exact hi.flash
  | some op =>
    by_cases he : w.core.state.evaluated = true
    · exact (waiting_safe hi hp he k).zones
    · have hexp := hi.op hp
      unfold expectedOp at hexp
      have hread : ∃ zone offset length target, op = .read zone offset length target := by
        generalize w.core.state = s at hexp he
        cases s <;> first | exact absurd rfl he | cases hexp
        · exact ⟨_, _, _, _, rfl⟩
        · exact ⟨_, _, _, _, rfl⟩
      obtain ⟨zone, offset, length, target, rfl⟩ := hread
      exact hi.flash

theorem boot_inv (hf : FlashOk flash g) (args : InitArgs) :
    Inv reads ⟨bootloaderInit args, flash, none⟩ (History.rebooted ⟨log, g⟩) := by
  have hf' : FlashOk flash { g with accepted := [] } := hf.ledger _ rfl rfl
  unfold bootloaderInit
  simp only
  split
  · exact ⟨rfl, hf', trivial⟩
  · rename_i hvalid
    refine ⟨rfl, hf', ?_, (fun _ _ _ h => nomatch h), rfl⟩
    simp only [Config.valid, Bool.not_eq_true', not_or, Bool.not_eq_false,
      decide_eq_true_eq] at hvalid
    exact hvalid.2.2.1

theorem initial_inv (flash : Flash) (buffer : Memory UInt8)
    (hf : ∀ z m, flash.copy z = some m → ¬ m.Installing) :
    Inv reads (Sys.initial flash buffer).world (Sys.initial flash buffer).history := by
  refine ⟨rfl, ⟨?_, fun h => nomatch h⟩, trivial⟩
  intro m z hm
  have hni := hf z m (Flash.copy_of_selected hm).2
  exact ⟨fun h => absurd h hni, (fun h => nomatch h), fun h => absurd h hni⟩

/-! ## Calls of `process` -/

/-- The phases that act. -/
theorem Inv.act (hi : Inv reads w h) (hw : w.core.state.waiting = false)
    (ha : w.core.state = .metaARead ∨ w.core.state = .metaBRead → env.submit.accepted = true) :
    Outcome reads w h env st (process env w.core) := by
  cases hs : w.core.state
  case metaARead => exact metadataRead_outcome hi (ha (Or.inl hs)) (Or.inl hs)
  case metaBRead => exact metadataRead_outcome hi (ha (Or.inr hs)) (Or.inr hs)
  case startupRead => exact startupRead_outcome hi hs
  case downloadErase => exact downloadErase_outcome hi hs
  case copyErase => exact copyErase_outcome hi hs
  case copyRead => exact copyRead_outcome hi hs
  case copyWrite => exact copyWrite_outcome hi hs
  case copyVerifyRead => exact copyVerifyRead_outcome hi hs
  case verifyRead => exact verifyRead_outcome hi hs
  case finalRead => exact finalRead_outcome hi hs
  case metadataErase => exact metadataErase_outcome hi hs
  case metadataWrite => exact metadataWrite_outcome hi hs
  case jumpPending => exact jumpPending_outcome hi hs
  case uninitialized | waitUpgrade | downloadReady | configError =>
    have hproc : process env w.core = (w.core, []) := process_phase hs rfl
    rw [hproc]
    exact hi
  all_goals rw [hs] at hw; cases hw

/-- The waiting phases, once the storage has succeeded. -/
theorem Inv.complete (hi : Inv reads w h) {op : FlashOp} (hp : w.pending = some op)
    (hstart : w.core.state = .metaAWait ∨ w.core.state = .metaBWait → w.faithful st.delivered)
    (hreads : reads → w.faithful st.delivered) : Completes reads w h env st op := by
  have hexp := hi.op hp
  unfold expectedOp at hexp
  cases hs : w.core.state <;> rw [hs] at hexp
    <;> simp only [Option.some.injEq, reduceCtorEq] at hexp
  case metaAWait => subst hexp; exact metaA_completes hi hs (hstart (Or.inl hs) _ _ _ _ hp)
  case metaBWait => subst hexp; exact metaB_completes hi hs (hstart (Or.inr hs) _ _ _ _ hp)
  case startupWait => subst hexp; exact startup_completes hi hs
  case downloadEraseWait => subst hexp; exact downloadErase_completes hi hs
  case packetWriteWait => subst hexp; exact packetWrite_completes hi hs
  case copyEraseWait => subst hexp; exact copyErase_completes hi hs
  case copyReadWait =>
    subst hexp
    exact copyRead_completes hi hs fun hr => hreads hr _ _ _ _ hp
  case copyWriteWait => subst hexp; exact copyWrite_completes hi hs
  case copyVerifyReadWait => subst hexp; exact copyVerifyRead_completes hi hs
  case verifyReadWait => subst hexp; exact verifyRead_completes hi hs
  case finalReadWait => subst hexp; exact finalRead_completes hi hs
  case metadataEraseWait => subst hexp; exact metadataErase_completes hi hs
  case metadataWriteWait => subst hexp; exact metadataWrite_completes hi hs

/-- A delivery only fills the buffers. -/
theorem Resident.deliver (hr : Resident flash g c) (op : FlashOp) (bytes : List UInt8) :
    Resident flash g (op.deliver bytes c) := by
  cases op with
  | read zone offset length target =>
    cases target with
    | packetBuffer => exact hr.core rfl rfl rfl
    | copyBuffer at' => exact hr.core rfl rfl rfl
  | _ => exact hr

@[simp] theorem FlashOp.deliver_state (op : FlashOp) (bytes : List UInt8) (c : Core) :
    (op.deliver bytes c).state = c.state := by
  cases op with
  | read zone offset length target => cases target <;> rfl
  | _ => rfl

theorem process_inv {s : Sys} (hi : Inv reads s.world s.history)
    (ha : s.world.Admits reads (.process env st)) :
    Inv reads (s.step (.process env st)).world (s.step (.process env st)).history := by
  obtain ⟨w, h⟩ := s
  change Inv reads w h at hi
  obtain ⟨hsub, hstart, hreads⟩ := ha
  simp only [Sys.step, World.step, List.foldl_append]
  by_cases hw : w.core.state.waiting = true
  · by_cases hb : env.busy = true
    · have hset : w.settle env st = (w, []) := by
        unfold World.settle
        split
        · rw [if_neg (by simp [hb])]
        · rfl
      have hproc : process env w.core = (w.core, []) := by
        simp [process_waiting hw, storageWaitHandle, hb]
      rw [hset]
      simp only [hproc]
      exact hi
    · have hb' : env.busy = false := by simpa using hb
      cases hp : w.pending with
      | none =>
        rw [← isSome_expectedOp, ← hi.pending] at hw
        simp [hp] at hw
      | some op =>
        by_cases hres : env.result = .success
        · have hset : w.settle env st
              = (w.completed op st, [op.doneEvent (op.deliver st.delivered w.core)]) := by
            simp [World.settle, World.completed, hp, hw, hb', hres]
          have hproc : process env (w.completed op st).core
              = storageDone env (w.completed op st).core := by
            have hw' : (w.completed op st).core.state.waiting = true := by
              simp [World.completed, hw]
            simp [process_waiting hw', storageWaitHandle, hb', hres]
          rw [hset]
          simp only [hproc]
          exact hi.complete hp (fun hs => (hstart hs hb').2) (fun hr => hreads hr hres)
        · have hset : w.settle env st
              = (⟨op.deliver st.delivered w.core, op.apply st.progress w.flash, none⟩, []) := by
            simp [World.settle, hp, hw, hb', hres]
          have hw' : (op.deliver st.delivered w.core).state.waiting = true := by simp [hw]
          have hproc : process env (op.deliver st.delivered w.core)
              = (residentFailure (op.deliver st.delivered w.core) env.result, []) := by
            simp [process_waiting hw', storageWaitHandle, hb', hres]
          rw [hset]
          simp only [hproc]
          have he : w.core.state.evaluated = true := by
            by_contra he
            have hmeta : w.core.state = .metaAWait ∨ w.core.state = .metaBWait := by
              generalize w.core.state = s at hw he
              cases s <;> first | exact absurd rfl he | exact absurd hw (by decide) | simp
            exact hres (hstart hmeta hb').1
          exact ((waiting_safe hi hp he st.progress).deliver op st.delivered).inv env.result
  · have hw' : w.core.state.waiting = false := by simpa using hw
    have hp : w.pending = none := hi.idle hw'
    have hset : w.settle env st = (w, []) := by simp [World.settle, hp]
    rw [hset]
    exact hi.act hw' hsub

/-! ## Calls of the upgrade service -/

theorem upgradeBegin_inv {s : Sys} (hi : Inv reads s.world s.history) (env : Env)
    (info : Option UpgradeInfo) (mode : Option UpgradeMode) :
    Inv reads (s.step (.upgradeBegin env info mode)).world
      (s.step (.upgradeBegin env info mode)).history := by
  obtain ⟨w, h⟩ := s
  change Inv reads w h at hi
  simp only [Sys.step, World.step]
  rcases upgradeBegin_cases env w.core info mode with ⟨r, hne, heq⟩ | ⟨i, m, hs, hsize, heq⟩
  · simp only [heq, if_neg hne]
    exact hi
  · simp only [heq, if_pos]
    have hp : w.pending = none := hi.idle (by rw [hs]; rfl)
    have hr : Resident w.flash h.ledger w.core := (hi.evaluated hs rfl).1
    have hr' : Resident w.flash { h.ledger with accepted := [] } w.core := hr.ledger _ rfl rfl
    rw [hp]
    exact hr'.session hsize m rfl

/-- A packet is answered without effect, or is next in line and goes to the storage. -/
theorem packetSubmit_cases (env : Env) (c : Core) (offset : UInt32)
    (data : Option (List UInt8)) :
    (∃ r, packetSubmit env c offset data = (c, r, [])) ∨
    ∃ d, data = some d ∧ c.state = .downloadReady ∧ 0 < d.length ∧ d.length ≤ packetDataSize ∧
      offset = c.receivedLength ∧
      d.length ≤ (c.upgradeInfo.fileSize - c.receivedLength).toNat ∧
      packetSubmit env c offset data =
        (if env.submit.accepted then
          { c with
            packetBuffer := c.packetBuffer.write 0 d
            pendingPacketOffset := offset
            pendingPacketLength := d.length.toUInt32
            state := .packetWriteWait
            result := .inProgress }
        else residentFailure c env.submit |> fun f =>
            { f with packetBuffer := c.packetBuffer.write 0 d },
        if env.submit.accepted then .success else env.submit,
        [.flash (.write c.downloadZone offset.toNat d)]) := by
  unfold packetSubmit
  cases data with
  | none => exact Or.inl ⟨_, rfl⟩
  | some d =>
    simp only
    by_cases hlen : d.length = 0 ∨ packetDataSize < d.length
    · rw [if_pos hlen]; exact Or.inl ⟨_, rfl⟩
    · rw [if_neg hlen]
      by_cases hst : c.state ≠ .downloadReady ∨ !c.sessionActive
      · rw [if_pos hst]; exact Or.inl ⟨_, rfl⟩
      · rw [if_neg hst]
        split
        · exact Or.inl ⟨_, rfl⟩
        · split
          · exact Or.inl ⟨_, rfl⟩
          · rename_i hbound
            refine Or.inr ⟨d, rfl, ?_, by omega, by omega, ?_, ?_, ?_⟩
            · by_contra h
              exact hst (Or.inl h)
            · by_contra h
              exact hbound (Or.inl h)
            · by_contra h
              exact hbound (Or.inr (by omega))
            · by_cases hacc : env.submit.accepted = true
              · simp [hacc]
              · simp [hacc, residentFailure]

theorem packetSubmit_inv {s : Sys} (hi : Inv reads s.world s.history) (env : Env) (st : Storage)
    (offset : UInt32) (data : Option (List UInt8)) :
    Inv reads (s.step (.packetSubmit env st offset data)).world
      (s.step (.packetSubmit env st offset data)).history := by
  obtain ⟨w, h⟩ := s
  change Inv reads w h at hi
  simp only [Sys.step, World.step]
  rcases packetSubmit_cases env w.core offset data with
    ⟨r, heq⟩ | ⟨d, rfl, hs, _, hlen, rfl, hfit, heq⟩
  · simp only [heq, World.answerAll, ne_eq, not_true, and_false, if_false, List.append_nil,
      List.foldl_nil]
    exact hi
  · obtain ⟨hr, hc, hd, hrecv⟩ := hi.evaluated hs rfl
    have hp : w.pending = none := hi.idle (by rw [hs]; rfl)
    obtain ⟨touched, hg, hr', hsafe⟩ := submitDownload_safe
      (.write w.core.downloadZone w.core.receivedLength.toNat d) rfl hr hc hd
      (fun hz => by rw [hz]; rfl) (fun hz => by rw [hz]; exact ⟨rfl, rfl⟩)
    by_cases hacc : env.submit.accepted = true
    · have hdlen : (d.length.toUInt32).toNat = d.length := by
        rw [Nat.toUInt32_eq, UInt32.toNat_ofNat', Nat.mod_eq_of_lt]
        exact Nat.lt_of_le_of_lt hlen (by decide)
      have hbuf : (w.core.packetBuffer.write 0 d).slice 0 (d.length.toUInt32).toNat = d :=
        Memory.slice_write_of_length hdlen.symm
      have hfit' : w.core.receivedLength.toNat + d.length ≤ w.core.upgradeInfo.fileSize.toNat := by
        rw [UInt32.toNat_sub_of_le _ _ (UInt32.le_iff_toNat_le.mpr hrecv.progress.bound)] at hfit
        have := hrecv.progress.bound
        omega
      simp only [heq, hacc, if_true, World.answerAll, World.answer, List.append_nil, ne_eq,
        reduceCtorEq, not_false_eq_true, and_self, List.cons_append, List.nil_append,
        List.foldl_cons, List.foldl_nil, History.observe, hg, Option.getD_some]
      refine ⟨?_, hr'.zones.ledger _ rfl rfl, ?_⟩
      · simp only [expectedOp, hbuf]
      · have hr'' := hr'.ledger
          { h.ledger with touched := touched, accepted := h.ledger.accepted ++ d } rfl rfl
        refine ⟨hr''.synced.core rfl rfl rfl, hc, { hd with }, { hrecv.progress with }, rfl, ?_, ?_⟩
        · show w.core.receivedLength.toNat + (d.length.toUInt32).toNat ≤ _
          rw [hdlen]; exact hfit'
        · show h.ledger.accepted ++ d = _ ++ (w.core.packetBuffer.write 0 d).slice 0 _
          rw [hbuf, ← hrecv.stored]
    · have hne : env.submit ≠ .success := by
        intro hsub
        rw [hsub] at hacc
        exact hacc rfl
      simp only [heq, if_neg hacc, World.answerAll, World.answer, List.append_nil, hne, false_and,
        if_false, List.foldl_cons, List.foldl_nil, History.observe, hg, hp]
      exact ⟨rfl, (hsafe st.progress).zones, (hsafe st.progress).synced.core rfl rfl rfl, trivial⟩

/-- A completed session is what an installation will refer to. -/
theorem Resident.sessionEnded (hr : Resident flash g c) (hc : Current flash c)
    (hst : c.metadataState = downloadState c.mode) (ended : List UInt8) :
    Resident flash { g with ended } c := by
  obtain ⟨r, hr', hstate, hsel⟩ := hc
  have hni : ¬ r.Installing := not_installing_downloadState (hstate.trans hst)
  refine ⟨⟨?_, hr.zones.present⟩, hr.synced.source, ?_, hr.synced.present, hr.synced.buffer⟩
  · intro m z hm
    have hok := hr.zones.record m z hm
    rw [hsel] at hm
    obtain ⟨rfl, rfl⟩ := Prod.mk.inj (Option.some.inj hm)
    exact ⟨hok.shape, hok.blocking, fun hi => absurd hi hni⟩
  · intro m hm
    obtain ⟨hseq, hok⟩ := hr.synced.record m hm
    rw [hr'] at hm
    obtain rfl := Option.some.inj hm
    exact ⟨hseq, hok.shape, hok.blocking, fun hi => absurd hi hni⟩

theorem upgradeEnd_inv {s : Sys} (hi : Inv reads s.world s.history) (expectedCrc : UInt16) :
    Inv reads (s.step (.upgradeEnd expectedCrc)).world
      (s.step (.upgradeEnd expectedCrc)).history := by
  obtain ⟨w, h⟩ := s
  change Inv reads w h at hi
  simp only [Sys.step, World.step]
  unfold upgradeEnd
  by_cases hbusy : w.core.state ≠ .downloadReady ∨ !w.core.sessionActive
  · rw [if_pos hbusy]
    exact hi
  · rw [if_neg hbusy]
    have hs : w.core.state = .downloadReady := by
      by_contra hs
      exact hbusy (Or.inl hs)
    obtain ⟨hr, hc, hd, hrecv⟩ := hi.evaluated hs rfl
    have hp : w.pending = none := hi.idle (by rw [hs]; rfl)
    by_cases hbad : w.core.receivedLength ≠ w.core.upgradeInfo.fileSize
        ∨ w.core.runningCrc ≠ expectedCrc ∨ !footerIsValid w.core
    · rw [if_pos hbad]
      simp only [reduceCtorEq, if_false, List.foldl_nil, hp]
      exact hr.inv _
    · rw [if_neg hbad]
      have hfull : w.core.receivedLength = w.core.upgradeInfo.fileSize := by
        by_contra hfull
        exact hbad (Or.inl hfull)
      have hr' : Resident w.flash { h.ledger with ended := h.ledger.accepted }
          { w.core with expectedCrc := expectedCrc, sessionActive := false } :=
        (hr.sessionEnded hc hd.state _).core rfl rfl rfl
      have hstored := hrecv.stored
      rw [hfull] at hstored
      simp only [if_true, List.foldl_cons, List.foldl_nil, History.observe, hp]
      by_cases hm : w.core.mode = .staged
      · rw [if_pos hm]
        have hz : w.core.downloadZone = .staging := by rw [hd.zone, if_pos hm]
        rw [hz] at hstored
        have hinv : Inv reads ⟨metadataCommitStart { w.core with
            expectedCrc := expectedCrc, sessionActive := false } .installPending .copyErase,
            w.flash, none⟩ ⟨h.log ++ [Event.sessionEnded],
              { h.ledger with ended := h.ledger.accepted }⟩ :=
          hr'.commit .installPending .copyErase (fun _ => ⟨hm, hd.size⟩)
            (Or.inl (Or.inr (Or.inr (Or.inl rfl))))
          (fun _ => hstored) ⟨Or.inl rfl, hm, hd.size, hstored⟩
        rw [metadataCommitStart_eq hr'.synced.buffer] at hinv ⊢
        exact hinv
      · rw [if_neg hm]
        have hz : w.core.downloadZone = .iap := by rw [hd.zone, if_neg hm]
        rw [hz] at hstored
        have hmode : w.core.metadataState = .downloadDirect := by
          rw [hd.state, downloadState, if_neg hm]
        have hwritten := hrecv.progress.written hz
        rw [hfull] at hwritten
        refine ⟨rfl, hr'.zones, hr'.synced.core rfl rfl rfl, hc, Or.inl hmode,
          ⟨?_, fun _ => hstored, hwritten, fun h => absurd h hm, hd.size⟩,
          ⟨Nat.zero_le _, ?_, [], Undisturbed.nil _, rfl, rfl⟩, ?_⟩
        · show h.ledger.accepted.length = _
          rw [← hstored, Memory.length_slice]
        · show Tiles 0 h.ledger.readback 0
          rw [hrecv.progress.unread hz]; rfl
        · exact Nat.pos_of_ne_zero fun hz => hd.size (UInt32.toNat_inj.mp hz)

/-! ## All runs -/

/-- **Step.** Every admissible action keeps the invariant. -/
theorem step_inv {s : Sys} (hi : Inv reads s.world s.history) {a : Action}
    (ha : s.world.Admits reads a) : Inv reads (s.step a).world (s.step a).history := by
  cases a with
  | boot args cut => exact boot_inv (hi.cut cut) args
  | process env st => exact process_inv hi ha
  | upgradeBegin env info mode => exact upgradeBegin_inv hi env info mode
  | packetSubmit env st offset data => exact packetSubmit_inv hi env st offset data
  | upgradeEnd expectedCrc => exact upgradeEnd_inv hi expectedCrc

/-- **Run.** The invariant holds in every state of every run. -/
theorem reachable_inv {s : Sys} (hs : (runs reads).Reachable s) :
    Inv reads s.world s.history := by
  refine Transition.Reachable.invariant (P := fun s => Inv reads s.world s.history) ?_ ?_ hs
  · rintro _ ⟨flash, buffer, rfl, hf⟩
    exact initial_inv flash buffer hf
  · rintro s _ hi ⟨a, ha, rfl⟩
    exact step_inv hi ha

end Atoman.Bootloader
