import Atoman.Bootloader.Commit
import Atoman.Bootloader.Launch
import Mathlib.Data.List.DropRight

/-!
# A download session

From a successful `upgradeBegin` on, only packets and calls of `process`. A packet
counts as accepted when it is acknowledged and handed to the storage. The bytes in
flash, the running CRC and the footer buffer follow the accepted packets with one
completed write of delay; at `DOWNLOAD_READY` they agree.
-/

namespace Atoman.Bootloader
open Lib

/-! ## The footer buffer -/

/-- The footer buffer holds the last 34 bytes of the stream. -/
def Core.Tail (c : Core) (bytes : List UInt8) : Prop :=
  c.footerBuffer.slice 0 c.footerLength = bytes.rtake footerSize

variable {c : Core} {bytes data : List UInt8}

theorem Core.Tail.length (h : c.Tail bytes) : c.footerLength = min footerSize bytes.length := by
  have hlen := congrArg List.length h
  rw [Memory.length_slice, List.rtake, List.length_drop] at hlen
  omega

/-- What is kept of the old tail, followed by a short packet, is the new tail. -/
theorem rtake_append_short {keep : ℕ} (hd : data.length < footerSize)
    (hk : keep = min (footerSize - data.length) (min footerSize bytes.length)) :
    (bytes.rtake footerSize).drop (min footerSize bytes.length - keep) ++ data
      = (bytes ++ data).rtake footerSize := by
  have hcut : (bytes ++ data).length - footerSize ≤ bytes.length := by
    rw [List.length_append]
    omega
  rw [List.rtake, List.rtake, List.drop_drop, List.drop_append_of_le_length hcut]
  congr 2
  rw [List.length_append]
  omega

/-- The tail slides on over packets of any size. -/
theorem Core.Tail.update (h : c.Tail bytes) (data : List UInt8) :
    (footerTailUpdate c data).Tail (bytes ++ data) := by
  unfold footerTailUpdate
  split
  case isTrue hlong =>
    have hlen : (data.drop (data.length - footerSize)).length = footerSize := by
      rw [List.length_drop]
      omega
    have hcut : (bytes ++ data).length - footerSize =
        bytes.length + (data.length - footerSize) := by
      rw [List.length_append]
      omega
    rw [Core.Tail, List.rtake, hcut, List.drop_length_add_append]
    have hslice : (c.footerBuffer.write 0 (data.drop (data.length - footerSize))).slice 0 footerSize
        = data.drop (data.length - footerSize) := Memory.slice_write_of_length hlen
    exact hslice
  case isFalse hshort =>
    have hfoot := h.length
    -- The bytes kept of the old tail: all of it, or as many as leave room for the packet.
    have hkeep : (if c.footerLength + data.length > footerSize then footerSize - data.length
        else c.footerLength) = min (footerSize - data.length) (min footerSize bytes.length) := by
      split <;> omega
    simp only [hkeep]
    generalize hk : min (footerSize - data.length) (min footerSize bytes.length) = keep
    have hold : c.footerBuffer.slice (c.footerLength - keep) keep
        = (bytes.rtake footerSize).drop (min footerSize bytes.length - keep) := by
      have hin := Memory.slice_inside h (a := c.footerLength - keep) (n := keep) (by omega)
      rw [Nat.zero_add] at hin
      rw [hin, ← hfoot, List.take_of_length_le]
      rw [List.length_drop, List.rtake, List.length_drop]
      omega
    have hkept : (c.footerBuffer.write 0 (c.footerBuffer.slice (c.footerLength - keep) keep)).slice
        0 keep = c.footerBuffer.slice (c.footerLength - keep) keep :=
      Memory.slice_write_of_length (Memory.length_slice _ _ _)
    have hext := Memory.slice_write_extend data hkept
    rw [Nat.zero_add, hold, rtake_append_short (by omega) hk.symm, ← hold] at hext
    exact hext

/-! ## Sessions -/

/-- A device and the packets its session has accepted, oldest first. -/
structure Session where
  world : World
  packets : List (List UInt8)

/-- The packets among some observations. -/
def acceptedPackets (es : List Event) : List (List UInt8) :=
  es.filterMap fun
    | .packetAccepted data => some data
    | _ => none

def Session.step (s : Session) (a : Action) : Session :=
  ⟨(s.world.step a).1, s.packets ++ acceptedPackets (s.world.step a).2⟩

/-- What a session consists of. -/
def Action.InSession : Action → Prop
  | .process .. | .packetSubmit .. => True
  | _ => False

/-- The states of a session: it begins on any device whose storage tells whether it is
busy, and goes on with any packets and calls of `process`. -/
def sessions : Transition Session where
  init s := ∃ (w : World) (env : Env) (info : Option UpgradeInfo) (mode : Option UpgradeMode),
    env.beginBusy = w.pending.isSome ∧
    (upgradeBegin env w.core info mode).2 = .success ∧
    s = ⟨(w.step (.upgradeBegin env info mode)).1, []⟩
  next s t := ∃ a : Action, a.InSession ∧ t = s.step a

/-- Flash and core agree on `packets`. -/
structure Received (flash : Flash) (packets : List (List UInt8)) (c : Core) : Prop where
  stored : (flash c.downloadZone).slice 0 c.receivedLength.toNat = packets.flatten
  crc : c.runningCrc = foldCrc c.config packets
  tail : c.Tail packets.flatten
  active : c.sessionActive = true
  bound : c.receivedLength.toNat ≤ c.upgradeInfo.fileSize.toNat

/-- `d` is the packet a retransmission is compared with. -/
structure LastPacket (d : List UInt8) (c : Core) : Prop where
  pos : 0 < d.length
  fits : d.length ≤ packetDataSize
  offset : c.lastPacketOffset.toNat + d.length = c.receivedLength.toNat
  length : c.lastPacketLength.toNat = d.length
  data : c.packetBuffer.slice 0 d.length = d

/-- `d` is on its way to flash. -/
structure Writing (d : List UInt8) (c : Core) : Prop where
  pos : 0 < d.length
  fits : d.length ≤ packetDataSize
  offset : c.pendingPacketOffset = c.receivedLength
  length : c.pendingPacketLength.toNat = d.length
  bound : c.receivedLength.toNat + d.length ≤ c.upgradeInfo.fileSize.toNat
  data : c.packetBuffer.slice 0 d.length = d

/-- The commits and the erase before the first packet. -/
def Opening (c : Core) : Prop :=
  c.state = .downloadErase ∨ c.state = .downloadEraseWait ∨
    c.state.committing = true ∧
      (c.metadataNextState = .downloadErase ∨ c.metadataNextState = .downloadReady)

/-- Where a session can be. -/
inductive SessionPhase (flash : Flash) (packets : List (List UInt8)) (c : Core) : Prop
  | opening (hs : Opening c) (hp : packets = []) (hr : Received flash [] c)
      (hl : c.lastPacketLength = 0)
  | ready (hs : c.state = .downloadReady) (hr : Received flash packets c)
      (hn : packets = [] → c.lastPacketLength = 0)
      (hl : ∀ d ∈ packets.getLast?, LastPacket d c)
  | writing {before : List (List UInt8)} {d : List UInt8} (hs : c.state = .packetWriteWait)
      (hp : packets = before ++ [d]) (hr : Received flash before c) (hw : Writing d c)
  | closed (hs : c.state = .waitUpgrade)
      (hb : c.receivedLength.toNat ≤ c.upgradeInfo.fileSize.toNat)

/-- The invariant of a session. -/
structure SessionInv (s : Session) : Prop where
  pending : s.world.pending = expectedOp s.world.core
  phase : SessionPhase s.world.flash s.packets s.world.core

variable {w : World} {flash flash' : Flash} {packets before : List (List UInt8)} {d : List UInt8}
  {env : Env} {st : Storage} {s : Session}

theorem SessionPhase.bound (h : SessionPhase flash packets c) :
    c.receivedLength.toNat ≤ c.upgradeInfo.fileSize.toNat := by
  cases h with
  | opening _ _ hr => exact hr.bound
  | ready _ hr => exact hr.bound
  | writing _ _ hr => exact hr.bound
  | closed _ hb => exact hb

/-- A session that gives up stays closed. -/
theorem SessionInv.closed (hb : c.receivedLength.toNat ≤ c.upgradeInfo.fileSize.toNat)
    (r : Result) : SessionInv ⟨⟨residentFailure c r, flash, none⟩, packets⟩ := ⟨rfl, .closed rfl hb⟩

/-- Before the first packet the flash does not matter. -/
theorem Received.other (h : Received flash [] c) (flash' : Flash) : Received flash' [] c := by
  have hlen := congrArg List.length h.stored
  rw [Memory.length_slice] at hlen
  refine { h with stored := ?_ }
  rw [hlen]
  rfl

/-- A commit on the way to the first packet. -/
theorem Opening.commit (hr : Received flash [] c) (hl : c.lastPacketLength = 0)
    (state : MetadataState) {next : BootState} (hn : next = .downloadErase ∨ next = .downloadReady)
    (flash' : Flash) : SessionInv ⟨⟨metadataCommitStart c state next, flash', none⟩, []⟩ := by
  have hr' := hr.other flash'
  unfold metadataCommitStart
  simp only
  split
  · exact ⟨rfl, .closed rfl hr.bound⟩
  · exact ⟨rfl, .opening (Or.inr (Or.inr ⟨rfl, hn⟩)) rfl { hr' with } hl⟩

/-! ## Calls of `process` -/

/-- A phase that hands an operation to the storage. -/
theorem step_submitOp {op : FlashOp} {wait : BootState} (hp : w.pending = none)
    (hproc : process env w.core = submitOp env c op wait) :
    (w.step (.process env st)).1 = if env.submit.accepted then
        ⟨{ c with state := wait }, w.flash, some op⟩
      else ⟨residentFailure c env.submit, op.apply st.progress w.flash, none⟩ := by
  have hset : w.settle env st = (w, []) := by simp [World.settle, hp]
  simp only [World.step, hset, hproc, submitOp, World.answerAll, World.answer]
  split
  · rfl
  · rw [hp]

/-- A phase that waits: the storage is still busy, has failed, or is done. -/
theorem step_waiting (env : Env) (st : Storage) {op : FlashOp} (hs : w.core.state.waiting = true)
    (hp : w.pending = some op) :
    (w.step (.process env st)).1 = w ∨
    (env.busy = false ∧ env.result ≠ .success ∧ (w.step (.process env st)).1
      = ⟨residentFailure (op.deliver st.delivered w.core) env.result,
        op.apply st.progress w.flash, none⟩) ∨
    env.busy = false ∧ env.result = .success ∧ (w.step (.process env st)).1
      = ⟨(storageDone env (w.completed op st).core).1, (w.completed op st).flash, none⟩ := by
  simp only [World.step]
  by_cases hb : env.busy = true
  · have hset : w.settle env st = (w, []) := by simp [World.settle, hp, hb]
    have hproc : process env w.core = (w.core, []) := by
      simp [process_waiting hs, storageWaitHandle, hb]
    simp only [hset, hproc, World.answerAll, true_or]
  · have hb' : env.busy = false := by simpa using hb
    have hs' : (op.deliver st.delivered w.core).state.waiting = true := by simpa using hs
    by_cases hres : env.result = .success
    · have hset : (w.settle env st).1 = w.completed op st := by
        simp [World.settle, World.completed, hp, hs, hb', hres]
      have hproc : process env (w.completed op st).core
          = storageDone env (w.completed op st).core := by
        rw [process_waiting (by exact hs'), storageWaitHandle, if_neg (by simp [hb']),
          if_neg (by simp [hres])]
      have hcalls : ∀ op', Call.flash op' ∉ (storageDone env (w.completed op st).core).2 := by
        intro op' hop'
        obtain ⟨_, _, _, hcall⟩ := storageDone_calls hop'
        cases hcall
      rw [hset, hproc, answerAll_of_no_flash _ hcalls]
      exact Or.inr (Or.inr ⟨hb', hres, rfl⟩)
    · have hset : (w.settle env st).1 = ⟨op.deliver st.delivered w.core,
          op.apply st.progress w.flash, none⟩ := by
        simp [World.settle, hp, hs, hb', hres]
      have hproc : process env (op.deliver st.delivered w.core)
          = (residentFailure (op.deliver st.delivered w.core) env.result, []) := by
        simp [process_waiting hs', storageWaitHandle, hb', hres]
      simp only [hset, hproc, World.answerAll]
      exact Or.inr (Or.inl ⟨hb', hres, trivial⟩)

/-- A phase in which `process` has nothing to do. -/
theorem step_idle (hp : w.pending = none) (hproc : process env w.core = (w.core, [])) :
    (w.step (.process env st)).1 = w := by
  have hset : w.settle env st = (w, []) := by simp [World.settle, hp]
  simp only [World.step, hset, hproc, World.answerAll]

/-- Submitting before the first packet. -/
theorem Opening.submit {op : FlashOp} {wait : BootState} (hp : w.pending = none)
    (hproc : process env w.core = submitOp env w.core op wait)
    (hwait : Opening { w.core with state := wait })
    (hop : expectedOp { w.core with state := wait } = some op)
    (hr : Received w.flash [] w.core) (hl : w.core.lastPacketLength = 0) :
    SessionInv ⟨(w.step (.process env st)).1, []⟩ := by
  rw [step_submitOp hp hproc]
  split
  · exact ⟨hop.symm, .opening hwait rfl { hr with } hl⟩
  · exact SessionInv.closed hr.bound _

/-- The packet in flight has been written. -/
theorem Writing.done (hr : Received flash before c) (hw : Writing d c) :
    SessionInv ⟨⟨packetWriteDone c, (FlashOp.write c.downloadZone c.pendingPacketOffset.toNat
      (c.packetBuffer.slice 0 c.pendingPacketLength.toNat)).apply c.pendingPacketLength.toNat flash,
      none⟩, before ++ [d]⟩ := by
  have hdata : c.packetBuffer.slice 0 c.pendingPacketLength.toNat = d := by
    rw [hw.length]
    exact hw.data
  have hsum : (c.receivedLength + c.pendingPacketLength).toNat
      = c.receivedLength.toNat + d.length := by
    rw [UInt32.toNat_add, hw.length, Nat.mod_eq_of_lt]
    exact Nat.lt_of_le_of_lt hw.bound c.upgradeInfo.fileSize.toNat_lt
  obtain ⟨b, n, hfoot⟩ := footerTailUpdate_eq c d
  have htail := hr.tail.update d
  have hstored := Memory.slice_write_extend d hr.stored
  rw [Nat.zero_add] at hstored
  have hcrc : c.config.crc16Update d c.runningCrc = foldCrc c.config (before ++ [d]) := by
    rw [hr.crc, foldCrc, foldCrc, List.foldl_append]
    rfl
  rw [hfoot] at htail
  simp only [packetWriteDone, hdata, hfoot]
  refine ⟨rfl, .ready rfl ⟨?_, hcrc, ?_, hr.active, ?_⟩ (fun h => ?_) ?_⟩
  · show ((FlashOp.write c.downloadZone c.pendingPacketOffset.toNat d).apply
      c.pendingPacketLength.toNat flash c.downloadZone).slice 0
      (c.receivedLength + c.pendingPacketLength).toNat = _
    rw [hsum, hw.offset, hw.length, FlashOp.apply_write_same,
      List.take_of_length_le (Nat.le_refl _), hstored, List.flatten_append, List.flatten_singleton]
  · rw [List.flatten_append, List.flatten_singleton]
    exact htail
  · show (c.receivedLength + c.pendingPacketLength).toNat ≤ _
    rw [hsum]
    exact hw.bound
  · exact absurd h (by simp)
  · intro d' hd'
    rw [List.getLast?_concat, Option.mem_some_iff] at hd'
    subst hd'
    refine ⟨hw.pos, hw.fits, ?_, hw.length, hw.data⟩
    show c.pendingPacketOffset.toNat + _ = (c.receivedLength + c.pendingPacketLength).toNat
    rw [hsum, hw.offset]

/-- A phase before the first packet that waits. -/
theorem Opening.wait {op : FlashOp} (hs : w.core.state.waiting = true) (hp : w.pending = some op)
    (hop : ∀ bytes, op.deliver bytes w.core = w.core) (ho : Opening w.core)
    (hexp : expectedOp w.core = some op) (hr : Received w.flash [] w.core)
    (hl : w.core.lastPacketLength = 0) (c' : Core) (hdone : storageDone env w.core = (c', []))
    (hc' : ∀ flash', SessionInv ⟨⟨c', flash', none⟩, []⟩) :
    SessionInv ⟨(w.step (.process env st)).1, []⟩ := by
  have hcore : (w.completed op st).core = w.core := hop st.delivered
  rcases step_waiting env st hs hp with h | ⟨_, _, h⟩ | ⟨_, _, h⟩ <;> rw [h]
  · exact ⟨hp.trans hexp.symm, .opening ho rfl hr hl⟩
  · rw [hop]
    exact SessionInv.closed hr.bound _
  · rw [hcore, hdone]
    exact hc' _

/-- **Step.** Before the first packet, `process` keeps the invariant. -/
theorem Opening.process (hp : w.pending = expectedOp w.core) (ho : Opening w.core)
    (hr : Received w.flash [] w.core) (hl : w.core.lastPacketLength = 0) (env : Env)
    (st : Storage) : SessionInv ⟨(w.step (.process env st)).1, []⟩ := by
  rcases ho with hs | hs | ⟨hc, hn⟩
  · have hnone : w.pending = none := by rw [hp, expectedOp, hs]
    exact Opening.submit hnone (process_phase hs rfl) (Or.inr (Or.inl rfl)) rfl hr hl
  · have hexp : expectedOp w.core
        = some (.erase w.core.downloadZone 0 w.core.upgradeInfo.fileSize.toNat) := by
      rw [expectedOp, hs]
    refine Opening.wait (by rw [hs]; rfl) (hp.trans hexp) (fun _ => rfl) (Or.inr (Or.inl hs)) hexp
      hr hl (metadataCommitStart w.core (downloadState w.core.mode) .downloadReady) ?_ ?_
    · rw [storageDone, hs]
    · exact Opening.commit hr hl _ (Or.inr rfl)
  · cases hs : w.core.state
    case metadataErase =>
      have hnone : w.pending = none := by rw [hp, expectedOp, hs]
      exact Opening.submit hnone (process_phase hs rfl) (Or.inr (Or.inr ⟨rfl, hn⟩)) rfl hr hl
    case metadataEraseWait =>
      have hexp : expectedOp w.core
          = some (.erase w.core.metadataTargetZone 0 metadataEncodedSize) := by
        rw [expectedOp, hs]
      refine Opening.wait (by rw [hs]; rfl) (hp.trans hexp) (fun _ => rfl)
        (Or.inr (Or.inr ⟨by rw [hs]; rfl, hn⟩)) hexp hr hl
        { w.core with state := .metadataWrite } ?_ fun flash' => ?_
      · rw [storageDone, hs]
      · have hr' := hr.other flash'
        exact ⟨rfl, .opening (Or.inr (Or.inr ⟨rfl, hn⟩)) rfl { hr' with } hl⟩
    case metadataWrite =>
      have hnone : w.pending = none := by rw [hp, expectedOp, hs]
      exact Opening.submit hnone (process_phase hs rfl) (Or.inr (Or.inr ⟨rfl, hn⟩)) rfl hr hl
    case metadataWriteWait =>
      have hexp : expectedOp w.core = some (.write w.core.metadataTargetZone 0
          (w.core.copyBuffer.slice 0 metadataEncodedSize)) := by
        rw [expectedOp, hs]
      refine Opening.wait (by rw [hs]; rfl) (hp.trans hexp) (fun _ => rfl)
        (Or.inr (Or.inr ⟨by rw [hs]; rfl, hn⟩)) hexp hr hl
        (metadataWriteDone w.core) ?_ fun flash' => ?_
      · rw [storageDone, hs]
      · -- The commit of the session leads to the erase, the commit after it to the packets.
        have hr' := hr.other flash'
        unfold metadataWriteDone
        rcases hn with hn | hn <;> rw [hn]
        · exact ⟨rfl, .opening (Or.inl rfl) rfl { hr' with } hl⟩
        · exact ⟨rfl, .ready rfl { hr' with } (fun _ => hl) (fun _ h => by cases h)⟩
    all_goals
      rw [hs] at hc
      cases hc

/-- **Step.** A call of `process` keeps the invariant. -/
theorem SessionInv.process (h : SessionInv ⟨w, packets⟩) (env : Env) (st : Storage) :
    SessionInv ⟨(w.step (.process env st)).1, packets⟩ := by
  obtain ⟨hp, hphase⟩ := h
  have hkept : SessionInv ⟨w, packets⟩ := ⟨hp, hphase⟩
  cases hphase with
  | opening hs hpk hr hl =>
    subst hpk
    exact Opening.process hp hs hr hl env st
  | ready hs =>
    have hnone : w.pending = none := hp.trans (by rw [expectedOp, hs])
    rw [step_idle hnone (process_phase hs rfl)]
    exact hkept
  | writing hs hpk hr hw =>
    subst hpk
    have hexp : w.pending = some (.write w.core.downloadZone w.core.pendingPacketOffset.toNat
        (w.core.packetBuffer.slice 0 w.core.pendingPacketLength.toNat)) :=
      hp.trans (by rw [expectedOp, hs])
    have hdone : storageDone env w.core = (packetWriteDone w.core, []) := by rw [storageDone, hs]
    rcases step_waiting env st (by rw [hs]; rfl) hexp with
      h | ⟨_, _, h⟩ | ⟨_, _, h⟩ <;> rw [h]
    · exact hkept
    · exact SessionInv.closed hr.bound _
    · have hw' := hw.done hr
      simpa [World.completed, FlashOp.size, FlashOp.deliver, hdone] using hw'
  | closed hs =>
    have hnone : w.pending = none := hp.trans (by rw [expectedOp, hs])
    rw [step_idle hnone (process_phase hs rfl)]
    exact hkept

/-! ## Packets -/

@[simp] theorem acceptedPackets_nil : acceptedPackets [] = [] := rfl

@[simp] theorem acceptedPackets_append (es fs : List Event) :
    acceptedPackets (es ++ fs) = acceptedPackets es ++ acceptedPackets fs :=
  List.filterMap_append

/-- The storage's answers are not packets. -/
@[simp] theorem acceptedPackets_answerAll (w : World) (calls : List Call) :
    acceptedPackets (w.answerAll env st calls).2 = [] := by
  induction calls generalizing w with
  | nil => rfl
  | cons call calls ih =>
    simp only [World.answerAll, acceptedPackets_append, ih, List.append_nil]
    cases call <;> rfl

@[simp] theorem acceptedPackets_settle (w : World) : acceptedPackets (w.settle env st).2 = [] := by
  unfold World.settle
  split
  · split
    · split
      · rename_i op _ _ _
        cases op <;> rfl
      · rfl
    · rfl
  · rfl

theorem acceptedPackets_process (w : World) :
    acceptedPackets (w.step (.process env st)).2 = [] := by
  simp only [World.step, acceptedPackets_append, acceptedPackets_settle,
    acceptedPackets_answerAll, List.append_nil]

/-- **Step.** A packet keeps the invariant. -/
theorem SessionInv.packetSubmit (h : SessionInv s) (env : Env) (st : Storage) (offset : UInt32)
    (data : Option (List UInt8)) : SessionInv (s.step (.packetSubmit env st offset data)) := by
  obtain ⟨w, packets⟩ := s
  obtain ⟨hp, hphase⟩ := h
  have hbound : w.core.receivedLength.toNat ≤ w.core.upgradeInfo.fileSize.toNat := hphase.bound
  simp only [Session.step, World.step, acceptedPackets_append, acceptedPackets_answerAll,
    List.nil_append]
  rcases packetSubmit_cases env w.core offset data with
    ⟨r, heq⟩ | ⟨d, rfl, hs, hpos, hlen, rfl, hfit, heq⟩
  · simp only [heq, World.answerAll, ne_eq, not_true, and_false, if_false, acceptedPackets_nil,
      List.append_nil]
    exact ⟨hp, hphase⟩
  · have hr : Received w.flash packets w.core := by
      cases hphase with
      | opening ho => rcases ho with h | h | ⟨h, _⟩ <;> rw [hs] at h <;> cases h
      | ready _ hr => exact hr
      | writing h => rw [hs] at h; cases h
      | closed h => rw [hs] at h; cases h
    have hnone : w.pending = none := hp.trans (by rw [expectedOp, hs])
    have hdlen : (d.length.toUInt32).toNat = d.length := by
      rw [Nat.toUInt32_eq, UInt32.toNat_ofNat', Nat.mod_eq_of_lt]
      exact Nat.lt_of_le_of_lt hlen (by decide)
    have hdata : (w.core.packetBuffer.write 0 d).slice 0 d.length = d :=
      Memory.slice_write_self _ _ _
    rw [UInt32.toNat_sub_of_le _ _ (UInt32.le_iff_toNat_le.mpr hbound)] at hfit
    by_cases hacc : env.submit.accepted = true
    · simp only [heq, if_pos hacc, World.answerAll, World.answer, true_and, ne_eq, reduceCtorEq,
        not_false_eq_true, if_true, Option.getD_some]
      refine ⟨?_, .writing rfl rfl { hr with } ⟨hpos, hlen, rfl, hdlen, ?_, hdata⟩⟩
      · simp only [expectedOp, hdlen, hdata]
      · show w.core.receivedLength.toNat + d.length ≤ w.core.upgradeInfo.fileSize.toNat
        omega
    · have hne : env.submit ≠ .success := by
        intro hsub
        rw [hsub] at hacc
        exact hacc rfl
      simp only [heq, if_neg hacc, World.answerAll, World.answer, hne, false_and, if_false, hnone,
        acceptedPackets_nil, List.append_nil]
      exact ⟨rfl, .closed rfl hbound⟩

/-- A session begins on idle storage only. -/
theorem idle_of_upgradeBegin {info : Option UpgradeInfo} {mode : Option UpgradeMode}
    (h : (upgradeBegin env c info mode).2 = .success) : env.beginBusy = false := by
  unfold upgradeBegin at h
  cases info with
  | none => cases h
  | some info =>
    by_contra hbusy
    rw [Bool.not_eq_false] at hbusy
    simp only at h
    rw [if_pos (Or.inr hbusy)] at h
    cases h

/-- **Run.** The invariant holds throughout a session. -/
theorem session_inv (hs : sessions.Reachable s) : SessionInv s := by
  refine hs.invariant (P := SessionInv) ?_ ?_
  · rintro _ ⟨w, env, info, mode, hbusy, hok, rfl⟩
    rcases upgradeBegin_cases env w.core info mode with ⟨r, hne, heq⟩ | ⟨i, m, _, _, heq⟩
    · rw [heq] at hok
      exact absurd hok hne
    · have hnone : w.pending = none := by
        rw [idle_of_upgradeBegin hok] at hbusy
        exact Option.isNone_iff_eq_none.mp (Option.isSome_eq_false_iff.mp hbusy.symm)
      simp only [World.step, heq, hnone]
      have hr : Received w.flash [] (sessionReset w.core i m) :=
        ⟨rfl, rfl, rfl, rfl, Nat.zero_le _⟩
      exact Opening.commit hr rfl (downloadState m) (Or.inl rfl) w.flash
  · rintro s _ hi ⟨a, ha, rfl⟩
    cases a with
    | process env st =>
      rw [Session.step, acceptedPackets_process, List.append_nil]
      exact SessionInv.process hi env st
    | packetSubmit env st offset data => exact hi.packetSubmit env st offset data
    | _ => exact absurd ha id

/-! ## What a session guarantees -/

/-- A CRC callback that may be fed in any parts. -/
structure Compositional (update : List UInt8 → UInt16 → UInt16) : Prop where
  nil : ∀ crc, update [] crc = crc
  append : ∀ a b crc, update (a ++ b) crc = update b (update a crc)

theorem Compositional.foldl {update : List UInt8 → UInt16 → UInt16} (h : Compositional update)
    (packets : List (List UInt8)) (crc : UInt16) :
    packets.foldl (fun crc d => update d crc) crc = update packets.flatten crc := by
  induction packets generalizing crc with
  | nil => exact (h.nil crc).symm
  | cons d packets ih => rw [List.foldl_cons, ih, List.flatten_cons, h.append]

/-- At `DOWNLOAD_READY` everything describes the same bytes. -/
structure ReadyOk (flash : Flash) (bytes : List UInt8) (c : Core) : Prop where
  stored : (flash c.downloadZone).slice 0 c.receivedLength.toNat = bytes
  crc : c.runningCrc = c.config.crc16Update bytes c.config.crc16Init
  footer : c.footerBuffer.slice 0 c.footerLength = bytes.rtake footerSize
  footerLength : c.footerLength = min footerSize c.receivedLength.toNat

theorem Received.ok (h : Received flash packets c)
    (hcrc : Compositional c.config.crc16Update) : ReadyOk flash packets.flatten c := by
  have hlen := congrArg List.length h.stored
  rw [Memory.length_slice] at hlen
  exact ⟨h.stored, by rw [h.crc, foldCrc, hcrc.foldl], h.tail, by rw [hlen, h.tail.length]⟩

/-- The last accepted packet once more. -/
def Session.Repeats (s : Session) (offset : UInt32) (data : Option (List UInt8)) : Prop :=
  ∃ d, data = some d ∧ s.packets.getLast? = some d ∧
    offset.toNat + d.length = s.world.core.receivedLength.toNat

/-- Exactly a repetition is acknowledged without a write. -/
theorem repeat_iff (h : Received flash s.packets s.world.core)
    (hs : s.world.core.state = .downloadReady)
    (hn : s.packets = [] → s.world.core.lastPacketLength = 0)
    (hl : ∀ d ∈ s.packets.getLast?, LastPacket d s.world.core) (env : Env) (offset : UInt32)
    (data : Option (List UInt8)) :
    packetSubmit env s.world.core offset data = (s.world.core, .success, []) ↔
      s.Repeats offset data := by
  constructor
  · intro heq
    unfold packetSubmit at heq
    cases data with
    | none => cases congrArg (fun r => r.2.1) heq
    | some d =>
      simp only at heq
      split at heq
      · cases congrArg (fun r => r.2.1) heq
      split at heq
      · cases congrArg (fun r => r.2.1) heq
      split at heq
      · rename_i hrep
        obtain ⟨hne, rfl, hlen, hdata⟩ := hrep
        cases hlast : s.packets.getLast? with
        | none => exact absurd (hn (List.getLast?_eq_none_iff.mp hlast)) hne
        | some d' =>
          have hd' := hl d' hlast
          have hsame : d = d' := by rw [← hdata, ← hd'.data, hlen, hd'.length]
          subst hsame
          exact ⟨d, rfl, hlast, hd'.offset⟩
      split at heq
      · cases congrArg (fun r => r.2.1) heq
      split at heq
      · cases congrArg (fun r => r.2.2) heq
      · cases congrArg (fun r => r.2.2) heq
  · rintro ⟨d, rfl, hlast, hoff⟩
    have hd := hl d hlast
    have hpos := hd.pos
    have hfits := hd.fits
    have hsame : offset = s.world.core.lastPacketOffset := by
      apply UInt32.toNat_inj.mp
      have := hd.offset
      omega
    have hne : s.world.core.lastPacketLength ≠ 0 := by
      intro h0
      have hlen := hd.length
      rw [h0, UInt32.toNat_zero] at hlen
      omega
    simp only [packetSubmit]
    rw [if_neg (by omega), if_neg (by simp [hs, h.active]),
      if_pos ⟨hne, hsame, hd.length.symm, hd.data⟩]

/-- What a rejected packet leaves alone. -/
structure Kept (w w' : World) : Prop where
  stored : (w'.flash w'.core.downloadZone).slice 0 w'.core.receivedLength.toNat
    = (w.flash w.core.downloadZone).slice 0 w.core.receivedLength.toNat
  received : w'.core.receivedLength = w.core.receivedLength
  crc : w'.core.runningCrc = w.core.runningCrc
  footer : w'.core.footerBuffer = w.core.footerBuffer
  footerLength : w'.core.footerLength = w.core.footerLength

/-- A packet the core or the storage refuses. -/
theorem rejected_kept (w : World) (env : Env) (st : Storage) (offset : UInt32)
    (data : Option (List UInt8))
    (hrej : (packetSubmit env w.core offset data).2.1 ≠ .success) :
    Kept w (w.step (.packetSubmit env st offset data)).1 := by
  simp only [World.step]
  rcases packetSubmit_cases env w.core offset data with
    ⟨r, heq⟩ | ⟨d, rfl, hs, hpos, hlen, rfl, hfit, heq⟩
  · simp only [heq, World.answerAll]
    exact ⟨rfl, rfl, rfl, rfl, rfl⟩
  · rw [heq] at hrej
    by_cases hacc : env.submit.accepted = true
    · exact absurd (if_pos hacc) hrej
    · simp only [heq, if_neg hacc, World.answerAll, World.answer]
      refine ⟨?_, rfl, rfl, rfl, rfl⟩
      -- The storage may have programmed a part of the packet, behind the received bytes.
      show ((FlashOp.write w.core.downloadZone w.core.receivedLength.toNat d).apply st.progress
        w.flash w.core.downloadZone).slice 0 w.core.receivedLength.toNat = _
      rw [FlashOp.apply_write_same, Memory.slice_write_disjoint]
      exact Or.inl (by omega)

/-- **Download session.** Whatever packets are submitted and however the storage behaves:
no more is received than announced; at `DOWNLOAD_READY` the download zone holds the
accepted packets one behind the other, with their CRC and their last 34 bytes, and a packet
is acknowledged without a write exactly when it repeats the last one; and a rejected packet
changes none of it. -/
theorem download_session (hs : sessions.Reachable s)
    (hcrc : Compositional s.world.core.config.crc16Update) :
    s.world.core.receivedLength.toNat ≤ s.world.core.upgradeInfo.fileSize.toNat ∧
    (s.world.core.state = .downloadReady →
      ReadyOk s.world.flash s.packets.flatten s.world.core ∧
      ∀ env offset data, packetSubmit env s.world.core offset data
        = (s.world.core, .success, []) ↔ s.Repeats offset data) ∧
    (∀ env st offset data, (packetSubmit env s.world.core offset data).2.1 ≠ .success →
      Kept s.world (s.world.step (.packetSubmit env st offset data)).1) := by
  obtain ⟨_, hphase⟩ := session_inv hs
  refine ⟨hphase.bound, fun hready => ?_, rejected_kept s.world⟩
  cases hphase with
  | opening ho => rcases ho with h | h | ⟨h, _⟩ <;> rw [hready] at h <;> cases h
  | ready _ hr hn hl => exact ⟨hr.ok hcrc, repeat_iff hr hready hn hl⟩
  | writing h => rw [hready] at h; cases h
  | closed h => rw [hready] at h; cases h

/-- An idle device with the plain configuration. -/
def idleWorld : World :=
  ⟨{ Core.cleared (fun _ => 0) (fun _ => 0) with
      config := plainArgs.config, state := .waitUpgrade }, fun _ _ => 0xFF, none⟩

/-- A session with one short packet. -/
def shortSession : Session :=
  let play (s : Session) := s.step (.process calmEnv ⟨0, []⟩)
  let s : Session :=
    ⟨(idleWorld.step (.upgradeBegin calmEnv (some ⟨1, 34, 7, 0⟩) (some .staged))).1, []⟩
  play ((play^[10] s).step (.packetSubmit calmEnv ⟨0, []⟩ 0 (some [1, 2, 3])))

theorem download_session_short : shortSession.packets = [[1, 2, 3]] ∧
    ReadyOk shortSession.world.flash [1, 2, 3] shortSession.world.core := by
  have hplay : ∀ n s, sessions.Reachable s →
      sessions.Reachable ((fun s : Session => s.step (.process calmEnv ⟨0, []⟩))^[n] s) := by
    intro n
    induction n with
    | zero => exact fun s hs => hs
    | succ n ih => exact fun s hs => ih _ (.step hs ⟨.process calmEnv ⟨0, []⟩, trivial, rfl⟩)
  have hs : sessions.Reachable shortSession := by
    refine .step (.step (hplay 10 _ (.start ⟨idleWorld, calmEnv, _, _, rfl, ?_, rfl⟩))
      ⟨.packetSubmit calmEnv ⟨0, []⟩ 0 (some [1, 2, 3]), trivial, rfl⟩)
      ⟨.process calmEnv ⟨0, []⟩, trivial, rfl⟩
    decide +kernel
  have hcfg : shortSession.world.core.config = plainArgs.config := rfl
  have hcrc : Compositional shortSession.world.core.config.crc16Update := by
    rw [hcfg]
    exact ⟨fun _ => rfl, fun _ _ _ => List.foldl_append⟩
  exact ⟨by decide +kernel, ((download_session hs hcrc).2.1 (by decide +kernel)).1⟩

end Atoman.Bootloader
