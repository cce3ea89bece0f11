import Atoman.RealtimeScope.Service

/-!
# Frames stay in their session

While `active_session` is the session of the connection, every queued frame was sampled
under it: it was stored behind a stop that emptied the queue, or it was there before. So a
read under which the session does not change returns frames of its own session only.
-/

namespace Atoman.RealtimeScope
open Comm (Packet)
open Lib (Memory)

/-- A complete frame of some bank. -/
def Frame.Whole (frame : Frame) : Prop :=
  frame.size = frame.data.length ∧
    ∃ (bank : Bank) (index : UInt8) (bus : Bus), bank.Ready ∧ frame.data = bank.frame index bus

/-- What a read returns. -/
structure Read.Sound (record : Read) : Prop where
  whole : ∀ frame ∈ record.frames, frame.1.Whole
  bounded : (readBytes record.frames).length ≤ record.capacity
  own : record.steady = true → ∀ frame ∈ record.frames, frame.2 = record.session

namespace Service
variable {s s' : Service}

/-- Nothing is sampled or queued. -/
def Quiet (s : Service) : Prop := s.tags = [] ∧ s.run.scope.running = false

/-- A session that `manage` has read: it is the present one if `active_session` is. -/
def Held (s : Service) (session : UInt32) : Prop :=
  session ∈ s.sessions ∧ (s.active_session = s.session → session = s.session)

/-- What holds where `manage` is. -/
def StageSound (s : Service) : Stage → Prop
  | .asked session => s.Held session
  | .stopping session => s.Held session
  | .assigning session => s.Held session ∧ (session = s.active_session ∨ s.Quiet)
  | .serving _ _ .ask => s.Quiet
  | .serving _ _ (.renew session) => s.Held session ∧ s.Quiet
  | _ => True

/-- What holds where the reader is. -/
def ReaderSound (s : Service) : Reader → Prop
  | .comparing _ session steady => steady = true → session = s.session
  | .reading capacity session steady frames =>
    (Read.mk capacity session steady frames).Sound ∧
      (steady = true → session = s.session ∧ s.active_session = s.session)
  | _ => True

/-- What holds between the steps. -/
structure SessionSound (s : Service) : Prop where
  unbound : s.bound = false → s.tags = [] ∧ s.stage = .idle ∧ s.reader = .idle
  run : s.bound = true → s.run.Valid
  tags_length : s.tags.length = s.run.scope.count
  session_mem : s.session ∈ s.sessions
  active_mem : s.bound = true → s.active_session ∈ s.sessions
  tags : s.active_session = s.session → ∀ tag ∈ s.tags, tag = s.session
  stage : s.StageSound s.stage
  reader : s.ReaderSound s.reader
  reads : ∀ record ∈ s.reads, record.Sound

/-- The requests do not matter for the sessions. -/
theorem SessionSound.same (h : s.SessionSound) (hbound : s'.bound = s.bound) (hrun : s'.run = s.run)
    (htags : s'.tags = s.tags) (hsession : s'.session = s.session)
    (hsessions : s'.sessions = s.sessions) (hactive : s'.active_session = s.active_session)
    (hstage : s'.stage = s.stage) (hreader : s'.reader = s.reader) (hreads : s'.reads = s.reads) :
    s'.SessionSound := by
  have hstage' : s'.StageSound s'.stage := by
    have hold := h.stage
    rw [hstage]
    unfold StageSound Held Quiet at hold ⊢
    rw [hsession, hsessions, hactive, htags, hrun]
    exact hold
  have hreader' : s'.ReaderSound s'.reader := by
    have hold := h.reader
    rw [hreader]
    unfold ReaderSound at hold ⊢
    rw [hsession, hactive]
    exact hold
  refine ⟨?_, ?_, ?_, ?_, ?_, ?_, hstage', hreader', hreads ▸ h.reads⟩
  · rw [hbound, htags, hstage, hreader]
    exact h.unbound
  · rw [hbound, hrun]
    exact h.run
  · rw [htags, hrun]
    exact h.tags_length
  · rw [hsession, hsessions]
    exact h.session_mem
  · rw [hbound, hactive, hsessions]
    exact h.active_mem
  · rw [hactive, hsession, htags]
    exact h.tags

/-! ## The connection -/

theorem SessionSound.bound_of_stage (h : s.SessionSound) (hstage : s.stage ≠ .idle) :
    s.bound = true := by
  cases hbound : s.bound with
  | true => rfl
  | false => exact absurd (h.unbound hbound).2.1 hstage

theorem SessionSound.bound_of_reader (h : s.SessionSound) (hreader : s.reader ≠ .idle) :
    s.bound = true := by
  cases hbound : s.bound with
  | true => rfl
  | false => exact absurd (h.unbound hbound).2.2 hreader

/-- **The connection changes**: what was there belongs to a session of before. -/
theorem SessionSound.relink (h : s.SessionSound) (connected : Bool) (session : UInt32) :
    (s.relink connected session).SessionSound := by
  unfold Service.relink
  split
  · exact h.same rfl rfl rfl rfl rfl rfl rfl rfl rfl
  split
  · exact h
  next hnew =>
  have hold (hbound : s.bound = true) (heq : s.active_session = session) : False :=
    hnew (heq ▸ h.active_mem hbound)
  refine ⟨fun hbound => ?_, h.run, h.tags_length, List.mem_cons_self,
    fun hbound => List.mem_cons_of_mem _ (h.active_mem hbound), fun heq tag htag => ?_, ?_,
      ?_, h.reads⟩
  · obtain ⟨htags, hstage, hreader⟩ := h.unbound hbound
    refine ⟨htags, hstage, ?_⟩
    dsimp only
    rw [hreader]
    rfl
  · cases hbound : s.bound with
    | true => exact (hold hbound heq).elim
    | false =>
      rw [(h.unbound hbound).1] at htag
      exact absurd htag List.not_mem_nil
  · -- a session that is held is not the new one, and `active_session` is not either
    have hheld {held : UInt32} (hne : s.stage ≠ .idle) (hheld : s.Held held) :
        held ∈ session :: s.sessions ∧ (s.active_session = session → held = session) :=
      ⟨List.mem_cons_of_mem _ hheld.1, fun heq => (hold (h.bound_of_stage hne) heq).elim⟩
    have hstage := h.stage
    cases hcase : s.stage with
    | idle => trivial
    | asked held =>
      rw [hcase] at hstage
      exact hheld (by rw [hcase]; exact nofun) hstage
    | stopping held =>
      rw [hcase] at hstage
      exact hheld (by rw [hcase]; exact nofun) hstage
    | assigning held =>
      rw [hcase] at hstage
      exact ⟨hheld (by rw [hcase]; exact nofun) hstage.1, hstage.2⟩
    | looping i => trivial
    | serving i request part =>
      rw [hcase] at hstage
      cases part with
      | ask => exact hstage
      | renew held => exact ⟨hheld (by rw [hcase]; exact nofun) hstage.1, hstage.2⟩
      | begin | stop | start _ | send _ => trivial
  · have hreader := h.reader
    dsimp only
    cases hcase : s.reader with
    | idle | connected _ => trivial
    | comparing capacity held steady => exact fun hsteady => nomatch hsteady
    | reading capacity held steady frames =>
      rw [hcase] at hreader
      exact ⟨⟨hreader.1.whole, hreader.1.bounded, fun hsteady => (nomatch hsteady)⟩,
        fun hsteady => nomatch hsteady⟩

/-! ## The task -/

/-- Where `manage` has not just emptied the queue or read a session. -/
def Plain : Stage → Prop
  | .idle | .looping _ => True
  | .serving _ _ .ask | .serving _ _ (.renew _) => False
  | .serving _ _ _ => True
  | _ => False

theorem stageSound_plain {stage : Stage} (h : Plain stage) : s.StageSound stage := by
  cases stage with
  | idle | looping _ => trivial
  | asked _ | stopping _ | assigning _ => exact h.elim
  | serving i request part =>
    cases part with
    | ask | renew _ => exact h.elim
    | begin | stop | start _ | send _ => trivial

/-- `manage` goes on. -/
theorem SessionSound.setStage (h : s.SessionSound) (hbound : s.bound = true) (stage : Stage)
    (hstage : s.StageSound stage) (hs' : s' = { s with
      stage := stage
      requests := s'.requests
      request_head := s'.request_head
      request_count := s'.request_count
      begun := s'.begun
      sent := s'.sent }) : s'.SessionSound := by
  rw [hs']
  exact ⟨fun hunbound => (nomatch hbound.symm.trans hunbound), h.run, h.tags_length, h.session_mem,
    h.active_mem, h.tags, hstage, h.reader, h.reads⟩

/-- A call on the sampler that leaves the number of queued frames. -/
theorem SessionSound.setRun (h : s.SessionSound) (hbound : s.bound = true) {run : Run}
    {stage : Stage} (hrun : run.Valid) (hcount : run.scope.count = s.run.scope.count)
    (hstage : Plain stage) : SessionSound { s with run := run, stage := stage } :=
  ⟨fun hunbound => (nomatch hbound.symm.trans hunbound), fun _ => hrun,
    h.tags_length.trans hcount.symm, h.session_mem, h.active_mem, h.tags,
    stageSound_plain hstage, h.reader, h.reads⟩

/-- **Stopping** drops the queued frames. -/
theorem valid_stopAcquisition (h : s.run.Valid) : s.stopAcquisition.run.Valid := by
  refine ⟨h.active, h.config, h.capacity, Or.inl ⟨?_, rfl, rfl, rfl, rfl⟩⟩
  rcases h.queue with hidle | ⟨slot, queued, hqueue⟩
  · refine ⟨hidle.placed.limit, ?_⟩
    rcases hidle.placed.positions with ⟨hlimit, -, htail⟩ | ⟨hhead, htail, -, hdvd⟩
    · exact Or.inl ⟨hlimit, rfl, htail⟩
    · exact Or.inr ⟨Nat.lt_of_le_of_lt (Nat.zero_le _) hhead, htail, Nat.dvd_zero _, hdvd⟩
  · have hplaced := h.placed hqueue
    refine ⟨hplaced.limit, ?_⟩
    rcases hplaced.positions with ⟨hlimit, -, htail⟩ | ⟨hhead, htail, -, hdvd⟩
    · exact Or.inl ⟨hlimit, rfl, htail⟩
    · exact Or.inr ⟨Nat.lt_of_le_of_lt (Nat.zero_le _) hhead, htail, Nat.dvd_zero _, hdvd⟩

theorem SessionSound.stopAcquisition (h : s.SessionSound) (hbound : s.bound = true) (stage : Stage)
    (hstage : s.stopAcquisition.StageSound stage) :
    SessionSound { s.stopAcquisition with stage := stage } :=
  ⟨fun hunbound => (nomatch hbound.symm.trans hunbound),
    fun _ => valid_stopAcquisition (h.run hbound), rfl, h.session_mem, h.active_mem,
      fun _ _ htag => absurd htag List.not_mem_nil, hstage, h.reader,
    h.reads⟩

/-- **The store** to `active_session` keeps the queue in the session. -/
theorem SessionSound.assign (h : s.SessionSound) (hbound : s.bound = true) {session : UInt32}
    {stage : Stage} (hheld : s.Held session) (hquiet : session = s.active_session ∨ s.Quiet)
    (hstage : Plain stage) :
    SessionSound { s with active_session := session, stage := stage } := by
  refine ⟨fun hunbound => (nomatch hbound.symm.trans hunbound), h.run, h.tags_length, h.session_mem,
    fun _ => hheld.1, fun heq tag htag => ?_, stageSound_plain hstage, ?_, h.reads⟩
  · rcases hquiet with hsame | ⟨hempty, -⟩
    · exact h.tags (hsame.symm.trans heq) tag htag
    · exact absurd (hempty ▸ htag) List.not_mem_nil
  · have hreader := h.reader
    dsimp only
    cases hcase : s.reader with
    | idle | connected _ => trivial
    | comparing capacity held steady =>
      rw [hcase] at hreader
      exact hreader
    | reading capacity held steady frames =>
      rw [hcase] at hreader
      exact ⟨hreader.1, fun hsteady => ⟨(hreader.2 hsteady).1, hheld.2 (hreader.2 hsteady).2⟩⟩

theorem count_exec_set (r : Run) (channel : UInt8) (p_address : Option ℕ) (type : UInt32) :
    (r.exec (.set channel p_address type)).scope.count = r.scope.count := by
  show (r.scope.set channel p_address type).1.count = _
  unfold Scope.set
  split <;> rfl

theorem count_exec_swap (r : Run) : (r.exec .swap).scope.count = r.scope.count := by
  show r.scope.swap.1.count = _
  unfold Scope.swap
  split <;> rfl

theorem count_exec_start (r : Run) : (r.exec .start).scope.count = r.scope.count := by
  unfold Run.exec Scope.start
  by_cases hbusy : r.scope.running = true ∨ r.scope.count ≠ 0 ∨ r.scope.p_active.enabled = 0
  · rw [if_pos hbusy]
    rfl
  · rw [if_neg hbusy]
    rfl

/-- `process` takes a first step. -/
theorem SessionSound.process (h : s.SessionSound) (hbound : s.bound = true)
    (answer : Answer) (i : ℕ)
    (request : Control) : SessionSound { (s.process answer request).1 with
      stage := .serving i request (s.process answer request).2 } := by
  have hrun := h.run hbound
  have hplain {part : Part} (hpart : Plain (.serving i request part)) :
      SessionSound { s with stage := .serving i request part } :=
    h.setRun hbound hrun rfl hpart
  unfold Service.process
  split
  · exact hplain trivial
  dsimp only
  split
  · exact hplain trivial
  · have hlink := h.relink answer.stopped.1 answer.stopped.2
    have hbound' : (s.relink answer.stopped.1 answer.stopped.2).bound = true := by
      unfold Service.relink
      split
      · exact hbound
      · split <;> exact hbound
    exact hlink.setStage hbound' (.serving i request .stop) trivial rfl
  · exact h.setRun hbound hrun.clear rfl trivial
  · split
    · exact hplain trivial
    · have hset : (s.setChannel request).1.Valid ∧
          (s.setChannel request).1.scope.count = s.run.scope.count := by
        unfold Service.setChannel
        dsimp only
        split
        · exact ⟨hrun, rfl⟩
        · split
          · exact ⟨hrun.set _ _ _, count_exec_set _ _ _ _⟩
          · exact ⟨hrun.set _ _ _, count_exec_set _ _ _ _⟩
      exact h.setRun hbound hset.1 hset.2 trivial
  · split
    · exact hplain trivial
    · exact h.setRun hbound hrun.swap (count_exec_swap _) trivial
  · split
    · exact hplain trivial
    split
    · exact hplain trivial
    split
    · exact hplain trivial
    · exact hplain trivial
  · exact hplain trivial
  · exact hplain trivial

theorem SessionSound.manage (h : s.SessionSound) (answer : Answer) :
    (s.manage answer).SessionSound := by
  have hstage := h.stage
  have hbusy (hne : s.stage ≠ .idle) : s.bound = true := h.bound_of_stage hne
  unfold Service.manage
  cases hcase : s.stage with
  | idle =>
    dsimp only
    split
    · exact h
    · next hbound =>
      rw [Bool.not_eq_false] at hbound
      exact h.setStage hbound (.asked s.session) ⟨h.session_mem, fun _ => rfl⟩ rfl
  | asked session =>
    have hbound := hbusy (by rw [hcase]; exact nofun)
    rw [hcase] at hstage
    dsimp only
    split
    · exact h.setStage hbound (.stopping session) hstage rfl
    · next hsame =>
      rw [not_or, not_not] at hsame
      exact h.setStage hbound (.assigning session) ⟨hstage, Or.inl hsame.2⟩ rfl
  | stopping session =>
    have hbound := hbusy (by rw [hcase]; exact nofun)
    rw [hcase] at hstage
    exact h.stopAcquisition hbound (.assigning session) ⟨hstage, Or.inr ⟨rfl, rfl⟩⟩
  | assigning session =>
    rw [hcase] at hstage
    exact h.assign (hbusy (by rw [hcase]; exact nofun)) hstage.1 hstage.2 trivial
  | looping i =>
    have hbound := hbusy (by rw [hcase]; exact nofun)
    dsimp only
    split
    · exact h.setStage hbound .idle trivial rfl
    · exact h.setStage hbound (.serving i (s.requests s.request_head) .begin) trivial rfl
  | serving i request part =>
    have hbound := hbusy (by rw [hcase]; exact nofun)
    rw [hcase] at hstage
    dsimp only
    unfold Service.serve
    cases part with
    | begin => exact h.process hbound answer i request
    | stop => exact h.stopAcquisition hbound (.serving i request .ask) ⟨rfl, rfl⟩
    | ask =>
      exact h.setStage hbound (.serving i request (.renew s.session))
        ⟨⟨h.session_mem, fun _ => rfl⟩, hstage⟩ rfl
    | renew session => exact h.assign hbound hstage.1 (Or.inr hstage.2) trivial
    | start frequency =>
      dsimp only
      split
      · exact h.setRun hbound (h.run hbound).start (count_exec_start _) trivial
      · exact h.setStage hbound (.serving i request (.send (finish request 3 []))) trivial rfl
    | send reply => exact h.setStage hbound (.looping (i + 1)) trivial rfl

/-! ## Samples and reads -/

theorem SessionSound.sample (h : s.SessionSound) (bus : Bus) : (s.sample bus).SessionSound := by
  unfold Service.sample
  split
  · exact h
  next hbound =>
  rw [Bool.not_eq_false] at hbound
  have hquiet (hq : s.Quiet) : Quiet { s with
      run := s.run.exec (.sample bus)
      tags :=
        if s.run.scope.running = true ∧ s.run.scope.count < s.run.scope.queue_frames then
          s.tags ++ [s.session]
        else s.tags } := by
    have hgo : ¬ (s.run.scope.running = true ∧ s.run.scope.count < s.run.scope.queue_frames) :=
      fun hgo => nomatch hq.2.symm.trans hgo.1
    refine ⟨?_, ?_⟩
    · dsimp only
      rw [if_neg hgo]
      exact hq.1
    · dsimp only
      rw [Run.exec_sample_idle bus hq.2]
      exact hq.2
  refine ⟨fun hunbound => (nomatch hbound.symm.trans hunbound),
    fun _ => (h.run hbound).sample bus, ?_, h.session_mem, h.active_mem, fun heq tag htag =>
      ?_, ?_, h.reader, h.reads⟩
  · dsimp only
    by_cases hgo : s.run.scope.running = true ∧ s.run.scope.count < s.run.scope.queue_frames
    · rw [if_pos hgo, (Run.exec_sample bus hgo.1 hgo.2).2, List.length_append,
        List.length_singleton, h.tags_length]
    · rw [if_neg hgo, h.tags_length]
      cases hrunning : s.run.scope.running with
      | false => rw [Run.exec_sample_idle bus hrunning]
      | true =>
        rw [Run.exec_sample_full bus hrunning (Nat.le_of_not_lt fun hlt => hgo ⟨hrunning, hlt⟩)]
  · dsimp only at htag
    split at htag
    · rcases List.mem_append.mp htag with htag | htag
      · exact h.tags heq tag htag
      · exact List.mem_singleton.mp htag
    · exact h.tags heq tag htag
  · have hstage := h.stage
    dsimp only
    cases hcase : s.stage with
    | idle | looping _ => trivial
    | asked held | stopping held =>
      rw [hcase] at hstage
      exact hstage
    | assigning held =>
      rw [hcase] at hstage
      exact ⟨hstage.1, hstage.2.imp_right hquiet⟩
    | serving i request part =>
      rw [hcase] at hstage
      cases part with
      | ask => exact hquiet hstage
      | renew held => exact ⟨hstage.1, hquiet hstage.2⟩
      | begin | stop | start _ | send _ => trivial

theorem length_readBytes_append (frames : List (Frame × UInt32)) {frame : Frame} (tag : UInt32)
    (h : frame.size = frame.data.length) :
    (readBytes (frames ++ [(frame, tag)])).length = (readBytes frames).length + frame.size := by
  unfold readBytes
  rw [List.flatMap_append, List.length_append]
  simp [h]

/-- The frames in the queue are frames of the bank. -/
theorem Run.Acquired.whole {r : Run} {slot : ℕ} {queued : List (List UInt8)}
    (h : r.Acquired slot queued) {frame : List UInt8} (hin : frame ∈ queued) :
    ∃ index bus, frame = r.bank.frame index bus := by
  have hsampled : frame ∈ r.sampled := by
    rw [h.sampled]
    exact List.mem_append_right _ hin
  unfold Run.sampled at hsampled
  obtain ⟨k, hk, hframe⟩ := List.mem_mapIdx.mp hsampled
  exact ⟨_, _, hframe.symm⟩

/-- A pop takes a complete frame of the size that the reader has compared with its room. -/
theorem pop_whole {r : Run} (h : r.Valid) {frame : Frame} (hpop : r.scope.pop.2 = some frame) :
    frame.Whole ∧ frame.size = r.scope.p_active.payload_size + 5 ∧
      (r.exec .pop).scope.count + 1 = r.scope.count := by
  have hcount : r.scope.count ≠ 0 := by
    intro hzero
    unfold Scope.pop at hpop
    rw [if_pos hzero] at hpop
    exact nomatch hpop
  rcases h.queue with hidle | ⟨slot, queued, hqueue⟩
  · exact absurd hidle.count hcount
  · obtain ⟨data, rest, rfl, hlength, hpop', hnext⟩ := hqueue.pop h hcount
    obtain rfl := Option.some.inj (hpop'.symm.trans hpop)
    obtain ⟨index, bus, hframe⟩ := Run.Acquired.whole hqueue List.mem_cons_self
    refine ⟨⟨rfl, r.bank, index, bus, hqueue.bank, hframe⟩, ?_, ?_⟩
    · dsimp only
      rw [hlength, hqueue.frame_size, hqueue.active (Or.inr hcount)]
    · rw [hnext.count, hqueue.count, List.length_cons]

theorem SessionSound.readEnd (h : s.SessionSound) {record : Read} (hrecord : record.Sound) :
    (s.readEnd record).SessionSound := by
  refine ⟨fun hbound => ?_, h.run, h.tags_length, h.session_mem, h.active_mem, h.tags, h.stage,
    trivial, fun record' hin => ?_⟩
  · exact ⟨(h.unbound hbound).1, (h.unbound hbound).2.1, rfl⟩
  · rcases List.mem_append.mp hin with hin | hin
    · exact h.reads record' hin
    · rw [List.mem_singleton.mp hin]
      exact hrecord

/-- The reader goes on. -/
theorem SessionSound.setReader (h : s.SessionSound) (hbound : s.bound = true) {reader : Reader}
    (hreader : s.ReaderSound reader) : SessionSound { s with reader := reader } :=
  ⟨fun hunbound => (nomatch hbound.symm.trans hunbound), h.run, h.tags_length, h.session_mem,
    h.active_mem, h.tags, h.stage, hreader, h.reads⟩

/-- The reader takes a frame. -/
theorem SessionSound.take (h : s.SessionSound) (hbound : s.bound = true) {reader : Reader}
    {frame : Frame} {tag : UInt32} {tags : List UInt32} (hpop : s.run.scope.pop.2 = some frame)
    (htags : s.tags = tag :: tags) (hreader : s.ReaderSound reader) :
    SessionSound { s with run := s.run.exec .pop, tags := tags, reader := reader } := by
  have hrun := h.run hbound
  obtain ⟨-, -, hcount⟩ := pop_whole hrun hpop
  have hlength := h.tags_length
  rw [htags, List.length_cons] at hlength
  refine ⟨fun hunbound => (nomatch hbound.symm.trans hunbound), fun _ => hrun.pop, ?_,
    h.session_mem, h.active_mem, fun heq u hu =>
      h.tags heq u (htags ▸ List.mem_cons_of_mem _ hu), ?_, hreader, h.reads⟩
  · dsimp only
    omega
  · have hstage := h.stage
    have hquiet (hq : s.Quiet) : False := nomatch htags.symm.trans hq.1
    dsimp only
    cases hcase : s.stage with
    | idle | looping _ => trivial
    | asked held | stopping held =>
      rw [hcase] at hstage
      exact hstage
    | assigning held =>
      rw [hcase] at hstage
      exact ⟨hstage.1, hstage.2.imp_right fun hq => (hquiet hq).elim⟩
    | serving i request part =>
      rw [hcase] at hstage
      cases part with
      | ask => exact (hquiet hstage).elim
      | renew held => exact (hquiet hstage.2).elim
      | begin | stop | start _ | send _ => trivial

theorem SessionSound.read (h : s.SessionSound) (p_data : Bool) (capacity : ℕ) :
    (s.read p_data capacity).SessionSound := by
  have hreader := h.reader
  have hbusy (hne : s.reader ≠ .idle) : s.bound = true := h.bound_of_reader hne
  unfold Service.read
  cases hcase : s.reader with
  | idle =>
    dsimp only
    split
    · exact h
    · next hgo =>
      rw [not_or, Bool.not_eq_false] at hgo
      exact h.setReader hgo.1 trivial
  | connected capacity =>
    exact h.setReader (hbusy (by rw [hcase]; exact nofun)) fun _ => rfl
  | comparing capacity session steady =>
    have hbound := hbusy (by rw [hcase]; exact nofun)
    rw [hcase] at hreader
    dsimp only
    split
    · exact h.setReader hbound trivial
    · next hsame =>
      rw [not_not] at hsame
      refine h.setReader hbound ⟨⟨fun _ hin => absurd hin List.not_mem_nil, Nat.zero_le _,
        fun _ _ hin => absurd hin List.not_mem_nil⟩, fun hsteady => ?_⟩
      exact ⟨hreader hsteady, hsame.symm.trans (hreader hsteady)⟩
  | reading capacity session steady frames =>
    have hbound := hbusy (by rw [hcase]; exact nofun)
    rw [hcase] at hreader
    obtain ⟨hrecord, hsteady⟩ := hreader
    dsimp only
    split
    · exact h.readEnd hrecord
    split
    · exact h.readEnd hrecord
    next hroom =>
    split
    · next frame tag tags hpop htags =>
      obtain ⟨hwhole, hsize, -⟩ := pop_whole (h.run hbound) hpop
      refine h.take hbound hpop htags ⟨⟨fun frame' hin => ?_, ?_, fun hst frame' hin => ?_⟩,
        hsteady⟩
      · rcases List.mem_append.mp hin with hin | hin
        · exact hrecord.whole frame' hin
        · rw [List.mem_singleton.mp hin]
          exact hwhole
      · have hbounded := hrecord.bounded
        dsimp only at hbounded ⊢
        rw [length_readBytes_append frames tag hwhole.1, hsize]
        omega
      · rcases List.mem_append.mp hin with hin | hin
        · exact hrecord.own hst frame' hin
        · rw [List.mem_singleton.mp hin]
          obtain ⟨hsession, hactive⟩ := hsteady hst
          exact (h.tags hactive tag (htags ▸ List.mem_cons_self)).trans hsession.symm
    · exact h.readEnd hrecord

/-! ## Every step -/

theorem SessionSound.bind (h : s.SessionSound) (p_port : Option Port)
    (p_queue : Option (Memory UInt8)) (capacity : ℕ) :
    (s.bind p_port p_queue capacity).SessionSound := by
  unfold Service.bind
  split
  · exact h
  split
  · exact h
  next hgo =>
  rw [not_or, Bool.not_eq_true] at hgo
  obtain ⟨htags, hstage, hreader⟩ := h.unbound hgo.1
  split
  · exact h
  next scope hinit =>
  have hrun : (Run.start scope).Valid := Run.valid_start hinit
  have hcount : (Run.start scope).scope.count = 0 := by
    rcases hrun.queue with hidle | ⟨slot, queued, hqueue⟩
    · exact hidle.count
    · have hsampled := hqueue.sampled
      have hnil : queued = [] := (List.append_eq_nil_iff.mp hsampled.symm).2
      rw [hqueue.count, hnil]
      rfl
  refine ⟨nofun, fun _ => hrun, ?_, h.session_mem, fun _ => h.session_mem,
    fun _ tag htag => ?_, ?_, ?_, h.reads⟩
  · dsimp only
    rw [htags, hcount]
    rfl
  · dsimp only at htag
    rw [htags] at htag
    exact absurd htag List.not_mem_nil
  · dsimp only
    rw [hstage]
    trivial
  · dsimp only
    rw [hreader]
    trivial

theorem SessionSound.controlRequest (h : s.SessionSound)
    (p_request : Option (Packet × Option (Memory UInt8))) (my_printf : ℕ) :
    (s.controlRequest p_request my_printf).SessionSound := by
  unfold Service.controlRequest
  split
  · split
    · exact h
    · dsimp only
      split
      · exact h.same rfl rfl rfl rfl rfl rfl rfl rfl rfl
      · exact h.same rfl rfl rfl rfl rfl rfl rfl rfl rfl
  · exact h

theorem SessionSound.refuse (h : s.SessionSound) : s.refuse.SessionSound := by
  unfold Service.refuse
  split
  · exact h
  · exact h.same rfl rfl rfl rfl rfl rfl rfl rfl rfl

/-- **Every step** keeps the frames in their session. -/
theorem SessionSound.exec (h : s.SessionSound) (event : Event) : (s.exec event).SessionSound := by
  cases event with
  | bind p_port p_queue capacity => exact h.bind p_port p_queue capacity
  | request p_request my_printf => exact h.controlRequest p_request my_printf
  | refuse => exact h.refuse
  | manage answer => exact h.manage answer
  | sample bus => exact h.sample bus
  | read p_data capacity => exact h.read p_data capacity
  | link connected session => exact h.relink connected session

end Service
end Atoman.RealtimeScope
