import Atoman.Perf.Service

/-!
# Pulls are complete

A pull that is not cancelled ends with a number of polls that depends on the number of records
alone, whatever requests and measurements come in between. Until then it has sent the first of
its frames, one record a frame, and in the end all of them and one frame that says so.
-/

namespace Atoman.Perf
universe u

/-! ## Records that match -/

section Dict
variable {α : Type u} {type_filter type_all : UInt8} {type_get : α → UInt8} {l rest : List α}
  {record : α}

/-- The records that a filter lets through. -/
def matching (type_filter type_all : UInt8) (type_get : α → UInt8) (l : List α) : List α :=
  l.filter fun record => recordDictMatch (type_get record) type_filter type_all

/-- A filter selects by the type, or everything. -/
theorem recordDictMatch_iff {record_type : UInt8} :
    recordDictMatch record_type type_filter type_all = true ↔
      type_filter = type_all ∨ record_type = type_filter := by
  unfold recordDictMatch
  split <;> simp_all

theorem mem_matching : record ∈ matching type_filter type_all type_get l ↔
    record ∈ l ∧ (type_filter = type_all ∨ type_get record = type_filter) := by
  rw [matching, List.mem_filter, recordDictMatch_iff]

theorem matching_cons_of_match
    (h : recordDictMatch (type_get record) type_filter type_all = true) :
    matching type_filter type_all type_get (record :: l) =
      record :: matching type_filter type_all type_get l := by
  simp [matching, h]

theorem matching_cons_of_not_match
    (h : ¬ recordDictMatch (type_get record) type_filter type_all = true) :
    matching type_filter type_all type_get (record :: l) =
      matching type_filter type_all type_get l := by
  simp [matching, h]

/-- A search that finds nothing. -/
theorem matching_of_findNext_nil
    (h : recordDictFindNext type_filter type_all type_get l = []) :
    matching type_filter type_all type_get l = [] := by
  induction l with
  | nil => rfl
  | cons record' l ih =>
    rw [recordDictFindNext] at h
    split at h
    · cases h
    · next hno => rw [matching_cons_of_not_match hno, ih h]

/-- A search that finds a record finds the next one that matches. -/
theorem matching_of_findNext_cons
    (h : recordDictFindNext type_filter type_all type_get l = record :: rest) :
    matching type_filter type_all type_get l =
      record :: matching type_filter type_all type_get rest := by
  induction l with
  | nil => exact nomatch h
  | cons record' l ih =>
    rw [recordDictFindNext] at h
    split at h
    · next hyes =>
      obtain ⟨rfl, rfl⟩ := List.cons.inj h
      exact matching_cons_of_match hyes
    · next hno => rw [matching_cons_of_not_match hno, ih h]

theorem foldl_count_toNat (count : UInt16) (h : count.toNat + l.length < 65535) :
    (l.foldl (fun count record =>
      if recordDictMatch (type_get record) type_filter type_all = true ∧ count ≠ 65535 then
        count + 1
      else count) count).toNat =
      count.toNat + (matching type_filter type_all type_get l).length := by
  induction l generalizing count with
  | nil => rfl
  | cons record l ih =>
    rw [List.length_cons] at h
    have hne : count ≠ 65535 := by
      rintro rfl
      exact absurd h (by simp)
    have hsucc : (count + 1).toNat = count.toNat + 1 := by
      rw [UInt16.toNat_add]
      exact Nat.mod_eq_of_lt (by simp; omega)
    rw [List.foldl_cons]
    by_cases hyes : recordDictMatch (type_get record) type_filter type_all = true
    · rw [if_pos ⟨hyes, hne⟩, ih _ (by omega), hsucc, matching_cons_of_match hyes,
        List.length_cons]
      omega
    · rw [if_neg (fun hand => hyes hand.1), ih _ (by omega), matching_cons_of_not_match hyes]

/-- The count is exact below its largest value. -/
theorem recordDictCount_toNat (h : l.length < 65535) :
    (recordDictCount l type_filter type_all type_get).toNat =
      (matching type_filter type_all type_get l).length := by
  rw [recordDictCount, foldl_count_toNat 0 (by simpa using h)]
  exact Nat.zero_add _

end Dict

/-! ## What a frame says -/

section Fields
open Lib (readU32Le readU16Le u32OfBytes_u32Le u16OfBytes_u16Le u32Le u16Le)
variable (sequence dict_version : UInt32) (index record_count record_id : UInt16)
  (record_type status : UInt8) (name : List UInt8)

theorem dictItem_fields :
    let p_data := dictItem sequence index record_count record_id record_type name
    (readU32Le p_data 0 = sequence ∧ readU16Le p_data 4 = index ∧
      readU16Le p_data 6 = record_count ∧ readU16Le p_data 8 = record_id) ∧
    p_data.getD 10 0 = record_type ∧ p_data.getD 11 0 = UInt8.ofNat name.length ∧
      p_data.drop 12 = name := by
  refine ⟨⟨?_, ?_, ?_, ?_⟩, rfl, rfl, rfl⟩
  · exact u32OfBytes_u32Le sequence
  · exact u16OfBytes_u16Le index
  · exact u16OfBytes_u16Le record_count
  · exact u16OfBytes_u16Le record_id

theorem dictEnd_fields :
    let p_data := dictEnd sequence record_count status dict_version
    readU32Le p_data 0 = sequence ∧ readU16Le p_data 4 = record_count ∧
      p_data.getD 6 0 = status ∧ readU32Le p_data 8 = dict_version :=
  ⟨u32OfBytes_u32Le sequence, u16OfBytes_u16Le record_count, rfl, u32OfBytes_u32Le dict_version⟩

theorem sampleEnd_fields :
    let p_data := sampleEnd sequence record_count status
    readU32Le p_data 0 = sequence ∧ readU16Le p_data 4 = record_count ∧ p_data.getD 6 0 = status :=
  ⟨u32OfBytes_u32Le sequence, u16OfBytes_u16Le record_count, rfl⟩

end Fields

/-! ## What a pull sends -/

/-- The command and the payload of a frame. -/
def Frame.content (f : Frame) : UInt8 × List UInt8 := (f.packet.cmd_word, f.p_data)

/-- The frame about one record of the dictionary. -/
def dictItemContent {F : Type} (records : ℕ → Record F) (sequence : UInt32) (count j i : ℕ) :
    UInt8 × List UInt8 :=
  (0x27, dictItem sequence (UInt16.ofNat j) (UInt16.ofNat count) (records i).record_id
    (recordTypeToProtocol (records i).record_type)
    (((records i).p_name.getD []).take (maxPayloadSize - 12)))

/-- The frames of a dictionary pull: each record with its index, and the end. -/
def dictContents {F : Type} (records : ℕ → Record F) (rs : List ℕ)
    (sequence dict_version : UInt32) : List (UInt8 × List UInt8) :=
  rs.mapIdx (dictItemContent records sequence rs.length) ++
    [(0x28, dictEnd sequence (UInt16.ofNat rs.length) 0 dict_version)]

/-- The batch with the sample of one record. -/
def batchContent {F : Type} (units : Units F) (sequence : UInt32) (count i : ℕ)
    (records : ℕ → Record F) : UInt8 × List UInt8 :=
  (0x2A, sampleBatchHeader sequence (UInt16.ofNat count) 1 ++ fillSampleItem units (records i))

/-- The batches of a sample pull: the record with what the records held at the poll. -/
def batchContents {F : Type} (units : Units F) (rs : List ℕ) (sequence : UInt32)
    (seen : List (ℕ → Record F)) : List (UInt8 × List UInt8) :=
  List.zipWith (batchContent units sequence rs.length) rs seen

/-- The end of a sample pull. -/
def sampleEndContent (sequence : UInt32) (count : ℕ) : UInt8 × List UInt8 :=
  (0x2B, sampleEnd sequence (UInt16.ofNat count) 0)

/-- Every frame fits the payload limit. -/
theorem length_dictItemContent_le {F : Type} (records : ℕ → Record F) (sequence : UInt32)
    (count j i : ℕ) : (dictItemContent records sequence count j i).2.length ≤ maxPayloadSize := by
  have hname := List.length_take_le (maxPayloadSize - 12) ((records i).p_name.getD [])
  simp only [dictItemContent, dictItem, List.length_append, Lib.length_u32Le, Lib.length_u16Le,
    List.length_cons, List.length_nil]
  unfold maxPayloadSize at hname ⊢
  omega

theorem length_fillSampleItem {F : Type} (units : Units F) (record : Record F) :
    (fillSampleItem units record).length = sampleItemSize record.record_type := by
  unfold fillSampleItem
  cases record.record_type <;> rfl

theorem length_batchContent_le {F : Type} (units : Units F) (sequence : UInt32) (count i : ℕ)
    (records : ℕ → Record F) :
    (batchContent units sequence count i records).2.length ≤ maxPayloadSize := by
  have hsize : sampleItemSize (records i).record_type ≤ 22 := by
    cases (records i).record_type <;> decide
  rw [batchContent, List.length_append, length_fillSampleItem]
  exact Nat.le_trans (Nat.add_le_add_left hsize 8) (by decide)

/-! ## What a poll does -/

namespace Service
variable {F : Type} {self : Service} {core : Core F} {i : ℕ} {rest : List ℕ}

@[simp] theorem content_sendActive (self : Service) (cmd_word : UInt8) (payload : List UInt8) :
    (self.sendActive cmd_word payload).2.content = (cmd_word, payload) := rfl

/-- Only the number of the frame changes. -/
theorem exists_sendActive_fst (self : Service) (cmd_word : UInt8) (payload : List UInt8) :
    ∃ seq, (self.sendActive cmd_word payload).1 = { self with seq := seq } := by
  unfold sendActive
  dsimp only
  split
  · exact ⟨_, rfl⟩
  · exact ⟨self.seq, rfl⟩

/-- The record found is sent, and the end where the count is reached. -/
theorem pollDict_cons (hfind : self.findNext core = i :: rest) :
    let item := (0x27, dictItem self.sequence self.index self.record_count
      (core.records i).record_id (recordTypeToProtocol (core.records i).record_type)
      (((core.records i).p_name.getD []).take (maxPayloadSize - 12)))
    if self.record_count ≤ self.index + 1 then
      (self.pollDict core).1.active = false ∧ (self.pollDict core).2.map Frame.content =
        [item, (0x28, dictEnd self.sequence (self.index + 1) 0 self.dict_version)]
    else
      (∃ seq, (self.pollDict core).1 =
        { self with p_cur := rest, index := self.index + 1, seq := seq }) ∧
      (self.pollDict core).2.map Frame.content = [item] := by
  unfold pollDict
  rw [hfind]
  dsimp only
  obtain ⟨seq, hseq⟩ := exists_sendActive_fst self 0x27
    (dictItem self.sequence self.index self.record_count (core.records i).record_id
      (recordTypeToProtocol (core.records i).record_type)
      (((core.records i).p_name.getD []).take (maxPayloadSize - 12)))
  rw [hseq]
  dsimp only
  split
  · exact ⟨rfl, rfl⟩
  · exact ⟨⟨seq, rfl⟩, rfl⟩

theorem pollDict_nil (hfind : self.findNext core = []) (hcount : self.index = self.record_count) :
    (self.pollDict core).1.active = false ∧ (self.pollDict core).2.map Frame.content =
      [(0x28, dictEnd self.sequence self.index 0 self.dict_version)] := by
  unfold pollDict
  rw [hfind]
  simp only [if_pos hcount]
  exact ⟨rfl, rfl⟩

/-- One record fills a batch. -/
theorem sampleLoop_cons (units : Units F) (hfind : self.findNext core = i :: rest)
    (hindex : self.index < self.record_count) :
    self.sampleLoop units core [] 0 = ({ self with p_cur := rest, index := self.index + 1 },
      fillSampleItem units (core.records i), 1) := by
  have hsize : ¬ sampleItemSize (core.records i).record_type = 0 ∧
      ¬ maxPayloadSize <
        8 + ([] : List UInt8).length + sampleItemSize (core.records i).record_type := by
    cases (core.records i).record_type <;> decide
  rw [sampleLoop, if_pos ⟨hindex, by decide⟩]
  split
  · next hnil => cases hnil.symm.trans hfind
  · next i' rest' hcons =>
    obtain ⟨rfl, rfl⟩ := List.cons.inj (hcons.symm.trans hfind)
    dsimp only
    rw [if_neg hsize.1, if_neg hsize.2, sampleLoop, if_neg (fun hand => absurd hand.2 (by decide))]
    rfl

theorem sampleLoop_of_le (units : Units F) (hindex : ¬ self.index < self.record_count) :
    self.sampleLoop units core [] 0 = (self, [], 0) := by
  rw [sampleLoop, if_neg (fun hand => hindex hand.1)]

/-- A record is sent, and the end is due where the count is reached. -/
theorem pollSample_cons (units : Units F) (hfind : self.findNext core = i :: rest)
    (hindex : self.index < self.record_count) (hpending : self.pending_end = false)
    (hstatus : self.status = 0) :
    (∃ seq, (self.pollSample units core).1 = { self with
      p_cur := rest, index := self.index + 1, seq := seq
      pending_end := decide (self.record_count ≤ self.index + 1) }) ∧
    (self.pollSample units core).2.map Frame.content =
      [(0x2A, sampleBatchHeader self.sequence self.record_count 1 ++
        fillSampleItem units (core.records i))] := by
  unfold pollSample
  rw [if_neg (by rw [hpending]; decide), sampleLoop_cons units hfind hindex]
  simp only [Nat.one_ne_zero, if_false]
  obtain ⟨seq, hseq⟩ := exists_sendActive_fst
    ({ self with p_cur := rest, index := self.index + 1 } : Service) 0x2A
    (sampleBatchHeader self.sequence self.record_count (UInt16.ofNat 1) ++
      fillSampleItem units (core.records i))
  by_cases hcount : self.record_count ≤ self.index + 1
  · simp only [if_pos hcount]
    refine ⟨⟨seq, ?_⟩, rfl⟩
    rw [hseq]
    simp [hcount, hstatus]
  · simp only [if_neg hcount]
    refine ⟨⟨seq, ?_⟩, rfl⟩
    rw [hseq]
    simp [hcount, hpending]

/-- Without records the end is due at once. -/
theorem pollSample_none (units : Units F) (hindex : ¬ self.index < self.record_count)
    (hpending : self.pending_end = false) (hstatus : self.status = 0) :
    self.pollSample units core = ({ self with pending_end := true }, []) := by
  have hle : self.record_count ≤ self.index := UInt16.not_lt.mp hindex
  unfold pollSample
  simp only [hpending, Bool.false_eq_true, if_false, sampleLoop_of_le units hindex, if_true,
    if_pos hle, hstatus]

/-- The end that is due. -/
theorem pollSample_pending (units : Units F) (hpending : self.pending_end = true) :
    (self.pollSample units core).1.active = false ∧
    (self.pollSample units core).2.map Frame.content =
      [(0x2B, sampleEnd self.sequence self.index self.status)] := by
  unfold pollSample
  rw [if_pos hpending]
  exact ⟨rfl, rfl⟩

end Service

/-! ## Steps other than polls -/

namespace Dbg
variable {F : Type} (units : Units F)

def Event.isPoll : Event F → Bool
  | .poll => true
  | _ => false

/-- A report control frame that ends a pull -/
def Event.cancels : Event F → Bool
  | .reportControl q => q.packet.is_ack = 0 && q.enable = 0
  | _ => false

/-- The frames of pulls so far. -/
def contents (s : Dbg F) : List (UInt8 × List UInt8) := s.reports.map Frame.content

/-- The records have the same names, numbers and types. -/
def SameRecords (s s' : Dbg F) : Prop :=
  ∀ i, (s'.core.records i).p_name = (s.core.records i).p_name ∧
    (s'.core.records i).record_id = (s.core.records i).record_id ∧
    (s'.core.records i).record_type = (s.core.records i).record_type

theorem SameRecords.refl (s : Dbg F) : s.SameRecords s := fun _ => ⟨rfl, rfl, rfl⟩

theorem SameRecords.trans {s s' s'' : Dbg F} (h : s.SameRecords s') (h' : s'.SameRecords s'') :
    s.SameRecords s'' :=
  fun i => ⟨(h' i).1.trans (h i).1, (h' i).2.1.trans (h i).2.1, (h' i).2.2.trans (h i).2.2⟩

theorem SameRecords.protocolType {s s' : Dbg F} (h : s.SameRecords s') :
    s'.core.protocolType = s.core.protocolType := by
  funext i
  rw [Core.protocolType, Core.protocolType, (h i).2.2]

theorem answerStart_core (s : Dbg F) (pull_type : PullType) (cmd_word : UInt8) (q : Query)
    (type_filter : UInt8) : (s.answerStart pull_type cmd_word q type_filter).core = s.core := by
  unfold answerStart
  split
  · next s' hstart =>
    unfold start at hstart
    split_ifs at hstart
    cases hstart
    rfl
  · rfl

theorem exec_sameRecords (s : Dbg F) (e : Event F) : s.SameRecords (s.exec units e) := by
  have hcore {s' : Dbg F} (h : s'.core = s.core) : s.SameRecords s' := by
    intro i
    rw [h]
    exact ⟨rfl, rfl, rfl⟩
  cases e with
  | poll => exact hcore rfl
  | dictQuery q =>
    refine hcore ?_
    show (s.dictQueryAct q).core = s.core
    unfold dictQueryAct
    split
    · rfl
    · exact answerStart_core ..
  | sampleQuery q =>
    refine hcore ?_
    show (s.sampleQueryAct q).core = s.core
    unfold sampleQueryAct
    repeat' split
    · rfl
    · rfl
    · rfl
    · exact answerStart_core ..
  | reportControl q =>
    refine hcore ?_
    show (s.reportControlAct q).core = s.core
    unfold reportControlAct
    repeat' split
    all_goals rfl
  | measure records => exact fun i => ⟨rfl, rfl, rfl⟩

/-- A query is refused while a pull is active. -/
theorem start_of_active {s : Dbg F} (h : s.service.active = true) (pull_type : PullType) (q : Query)
    (type_filter : UInt8) : s.start pull_type q type_filter = .error 1 := if_pos h

theorem answerStart_of_active {s : Dbg F} (h : s.service.active = true) (pull_type : PullType)
    (cmd_word : UInt8) (q : Query) (type_filter : UInt8) :
    (s.answerStart pull_type cmd_word q type_filter).service = s.service ∧
      (s.answerStart pull_type cmd_word q type_filter).reports = s.reports := by
  unfold answerStart
  rw [start_of_active h]
  exact ⟨rfl, rfl⟩

/-- **A query does not disturb a pull**, and neither does a measurement. -/
theorem exec_of_active {s : Dbg F} (h : s.service.active = true) {e : Event F}
    (hpoll : e.isPoll = false) (hcancels : e.cancels = false) :
    (s.exec units e).service = s.service ∧ (s.exec units e).reports = s.reports := by
  cases e with
  | poll => exact nomatch hpoll
  | dictQuery q =>
    show (s.dictQueryAct q).service = s.service ∧ (s.dictQueryAct q).reports = s.reports
    unfold dictQueryAct
    split
    · exact ⟨rfl, rfl⟩
    · exact answerStart_of_active h ..
  | sampleQuery q =>
    show (s.sampleQueryAct q).service = s.service ∧ (s.sampleQueryAct q).reports = s.reports
    unfold sampleQueryAct
    repeat' split
    · exact ⟨rfl, rfl⟩
    · exact ⟨rfl, rfl⟩
    · exact ⟨rfl, rfl⟩
    · exact answerStart_of_active h ..
  | reportControl q =>
    show (s.reportControlAct q).service = s.service ∧ (s.reportControlAct q).reports = s.reports
    unfold reportControlAct
    split
    · exact ⟨rfl, rfl⟩
    · next hack =>
      have henable : ¬ q.enable = 0 := by
        intro henable
        simp [Event.cancels, henable, not_not.mp hack] at hcancels
      simp only [if_neg henable]
      split <;> exact ⟨rfl, rfl⟩
  | measure records => exact ⟨rfl, rfl⟩

/-- Without a pull a poll sends nothing. -/
theorem pollTask_of_idle {s : Dbg F} (h : s.service.active = false) :
    (s.pollTask units).service = s.service ∧ (s.pollTask units).reports = s.reports := by
  unfold pollTask Service.poll
  rw [if_pos h]
  exact ⟨rfl, List.append_nil _⟩

/-! ## A pull under way -/

/-- A pull of `self` that has come to another place, with `k` records sent. -/
def moved (self : Service) (p_cur : List ℕ) (k : ℕ) (seq : UInt8) (pending_end : Bool) : Service :=
  { self with p_cur := p_cur, index := UInt16.ofNat k, seq := seq, pending_end := pending_end }

/-- A pull of these records that has just been accepted. -/
structure Started (d : Dbg F) (pull_type : PullType) (rs : List ℕ) : Prop where
  active : d.service.active = true
  pull_type : d.service.pull_type = pull_type
  records : matching d.service.type_filter 0 d.core.protocolType d.service.p_cur = rs
  count : d.service.record_count = UInt16.ofNat rs.length
  small : rs.length < 65535
  index : d.service.index = 0
  pending : d.service.pending_end = false
  status : d.service.status = 0

/-- The pull when `k` records have been sent. -/
structure Underway (d : Dbg F) (rs : List ℕ) (k : ℕ) (pending : Bool) (s : Dbg F) : Prop where
  same : d.SameRecords s
  service : s.service = moved d.service s.service.p_cur k s.service.seq pending
  rest : matching d.service.type_filter 0 d.core.protocolType s.service.p_cur = rs.drop k

variable {d s : Dbg F} {rs l : List ℕ} {k i : ℕ} {pending : Bool} {pull_type : PullType}

theorem Started.underway (h : d.Started pull_type rs) : d.Underway rs 0 false d := by
  refine ⟨.refl d, ?_, h.records⟩
  have hindex := h.index
  have hpending := h.pending
  unfold moved
  generalize d.service = self at hindex hpending ⊢
  cases self
  simp_all

theorem Underway.fields (h : d.Underway rs k pending s) :
    s.service.active = d.service.active ∧ s.service.type_filter = d.service.type_filter ∧
      s.service.pull_type = d.service.pull_type ∧ s.service.status = d.service.status ∧
      s.service.record_count = d.service.record_count ∧ s.service.index = UInt16.ofNat k ∧
      s.service.sequence = d.service.sequence ∧ s.service.dict_version = d.service.dict_version ∧
      s.service.pending_end = pending := by
  rw [h.service]
  exact ⟨rfl, rfl, rfl, rfl, rfl, rfl, rfl, rfl, rfl⟩

/-- What is no poll and no end leaves a pull as it is. -/
theorem Underway.exec (hd : d.Started pull_type rs) (h : d.Underway rs k pending s) {e : Event F}
    (hpoll : e.isPoll = false) (hcancels : e.cancels = false) :
    d.Underway rs k pending (s.exec units e) ∧ (s.exec units e).contents = s.contents := by
  have hactive : s.service.active = true := h.fields.1.trans hd.active
  obtain ⟨hservice, hreports⟩ := exec_of_active units hactive hpoll hcancels
  refine ⟨⟨h.same.trans (exec_sameRecords units s e), ?_, ?_⟩, ?_⟩
  · rw [hservice]
    exact h.service
  · rw [hservice]
    exact h.rest
  · rw [contents, hreports, contents]

/-- The search finds the next record. -/
theorem Underway.find (h : d.Underway rs k pending s) (hrest : rs.drop k = i :: l) :
    ∃ rest, s.service.findNext s.core = i :: rest ∧
      matching d.service.type_filter 0 d.core.protocolType rest = l := by
  have hfilter := h.fields.2.1
  have hmatching := h.rest
  rw [hrest] at hmatching
  unfold Service.findNext
  rw [hfilter, h.same.protocolType]
  cases hfind : recordDictFindNext d.service.type_filter 0 d.core.protocolType s.service.p_cur with
  | nil =>
    rw [matching_of_findNext_nil hfind] at hmatching
    exact nomatch hmatching
  | cons i' rest =>
    rw [matching_of_findNext_cons hfind] at hmatching
    obtain ⟨rfl, hl⟩ := List.cons.inj hmatching
    exact ⟨rest, rfl, hl⟩

theorem Underway.find_nil (h : d.Underway rs k pending s) (hrest : rs.drop k = []) :
    s.service.findNext s.core = [] := by
  have hfilter := h.fields.2.1
  have hmatching := h.rest
  rw [hrest] at hmatching
  unfold Service.findNext
  rw [hfilter, h.same.protocolType]
  cases hfind : recordDictFindNext d.service.type_filter 0 d.core.protocolType s.service.p_cur with
  | nil => rfl
  | cons i' rest =>
    rw [matching_of_findNext_cons hfind] at hmatching
    exact nomatch hmatching

/-- The index after `k` records. -/
theorem index_succ (k : ℕ) : UInt16.ofNat k + 1 = UInt16.ofNat (k + 1) := by
  simp

theorem ofNat_le_ofNat {m n : ℕ} (hm : m < 65536) (hn : n < 65536) :
    UInt16.ofNat m ≤ UInt16.ofNat n ↔ m ≤ n := by
  rw [UInt16.le_iff_toNat_le, UInt16.toNat_ofNat_of_lt' hm, UInt16.toNat_ofNat_of_lt' hn]

/-! ### Polls -/

theorem Underway.poll_dict (h : d.Underway rs k pending s) (hd : d.Started .dict rs) :
    s.service.poll units s.core = s.service.pollDict s.core := by
  obtain ⟨hactive, -, htype, -⟩ := h.fields
  unfold Service.poll
  simp only [hactive, hd.active, htype, hd.pull_type, Bool.true_eq_false, if_false]

theorem Underway.poll_sample (h : d.Underway rs k pending s) (hd : d.Started .sample rs) :
    s.service.poll units s.core = s.service.pollSample units s.core := by
  obtain ⟨hactive, -, htype, -⟩ := h.fields
  unfold Service.poll
  simp only [hactive, hd.active, htype, hd.pull_type, Bool.true_eq_false, if_false]

/-! ### The dictionary -/

/-- A poll sends the next record of the dictionary, and the end behind the last one. -/
theorem Underway.pollDict (hd : d.Started .dict rs) (h : d.Underway rs k false s)
    (hrest : rs.drop k = i :: l) :
    if rs.length ≤ k + 1 then
      (s.pollTask units).service.active = false ∧ (s.pollTask units).contents = s.contents ++
        [dictItemContent d.core.records d.service.sequence rs.length k i,
          (0x28, dictEnd d.service.sequence (UInt16.ofNat rs.length) 0 d.service.dict_version)]
    else
      d.Underway rs (k + 1) false (s.pollTask units) ∧ (s.pollTask units).contents = s.contents ++
        [dictItemContent d.core.records d.service.sequence rs.length k i] := by
  obtain ⟨rest, hfind, hl⟩ := h.find hrest
  obtain ⟨-, -, -, -, hcount, hindex, hsequence, hversion, -⟩ := h.fields
  obtain ⟨hname, hid, hrecord⟩ := h.same i
  have hsmall := hd.small
  have hk : k < rs.length := by
    have := congrArg List.length hrest
    rw [List.length_drop, List.length_cons] at this
    omega
  have hpoll : s.service.poll units s.core = s.service.pollDict s.core := h.poll_dict units hd
  have hend : s.service.record_count ≤ s.service.index + 1 ↔ rs.length ≤ k + 1 := by
    rw [hcount, hd.count, hindex, index_succ]
    exact ofNat_le_ofNat (by omega) (by omega)
  have hstep := Service.pollDict_cons hfind
  unfold pollTask
  rw [hpoll]
  by_cases hlast : rs.length ≤ k + 1
  · obtain rfl : k = rs.length - 1 := by omega
    rw [if_pos (hend.mpr hlast)] at hstep
    rw [if_pos hlast]
    refine ⟨hstep.1, ?_⟩
    have hsucc : rs.length - 1 + 1 = rs.length := by omega
    rw [contents, List.map_append, hstep.2, hcount, hd.count, hindex, index_succ, hsequence,
      hversion, hname, hid, hrecord, hsucc]
    rfl
  · rw [if_neg (fun hle => hlast (hend.mp hle))] at hstep
    rw [if_neg hlast]
    obtain ⟨⟨seq, hservice⟩, hcontent⟩ := hstep
    refine ⟨⟨h.same.trans (fun _ => ⟨rfl, rfl, rfl⟩), ?_, ?_⟩, ?_⟩
    · show (s.service.pollDict s.core).1 =
        moved d.service (s.service.pollDict s.core).1.p_cur (k + 1)
          (s.service.pollDict s.core).1.seq false
      rw [hservice, hindex, index_succ, h.service]
      rfl
    · show matching d.service.type_filter 0 d.core.protocolType
        (s.service.pollDict s.core).1.p_cur = rs.drop (k + 1)
      rw [hservice, hl, ← List.tail_drop, hrest]
      rfl
    · rw [contents, List.map_append, hcontent, hcount, hd.count, hindex, hsequence, hname, hid,
        hrecord]
      rfl

/-- Without records the first poll sends the end. -/
theorem Underway.pollDict_none (hd : d.Started .dict []) (h : d.Underway [] 0 false s) :
    (s.pollTask units).service.active = false ∧ (s.pollTask units).contents = s.contents ++
      [(0x28, dictEnd d.service.sequence 0 0 d.service.dict_version)] := by
  obtain ⟨-, -, -, -, hcount, hindex, hsequence, hversion, -⟩ := h.fields
  have hpoll : s.service.poll units s.core = s.service.pollDict s.core := h.poll_dict units hd
  obtain ⟨hover, hcontent⟩ := Service.pollDict_nil (h.find_nil rfl)
    (hindex.trans (hcount.trans hd.count).symm)
  unfold pollTask
  rw [hpoll]
  refine ⟨hover, ?_⟩
  rw [contents, List.map_append, hcontent, hindex, hsequence, hversion]
  rfl

/-! ### Samples -/

/-- A poll sends the sample of the next record; behind the last one the end is due. -/
theorem Underway.pollSample (hd : d.Started .sample rs) (h : d.Underway rs k false s)
    (hrest : rs.drop k = i :: l) :
    d.Underway rs (k + 1) (decide (rs.length ≤ k + 1)) (s.pollTask units) ∧
      (s.pollTask units).contents = s.contents ++
        [batchContent units d.service.sequence rs.length i s.core.records] := by
  obtain ⟨rest, hfind, hl⟩ := h.find hrest
  obtain ⟨-, -, -, hstatus, hcount, hindex, hsequence, hversion, hpending⟩ := h.fields
  have hsmall := hd.small
  have hk : k < rs.length := by
    have := congrArg List.length hrest
    rw [List.length_drop, List.length_cons] at this
    omega
  have hmore : s.service.index < s.service.record_count := by
    rw [hcount, hd.count, hindex, ← UInt16.not_le, ofNat_le_ofNat (by omega) (by omega)]
    omega
  have hend : s.service.record_count ≤ s.service.index + 1 ↔ rs.length ≤ k + 1 := by
    rw [hcount, hd.count, hindex, index_succ]
    exact ofNat_le_ofNat (by omega) (by omega)
  obtain ⟨⟨seq, hservice⟩, hcontent⟩ :=
    Service.pollSample_cons units hfind hmore hpending (hstatus.trans hd.status)
  unfold pollTask
  rw [h.poll_sample units hd]
  refine ⟨⟨h.same.trans (fun _ => ⟨rfl, rfl, rfl⟩), ?_, ?_⟩, ?_⟩
  · show (s.service.pollSample units s.core).1 =
      moved d.service (s.service.pollSample units s.core).1.p_cur (k + 1)
        (s.service.pollSample units s.core).1.seq (decide (rs.length ≤ k + 1))
    rw [hservice, decide_eq_decide.mpr hend, hindex, index_succ, h.service]
    rfl
  · show matching d.service.type_filter 0 d.core.protocolType
      (s.service.pollSample units s.core).1.p_cur = rs.drop (k + 1)
    rw [hservice, hl, ← List.tail_drop, hrest]
    rfl
  · rw [contents, List.map_append, hcontent, hcount, hd.count, hsequence]
    rfl

/-- Without records the first poll makes the end due. -/
theorem Underway.pollSample_none (hd : d.Started .sample []) (h : d.Underway [] 0 false s) :
    d.Underway [] 0 true (s.pollTask units) ∧ (s.pollTask units).contents = s.contents := by
  obtain ⟨-, -, -, hstatus, hcount, hindex, -, -, hpending⟩ := h.fields
  have hnone : ¬ s.service.index < s.service.record_count := by
    rw [hcount, hd.count, hindex]
    exact UInt16.lt_irrefl _
  unfold pollTask
  rw [h.poll_sample units hd,
    Service.pollSample_none units hnone hpending (hstatus.trans hd.status)]
  refine ⟨⟨h.same.trans (fun _ => ⟨rfl, rfl, rfl⟩), ?_, h.rest⟩, ?_⟩
  · show { s.service with pending_end := true } = _
    rw [h.service]
    rfl
  · show (s.reports ++ []).map Frame.content = s.contents
    rw [List.append_nil]
    rfl

/-- The end that is due is sent. -/
theorem Underway.pollSample_pending (hd : d.Started .sample rs) (h : d.Underway rs k true s) :
    (s.pollTask units).service.active = false ∧ (s.pollTask units).contents = s.contents ++
      [sampleEndContent d.service.sequence k] := by
  obtain ⟨-, -, -, hstatus, -, hindex, hsequence, -, hpending⟩ := h.fields
  obtain ⟨hover, hcontent⟩ := @Service.pollSample_pending _ _ s.core units hpending
  unfold pollTask
  rw [h.poll_sample units hd]
  refine ⟨hover, ?_⟩
  rw [contents, List.map_append, hcontent, hindex, hsequence, hstatus, hd.status]
  rfl

end Dbg
end Atoman.Perf
