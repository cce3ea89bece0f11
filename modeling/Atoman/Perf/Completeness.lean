import Atoman.Lib.CountedSteps
import Atoman.Perf.Pull

/-!
# Runs of pulls

Polls, requests and measurements in any order after a query that has been accepted. The run is
watched: what the records hold at each poll is kept, for it is what the poll sends.
-/

namespace Atoman.Perf
open Lib (countdown)

namespace Dbg
variable {F : Type} (units : Units F) {d s : Dbg F} {rs : List ℕ} {k : ℕ}

/-- The service, and what the records held at each poll so far. -/
structure Watch (F : Type) where
  dbg : Dbg F
  seen : List (ℕ → Record F)

def Watch.exec (units : Units F) (w : Watch F) (e : Event F) : Watch F where
  dbg := w.dbg.exec units e
  seen := if e.isPoll = true then w.seen ++ [w.dbg.core.records] else w.seen

/-- A run, watched from its first step on. -/
def watch (units : Units F) (s : Dbg F) (es : List (Event F)) : Watch F :=
  es.foldl (Watch.exec units) ⟨s, []⟩

theorem watch_dbg (units : Units F) (s : Dbg F) (es : List (Event F)) :
    (s.watch units es).dbg = es.foldl (exec units) s := by
  suffices h : ∀ w : Watch F, (es.foldl (Watch.exec units) w).dbg = es.foldl (exec units) w.dbg from
    h ⟨s, []⟩
  induction es with
  | nil => exact fun _ => rfl
  | cons e es ih => exact fun w => ih (w.exec units e)

theorem eq_poll {e : Event F} (h : e.isPoll = true) : e = .poll := by
  cases e with
  | poll => rfl
  | _ => exact nomatch h

/-! ## The dictionary -/

/-- `k` records of the dictionary have been sent. -/
structure DictStage (d : Dbg F) (rs : List ℕ) (k : ℕ) (w : Watch F) : Prop where
  underway : d.Underway rs k false w.dbg
  contents : w.dbg.contents = d.contents ++
    (dictContents d.core.records rs d.service.sequence d.service.dict_version).take k

/-- All frames of the dictionary have been sent. -/
structure DictOver (d : Dbg F) (rs : List ℕ) (w : Watch F) : Prop where
  idle : w.dbg.service.active = false
  contents : w.dbg.contents = d.contents ++
    dictContents d.core.records rs d.service.sequence d.service.dict_version

theorem dictContents_take_succ (records : ℕ → Record F) (sequence dict_version : UInt32) {i : ℕ}
    {l : List ℕ} (hrest : rs.drop k = i :: l) :
    (dictContents records rs sequence dict_version).take (k + 1) =
      (dictContents records rs sequence dict_version).take k ++
        [dictItemContent records sequence rs.length k i] := by
  have hk : k < rs.length := by
    have := congrArg List.length hrest
    rw [List.length_drop, List.length_cons] at this
    omega
  have hget : rs[k] = i := by
    rw [List.drop_eq_getElem_cons hk] at hrest
    exact (List.cons.inj hrest).1
  have hlen : k < (dictContents records rs sequence dict_version).length := by
    simp [dictContents]
    omega
  rw [List.take_succ_eq_append_getElem hlen]
  simp [dictContents, List.getElem_append_left, hk, hget]

/-- Behind the last record stands the end. -/
theorem dictContents_of_last (records : ℕ → Record F) (sequence dict_version : UInt32) {i : ℕ}
    {l : List ℕ} (hrest : rs.drop k = i :: l) (hlast : rs.length = k + 1) :
    dictContents records rs sequence dict_version =
      (dictContents records rs sequence dict_version).take k ++
        [dictItemContent records sequence rs.length k i,
          (0x28, dictEnd sequence (UInt16.ofNat rs.length) 0 dict_version)] := by
  have hend : (dictContents records rs sequence dict_version).drop (k + 1) =
      [(0x28, dictEnd sequence (UInt16.ofNat rs.length) 0 dict_version)] := by
    rw [dictContents, List.drop_append_of_le_length (by simp [hlast]), List.drop_of_length_le]
    · rfl
    · simp [hlast]
  calc dictContents records rs sequence dict_version
      = (dictContents records rs sequence dict_version).take (k + 1) ++
          (dictContents records rs sequence dict_version).drop (k + 1) :=
        (List.take_append_drop ..).symm
    _ = _ := by rw [dictContents_take_succ _ _ _ hrest, hend, List.append_assoc]; rfl

theorem dict_countdown (hd : d.Started .dict rs) (es : List (Event F))
    (hes : ∀ e ∈ es, e.cancels = false) :
    (es.countP Event.isPoll < max rs.length 1 →
      DictStage d rs (es.countP Event.isPoll) (d.watch units es)) ∧
    (max rs.length 1 ≤ es.countP Event.isPoll → ∃ es₁ es₂, es = es₁ ++ es₂ ∧
      es₁.countP Event.isPoll = max rs.length 1 ∧ DictOver d rs (d.watch units es₁)) := by
  have hstart : DictStage d rs 0 ⟨d, []⟩ := ⟨hd.underway, (List.append_nil _).symm⟩
  have hrun := @countdown _ _ (Watch.exec units) Event.isPoll (fun e => e.cancels = false)
    (DictStage d rs) (DictOver d rs) (max rs.length 1) ?_ ?_ ?_ es hes 0 ⟨d, []⟩ hstart (by omega)
  · simp only [Nat.zero_add] at hrun
    exact hrun
  · intro k w e hw hok hother
    obtain ⟨hunderway, hcontents⟩ := hw.underway.exec units hd hother hok
    exact ⟨hunderway, hcontents.trans hw.contents⟩
  · intro k w e hw _ hpoll hmore
    obtain ⟨i, l, hrest⟩ : ∃ i l, rs.drop k = i :: l :=
      List.exists_cons_of_ne_nil (by simp; omega)
    have hstep := hw.underway.pollDict units hd hrest
    rw [if_neg (by omega)] at hstep
    obtain rfl : e = .poll := eq_poll hpoll
    refine ⟨hstep.1, ?_⟩
    rw [dictContents_take_succ _ _ _ hrest, ← List.append_assoc, ← hw.contents]
    exact hstep.2
  · intro k w e hw _ hpoll hlast
    obtain rfl : e = .poll := eq_poll hpoll
    cases hrest : rs.drop k with
    | nil =>
      have hnone : rs.length ≤ k := List.drop_eq_nil_iff.mp hrest
      obtain ⟨rfl, hlen⟩ : k = 0 ∧ rs.length = 0 := by omega
      obtain rfl := List.length_eq_zero_iff.mp hlen
      obtain ⟨hidle, hcontents⟩ := hw.underway.pollDict_none units hd
      refine ⟨hidle, hcontents.trans ?_⟩
      rw [hw.contents, List.take_zero, List.append_nil]
      rfl
    | cons i l =>
      have hk : rs.length = k + 1 := by
        have := congrArg List.length hrest
        rw [List.length_drop, List.length_cons] at this
        omega
      have hstep := hw.underway.pollDict units hd hrest
      rw [if_pos (by omega)] at hstep
      refine ⟨hstep.1, ?_⟩
      rw [dictContents_of_last _ _ _ hrest hk, ← List.append_assoc, ← hw.contents]
      exact hstep.2

/-! ## Samples -/

/-- `k` polls have sent the samples of the first records, as far as there are any. -/
structure SampleStage (d : Dbg F) (units : Units F) (rs : List ℕ) (k : ℕ) (w : Watch F) :
    Prop where
  underway : d.Underway rs (min k rs.length) (decide (max rs.length 1 ≤ k)) w.dbg
  seen : w.seen.length = k
  contents : w.dbg.contents = d.contents ++ batchContents units rs d.service.sequence w.seen

/-- All samples and the end have been sent. -/
structure SampleOver (d : Dbg F) (units : Units F) (rs : List ℕ) (w : Watch F) : Prop where
  idle : w.dbg.service.active = false
  seen : w.seen.length = max rs.length 1 + 1
  contents : w.dbg.contents = d.contents ++ batchContents units rs d.service.sequence w.seen ++
    [sampleEndContent d.service.sequence rs.length]

/-- One more poll, and one more batch. -/
theorem batchContents_concat (units : Units F) (sequence : UInt32) {i : ℕ} {l : List ℕ}
    {seen : List (ℕ → Record F)} (records : ℕ → Record F) (hseen : seen.length = k)
    (hrest : rs.drop k = i :: l) :
    batchContents units rs sequence (seen ++ [records]) =
      batchContents units rs sequence seen ++
        [batchContent units sequence rs.length i records] := by
  unfold batchContents
  generalize batchContent units sequence rs.length = f
  induction k generalizing rs seen with
  | zero =>
    obtain rfl := List.length_eq_zero_iff.mp hseen
    rw [List.drop_zero] at hrest
    subst hrest
    simp
  | succ k ih =>
    cases seen with
    | nil => exact nomatch hseen
    | cons records' seen =>
      cases rs with
      | nil => exact nomatch hrest
      | cons i' rs =>
        rw [List.cons_append, List.zipWith_cons_cons, List.zipWith_cons_cons, List.cons_append,
          ih (Nat.succ.inj hseen) hrest]

/-- Behind the last record a poll sends no batch. -/
theorem batchContents_concat_of_le (units : Units F) (sequence : UInt32)
    {seen : List (ℕ → Record F)} (records : ℕ → Record F) (hseen : rs.length ≤ seen.length) :
    batchContents units rs sequence (seen ++ [records]) = batchContents units rs sequence seen := by
  unfold batchContents
  generalize batchContent units sequence rs.length = f
  induction rs generalizing seen with
  | nil => rw [List.zipWith_nil_left, List.zipWith_nil_left]
  | cons i rs ih =>
    cases seen with
    | nil => exact absurd hseen (by simp)
    | cons records' seen =>
      rw [List.cons_append, List.zipWith_cons_cons, List.zipWith_cons_cons,
        ih (Nat.le_of_succ_le_succ hseen)]

theorem sample_countdown (hd : d.Started .sample rs) (es : List (Event F))
    (hes : ∀ e ∈ es, e.cancels = false) :
    (es.countP Event.isPoll < max rs.length 1 + 1 →
      SampleStage d units rs (es.countP Event.isPoll) (d.watch units es)) ∧
    (max rs.length 1 + 1 ≤ es.countP Event.isPoll → ∃ es₁ es₂, es = es₁ ++ es₂ ∧
      es₁.countP Event.isPoll = max rs.length 1 + 1 ∧
        SampleOver d units rs (d.watch units es₁)) := by
  have hstart : SampleStage d units rs 0 ⟨d, []⟩ := by
    refine ⟨?_, rfl, ?_⟩
    · rw [Nat.zero_min, decide_eq_false (by omega)]
      exact hd.underway
    · rw [batchContents, List.zipWith_nil_right, List.append_nil]
  have hrun := @countdown _ _ (Watch.exec units) Event.isPoll (fun e => e.cancels = false)
    (SampleStage d units rs) (SampleOver d units rs) (max rs.length 1 + 1) ?_ ?_ ?_ es hes 0 ⟨d, []⟩
    hstart (by omega)
  · simp only [Nat.zero_add] at hrun
    exact hrun
  · intro k w e hw hok hother
    obtain ⟨hunderway, hcontents⟩ := hw.underway.exec units hd hother hok
    have hseen : (w.exec units e).seen = w.seen := if_neg (by rw [hother]; decide)
    exact ⟨hunderway, hseen ▸ hw.seen, hcontents.trans (hseen ▸ hw.contents)⟩
  · intro k w e hw _ hpoll hmore
    obtain rfl : e = .poll := eq_poll hpoll
    have hseen : (w.exec units .poll).seen = w.seen ++ [w.dbg.core.records] := rfl
    have hlen : (w.exec units .poll).seen.length = k + 1 := by
      rw [hseen, List.length_append, hw.seen]
      rfl
    have hbefore := hw.underway
    rw [decide_eq_false (show ¬ max rs.length 1 ≤ k by omega)] at hbefore
    cases hrest : rs.drop k with
    | nil =>
      have hnone : rs.length ≤ k := List.drop_eq_nil_iff.mp hrest
      obtain ⟨rfl, hzero⟩ : k = 0 ∧ rs.length = 0 := by omega
      obtain rfl := List.length_eq_zero_iff.mp hzero
      obtain ⟨hunderway, hcontents⟩ := hbefore.pollSample_none units hd
      refine ⟨hunderway, hlen, hcontents.trans ?_⟩
      rw [hw.contents, hseen]
      rfl
    | cons i l =>
      have hk : k < rs.length := by
        have := congrArg List.length hrest
        rw [List.length_drop, List.length_cons] at this
        omega
      rw [Nat.min_eq_left (by omega)] at hbefore
      obtain ⟨hunderway, hcontents⟩ := hbefore.pollSample units hd hrest
      refine ⟨?_, hlen, ?_⟩
      · have hpending : decide (rs.length ≤ k + 1) = decide (max rs.length 1 ≤ k + 1) :=
          decide_eq_decide.mpr (by omega)
        rw [Nat.min_eq_left (by omega), ← hpending]
        exact hunderway
      · rw [hseen, batchContents_concat units _ _ hw.seen hrest, ← List.append_assoc, ← hw.contents]
        exact hcontents
  · intro k w e hw _ hpoll hlast
    obtain rfl : e = .poll := eq_poll hpoll
    have hseen : (w.exec units .poll).seen = w.seen ++ [w.dbg.core.records] := rfl
    have hbefore := hw.underway
    rw [decide_eq_true (show max rs.length 1 ≤ k by omega), Nat.min_eq_right (by omega)] at hbefore
    obtain ⟨hidle, hcontents⟩ := hbefore.pollSample_pending units hd
    refine ⟨hidle, ?_, ?_⟩
    · rw [hseen, List.length_append, hw.seen]
      exact hlast
    · rw [hseen, batchContents_concat_of_le units _ _ (by rw [hw.seen]; omega), ← hw.contents]
      exact hcontents

/-! ## Accepted queries -/

/-- The records that a query asks for. -/
def matching (s : Dbg F) (type_filter : UInt8) : List ℕ :=
  Perf.matching type_filter 0 s.core.protocolType s.p_perf_first

/-- What an accepted query starts. -/
structure Accepted (s d : Dbg F) (pull_type : PullType) (type_filter : UInt8) : Prop where
  started : d.Started pull_type (s.matching type_filter)
  core : d.core = s.core
  dict_version : d.service.dict_version = s.dict_version
  contents : d.contents = s.contents

theorem answerStart_accepted {pull_type : PullType} {cmd_word : UInt8} {q : Query}
    {type_filter : UInt8} (hlist : s.p_perf_first.length < 65535) (hidle : s.service.active = false)
    (haccepted : (s.answerStart pull_type cmd_word q type_filter).service.active = true) :
    s.Accepted (s.answerStart pull_type cmd_word q type_filter) pull_type type_filter := by
  have hcount : (recordDictCount s.p_perf_first type_filter 0 s.core.protocolType).toNat =
      (s.matching type_filter).length := recordDictCount_toNat hlist
  have hlen : (s.matching type_filter).length < 65535 :=
    Nat.lt_of_le_of_lt (List.length_filter_le _ _) hlist
  unfold answerStart at haccepted ⊢
  cases hstart : s.start pull_type q type_filter with
  | error reject_reason =>
    rw [hstart] at haccepted
    exact nomatch hidle.symm.trans haccepted
  | ok s' =>
    unfold start at hstart
    split_ifs at hstart
    obtain rfl := Except.ok.inj hstart
    refine ⟨⟨rfl, rfl, rfl, ?_, hlen, rfl, rfl, rfl⟩, rfl, rfl, rfl⟩
    refine UInt16.toNat_inj.mp ?_
    rw [UInt16.toNat_ofNat_of_lt' (Nat.lt_trans hlen (by decide))]
    exact hcount

theorem dictQueryAct_accepted {q : Query} (hlist : s.p_perf_first.length < 65535)
    (hidle : s.service.active = false) (haccepted : (s.dictQueryAct q).service.active = true) :
    s.Accepted (s.dictQueryAct q) .dict q.typeFilter := by
  unfold dictQueryAct at haccepted ⊢
  split at haccepted
  · exact nomatch hidle.symm.trans haccepted
  · next hack =>
    rw [if_neg hack]
    exact answerStart_accepted hlist hidle haccepted

theorem sampleQueryAct_accepted {q : Query} (hlist : s.p_perf_first.length < 65535)
    (hidle : s.service.active = false) (haccepted : (s.sampleQueryAct q).service.active = true) :
    s.Accepted (s.sampleQueryAct q) .sample q.typeFilter := by
  unfold sampleQueryAct at haccepted ⊢
  split_ifs at haccepted ⊢
  · exact nomatch hidle.symm.trans haccepted
  · exact nomatch hidle.symm.trans haccepted
  · exact nomatch hidle.symm.trans haccepted
  · exact answerStart_accepted hlist hidle haccepted

/-! ## Completeness -/

/-- The frames that a dictionary query is owed: each matching record once, in the order of the
list and with its index, and the end, all under the sequence number of the pull. -/
def dictFrames (s : Dbg F) (q : Query) : List (UInt8 × List UInt8) :=
  dictContents s.core.records (s.matching q.typeFilter) (s.dictQueryAct q).service.sequence
    s.dict_version

/-- The batches that a sample query is owed: each matching record once, in the order of the list,
with what it held at its poll. -/
def sampleFrames (units : Units F) (s : Dbg F) (q : Query) (seen : List (ℕ → Record F)) :
    List (UInt8 × List UInt8) :=
  batchContents units (s.matching q.typeFilter) (s.sampleQueryAct q).service.sequence seen

/-- A run after an accepted dictionary query: with too few polls it has sent the first frames,
one a poll, and the pull is active; with enough polls the pull was over at some point, with all
frames sent. -/
structure DictComplete (units : Units F) (s : Dbg F) (q : Query) (es : List (Event F)) : Prop where
  before : es.countP Event.isPoll < max (s.matching q.typeFilter).length 1 →
    (es.foldl (exec units) (s.dictQueryAct q)).service.active = true ∧
    (es.foldl (exec units) (s.dictQueryAct q)).contents =
      s.contents ++ (s.dictFrames q).take (es.countP Event.isPoll)
  after : max (s.matching q.typeFilter).length 1 ≤ es.countP Event.isPoll →
    ∃ es₁ es₂, es = es₁ ++ es₂ ∧
      es₁.countP Event.isPoll = max (s.matching q.typeFilter).length 1 ∧
      (es₁.foldl (exec units) (s.dictQueryAct q)).service.active = false ∧
      (es₁.foldl (exec units) (s.dictQueryAct q)).contents = s.contents ++ s.dictFrames q
  fits : ∀ frame ∈ s.dictFrames q, frame.2.length ≤ maxPayloadSize

/-- A run after an accepted sample query, in the same way; the end takes a poll of its own. -/
structure SampleComplete (units : Units F) (s : Dbg F) (q : Query) (es : List (Event F)) :
    Prop where
  before : es.countP Event.isPoll < max (s.matching q.typeFilter).length 1 + 1 →
    ((s.sampleQueryAct q).watch units es).dbg.service.active = true ∧
    ((s.sampleQueryAct q).watch units es).dbg.contents =
      s.contents ++ sampleFrames units s q ((s.sampleQueryAct q).watch units es).seen
  after : max (s.matching q.typeFilter).length 1 + 1 ≤ es.countP Event.isPoll →
    ∃ es₁ es₂, es = es₁ ++ es₂ ∧
      es₁.countP Event.isPoll = max (s.matching q.typeFilter).length 1 + 1 ∧
      ((s.sampleQueryAct q).watch units es₁).dbg.service.active = false ∧
      (sampleFrames units s q ((s.sampleQueryAct q).watch units es₁).seen).length =
        (s.matching q.typeFilter).length ∧
      ((s.sampleQueryAct q).watch units es₁).dbg.contents =
        s.contents ++ sampleFrames units s q ((s.sampleQueryAct q).watch units es₁).seen ++
          [sampleEndContent (s.sampleQueryAct q).service.sequence (s.matching q.typeFilter).length]
  fits : ∀ seen, ∀ frame ∈ sampleFrames units s q seen, frame.2.length ≤ maxPayloadSize

theorem dictComplete {q : Query} {es : List (Event F)} (hlist : s.p_perf_first.length < 65535)
    (hidle : s.service.active = false) (hes : ∀ e ∈ es, e.cancels = false)
    (haccepted : (s.dictQueryAct q).service.active = true) : DictComplete units s q es := by
  have h := dictQueryAct_accepted hlist hidle haccepted
  have hframes : dictContents (s.dictQueryAct q).core.records (s.matching q.typeFilter)
      (s.dictQueryAct q).service.sequence (s.dictQueryAct q).service.dict_version =
        s.dictFrames q := by
    rw [h.core, h.dict_version]
    rfl
  obtain ⟨hbefore, hafter⟩ := dict_countdown units h.started es hes
  refine ⟨fun hfew => ?_, fun henough => ?_, fun frame hframe => ?_⟩
  · have hstage := hbefore hfew
    rw [← watch_dbg]
    refine ⟨hstage.underway.fields.1.trans h.started.active, ?_⟩
    rw [hstage.contents, h.contents, hframes]
  · obtain ⟨es₁, es₂, hes, hpolls, hover⟩ := hafter henough
    refine ⟨es₁, es₂, hes, hpolls, ?_, ?_⟩
    · rw [← watch_dbg]
      exact hover.idle
    · rw [← watch_dbg, hover.contents, h.contents, hframes]
  · rw [dictFrames, dictContents, List.mem_append, List.mem_mapIdx, List.mem_singleton] at hframe
    rcases hframe with ⟨j, hj, rfl⟩ | rfl
    · exact length_dictItemContent_le ..
    · show 12 ≤ 160
      decide

theorem sampleComplete {q : Query} {es : List (Event F)} (hlist : s.p_perf_first.length < 65535)
    (hidle : s.service.active = false) (hes : ∀ e ∈ es, e.cancels = false)
    (haccepted : (s.sampleQueryAct q).service.active = true) : SampleComplete units s q es := by
  have h := sampleQueryAct_accepted hlist hidle haccepted
  obtain ⟨hbefore, hafter⟩ := sample_countdown units h.started es hes
  refine ⟨fun hfew => ?_, fun henough => ?_, fun seen frame hframe => ?_⟩
  · have hstage := hbefore hfew
    refine ⟨hstage.underway.fields.1.trans h.started.active, ?_⟩
    rw [hstage.contents, h.contents]
    rfl
  · obtain ⟨es₁, es₂, hes, hpolls, hover⟩ := hafter henough
    refine ⟨es₁, es₂, hes, hpolls, hover.idle, ?_, ?_⟩
    · rw [sampleFrames, batchContents, List.length_zipWith, hover.seen]
      omega
    · rw [hover.contents, h.contents]
      rfl
  · rw [sampleFrames, batchContents, ← List.map_uncurry_zip_eq_zipWith] at hframe
    obtain ⟨⟨i, records⟩, -, rfl⟩ := List.mem_map.mp hframe
    exact length_batchContent_le ..

/-- **Pulls are complete.** After every query that an idle service accepts, and with queries and
measurements between the polls, an uncancelled pull of either kind sends its frames one a poll and
is over after a number of polls; a query that finds a pull active changes nothing about it, and
without a pull a poll sends nothing. -/
theorem pulls_complete (units : Units F) {s : Dbg F} {q : Query} {es : List (Event F)}
    (hlist : s.p_perf_first.length < 65535) (hidle : s.service.active = false)
    (hes : ∀ e ∈ es, e.cancels = false) :
    ((s.dictQueryAct q).service.active = true → DictComplete units s q es) ∧
    ((s.sampleQueryAct q).service.active = true → SampleComplete units s q es) ∧
    (∀ (s' : Dbg F) (e : Event F), s'.service.active = true → e.isPoll = false →
      e.cancels = false →
      (s'.exec units e).service = s'.service ∧ (s'.exec units e).reports = s'.reports) ∧
    (∀ s' : Dbg F, s'.service.active = false →
      (s'.exec units .poll).service = s'.service ∧ (s'.exec units .poll).reports = s'.reports) :=
  ⟨dictComplete units hlist hidle hes, sampleComplete units hlist hidle hes,
    fun _ _ hactive hpoll hcancels => exec_of_active units hactive hpoll hcancels,
    fun _ => pollTask_of_idle units⟩

/-! ### A service with two records -/

def demoRecord (record_id : UInt16) (record_type : RecordType) : Record Unit :=
  ⟨none, 0, 0, 0, 0, 0, 0, 0, 0, (), (), record_id, record_type, false, false, true⟩

/-- A task and an interrupt. -/
def demo : Dbg Unit where
  core := ⟨fun i => if i = 0 then demoRecord 1 .task else demoRecord 2 .interrupt, some 0, none, 0⟩
  p_perf_first := [0, 1]
  service := ⟨false, 0, 0, .idle, 0, 0, 0, 1, [], false, none, 0, 0, 0, 0, 0, 0, 0⟩
  opt_sequence := 0
  dict_version := 1
  reports := []
  answers := []

def demoUnits : Units Unit := ⟨id, fun _ => 0⟩

/-- All records, in version 1 of the dictionary. -/
def demoQuery (cmd_word : UInt8) : Query :=
  ⟨⟨0xE8, 0, 1, 0, 2, 0, 1, cmd_word, 0, 8, 0, 0, 0⟩, fun n => if n = 4 then 1 else 0,
    some ⟨0, true⟩⟩

theorem pulls_complete_demo :
    DictComplete demoUnits demo (demoQuery 0x26) [.poll, .sampleQuery (demoQuery 0x29), .poll] ∧
    SampleComplete demoUnits demo (demoQuery 0x29)
      [.poll, .dictQuery (demoQuery 0x26), .poll, .poll] := by
  have hlist : demo.p_perf_first.length < 65535 := by decide
  refine ⟨(pulls_complete demoUnits hlist rfl ?_).1 (by decide),
    (pulls_complete demoUnits hlist rfl ?_).2.1 (by decide)⟩
  · simp [Event.cancels]
  · simp [Event.cancels]

end Dbg
end Atoman.Perf
