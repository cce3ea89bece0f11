import Atoman.Comm.Network
import Atoman.Lib.LittleEndian
import Atoman.Perf.Core

/-!
# The pull service

A query starts a pull of the record dictionary or of samples, and a task polls it: each poll
sends a few frames. The list of records is a list of addresses; what the records hold is
looked up in the core at each poll. The text reports are left out, and so are the handlers
that do not touch the service.
-/

namespace Atoman.Perf
open Comm (Packet)
open Lib (Memory u16Le u32Le)
universe u

/-! ## Record dictionaries -/

section Dict
variable {α : Type u}

/-- `record_dict_filter_is_valid` -/
def recordDictFilterIsValid (type_filter type_max : UInt8) : Bool := type_filter ≤ type_max

/-- `record_dict_match` -/
def recordDictMatch (record_type type_filter type_all : UInt8) : Bool :=
  if type_filter = type_all then true else record_type = type_filter

/-- `record_dict_count` -/
def recordDictCount (first : List α) (type_filter type_all : UInt8) (type_get : α → UInt8) :
    UInt16 :=
  first.foldl (fun count record =>
    if recordDictMatch (type_get record) type_filter type_all = true ∧ count ≠ 65535 then count + 1
    else count) 0

/-- `record_dict_find_next`: the list from the record found -/
def recordDictFindNext (type_filter type_all : UInt8) (type_get : α → UInt8) : List α → List α
  | [] => []
  | record :: rest =>
    if recordDictMatch (type_get record) type_filter type_all = true then record :: rest
    else recordDictFindNext type_filter type_all type_get rest

theorem length_recordDictFindNext_le (type_filter type_all : UInt8) (type_get : α → UInt8)
    (l : List α) : (recordDictFindNext type_filter type_all type_get l).length ≤ l.length := by
  induction l with
  | nil => exact Nat.le_refl 0
  | cons record rest ih =>
    rw [recordDictFindNext]
    split
    · exact Nat.le_refl _
    · exact Nat.le_succ_of_le ih

end Dict

/-! ## Frames -/

/-- Where a frame goes; some links send by DMA. -/
structure Link where
  id : ℕ
  tx_by_dma : Bool
deriving DecidableEq

/-- What `comm_send_data` gets. -/
structure Frame where
  packet : Packet
  p_data : List UInt8
  my_printf : Option Link
deriving DecidableEq

/-- A request: the header, the buffer that the payload is in, and the link. -/
structure Query where
  packet : Packet
  p_data : Memory UInt8
  my_printf : Option Link

/-- The type filter of a query; one that is too short has none. -/
def Query.typeFilter (q : Query) : UInt8 := if 8 ≤ q.packet.len then q.p_data 0 else 0xFF

/-- The dictionary version of a sample query -/
def Query.dictVersion (q : Query) : UInt32 :=
  if 8 ≤ q.packet.len then Lib.readU32Le (q.p_data.slice 0 8) 4 else 0

/-- The flag of a report control frame -/
def Query.enable (q : Query) : UInt8 := if 1 ≤ q.packet.len then q.p_data 0 else 0

/-- The results that the service takes from the measuring core: counts in microseconds, and a
load in percent as the bits of a `float`. -/
structure Units (F : Type) where
  count_to_us : UInt32 → UInt32
  percent : F → UInt32

/-- `PERF_OPT_MAX_PAYLOAD_SIZE` -/
def maxPayloadSize : ℕ := 160

/-- `PERF_OPT_MAX_SAMPLE_ITEMS_PER_POLL` -/
def maxSampleItemsPerPoll : ℕ := 1

/-- `perf_opt_record_type_to_protocol` -/
def recordTypeToProtocol : RecordType → UInt8
  | .task => 1
  | .interrupt => 2
  | .code => 3

/-- `perf_dict_item_header_t` with the name behind it -/
def dictItem (sequence : UInt32) (index record_count record_id : UInt16) (record_type : UInt8)
    (name : List UInt8) : List UInt8 :=
  u32Le sequence ++ u16Le index ++ u16Le record_count ++ u16Le record_id ++
    [record_type, UInt8.ofNat name.length] ++ name

/-- `perf_dict_end_t` -/
def dictEnd (sequence : UInt32) (record_count : UInt16) (status : UInt8) (dict_version : UInt32) :
    List UInt8 :=
  u32Le sequence ++ u16Le record_count ++ [status, 0] ++ u32Le dict_version

/-- `perf_sample_batch_header_t` -/
def sampleBatchHeader (sequence : UInt32) (record_count item_count : UInt16) : List UInt8 :=
  u32Le sequence ++ u16Le record_count ++ u16Le item_count

/-- `perf_sample_end_t` -/
def sampleEnd (sequence : UInt32) (record_count : UInt16) (status : UInt8) : List UInt8 :=
  u32Le sequence ++ u16Le record_count ++ [status, 0]

/-- `perf_dict_ack_t` and `perf_sample_ack_t` -/
def queryAck (accepted : Bool) (type_filter : UInt8) (record_count : UInt16)
    (sequence dict_version : UInt32) (reject_reason : UInt8) : List UInt8 :=
  [if accepted then 1 else 0, type_filter] ++ u16Le record_count ++ u32Le sequence ++
    u32Le dict_version ++ [reject_reason, 0, 0, 0]

/-- `perf_opt_sample_item_size` -/
def sampleItemSize : RecordType → ℕ
  | .task => 22
  | .interrupt => 18
  | .code => 10

/-- `perf_opt_fill_sample_item`; `perf_core_task_period_us_get` gives the period -/
def fillSampleItem {F : Type} (units : Units F) (record : Record F) : List UInt8 :=
  let times := u16Le record.record_id ++ u32Le (units.count_to_us record.time) ++
    u32Le (units.count_to_us record.max_time)
  let loads := u32Le (units.percent record.load) ++ u32Le (units.percent record.load_max)
  match record.record_type with
  | .task => times ++ u32Le record.period_us ++ loads
  | .interrupt => times ++ loads
  | .code => times

/-! ## The service -/

/-- `perf_opt_pull_type_t` -/
inductive PullType
  | idle | dict | sample
deriving DecidableEq

/-- `perf_opt_service_t`, without the buffer, which is filled anew for each frame -/
structure Service where
  active : Bool
  type_filter : UInt8
  status : UInt8
  pull_type : PullType
  record_count : UInt16
  index : UInt16
  sequence : UInt32
  dict_version : UInt32
  p_cur : List ℕ
  pending_end : Bool
  my_printf : Option Link
  sop : UInt8
  version : UInt8
  seq : UInt8
  src : UInt8
  d_src : UInt8
  dst : UInt8
  d_dst : UInt8
deriving DecidableEq

/-- The core, the records in the list, `s_perf_opt_service`, `s_perf_opt_sequence`, the version
of the dictionary, and what has been sent: frames of pulls, and answers to requests. -/
structure Dbg (F : Type) where
  core : Core F
  p_perf_first : List ℕ
  service : Service
  opt_sequence : UInt32
  dict_version : UInt32
  reports : List Frame
  answers : List Frame

/-- `perf_opt_record_protocol_type_get` -/
def Core.protocolType {F : Type} (core : Core F) (record : ℕ) : UInt8 :=
  recordTypeToProtocol (core.records record).record_type

namespace Service

/-- `perf_opt_send_active`: a v1 session counts its frames. -/
def sendActive (self : Service) (cmd_word : UInt8) (payload : List UInt8) : Service × Frame :=
  let self' := if self.sop = 0xE9 then { self with seq := (self.seq + 1) &&& 7 } else self
  (self',
    { packet :=
        { sop := if self.sop = 0xE9 then 0xE9 else 0xE8
          version := if self.sop = 0xE9 then self.version else 0
          src := self.src, d_src := self.d_src, dst := self.dst, d_dst := self.d_dst
          cmd_set := 1, cmd_word := cmd_word, is_ack := 0
          len := UInt16.ofNat payload.length
          crc := 0, eop := 0
          seq := if self.sop = 0xE9 then self'.seq else 0 }
      p_data := payload
      my_printf := self.my_printf })

/-- The service when a pull is over. -/
def idle (self : Service) : Service := { self with active := false, pull_type := .idle }

/-- `perf_opt_find_next` -/
def findNext {F : Type} (self : Service) (core : Core F) : List ℕ :=
  recordDictFindNext self.type_filter 0 core.protocolType self.p_cur

/-- `perf_opt_send_dict_end`, and the pull is over -/
def endDict (self : Service) (status : UInt8) : Service × List Frame :=
  let sent := self.sendActive 0x28 (dictEnd self.sequence self.index status self.dict_version)
  (sent.1.idle, [sent.2])

/-- `perf_opt_send_sample_end`, and the pull is over -/
def endSample (self : Service) (status : UInt8) : Service × List Frame :=
  let sent := self.sendActive 0x2B (sampleEnd self.sequence self.index status)
  (sent.1.idle, [sent.2])

/-- `perf_opt_poll_dict` -/
def pollDict {F : Type} (core : Core F) (self : Service) : Service × List Frame :=
  match self.findNext core with
  | [] => self.endDict (if self.index = self.record_count then 0 else 3)
  | i :: rest =>
    let record := core.records i
    -- the name is cut where the frame ends
    let name := (record.p_name.getD []).take (maxPayloadSize - 12)
    let item := dictItem self.sequence self.index self.record_count record.record_id
      (recordTypeToProtocol record.record_type) name
    let sent := self.sendActive 0x27 item
    let self : Service := { sent.1 with p_cur := rest, index := self.index + 1 }
    if self.record_count ≤ self.index then
      let ended := self.endDict 0
      (ended.1, sent.2 :: ended.2)
    else (self, [sent.2])

/-- The loop of `perf_opt_poll_sample`, with the items behind the header -/
def sampleLoop {F : Type} (units : Units F) (core : Core F) (self : Service) (items : List UInt8)
    (item_count : ℕ) : Service × List UInt8 × ℕ :=
  if self.index < self.record_count ∧ item_count < maxSampleItemsPerPoll then
    match _hfound : self.findNext core with
    | [] => (self, items, item_count)
    | i :: rest =>
      let record := core.records i
      if sampleItemSize record.record_type = 0 then
        sampleLoop units core { self with p_cur := rest } items item_count
      else if maxPayloadSize < 8 + items.length + sampleItemSize record.record_type then
        (self, items, item_count)
      else
        sampleLoop units core { self with p_cur := rest, index := self.index + 1 }
          (items ++ fillSampleItem units record) (item_count + 1)
  else (self, items, item_count)
termination_by self.p_cur.length
decreasing_by
  all_goals
    have hle := length_recordDictFindNext_le self.type_filter 0 core.protocolType self.p_cur
    unfold findNext at _hfound
    rw [_hfound, List.length_cons] at hle
    exact hle

/-- `perf_opt_poll_sample` -/
def pollSample {F : Type} (units : Units F) (core : Core F) (self : Service) :
    Service × List Frame :=
  if self.pending_end = true then
    let ended := self.endSample self.status
    ({ ended.1 with pending_end := false }, ended.2)
  else
    let batch := self.sampleLoop units core [] 0
    let sent :=
      if batch.2.2 = 0 then (batch.1, [])
      else
        let sent := batch.1.sendActive 0x2A
          (sampleBatchHeader self.sequence self.record_count (UInt16.ofNat batch.2.2) ++ batch.2.1)
        (sent.1, [sent.2])
    if batch.1.record_count ≤ batch.1.index then
      ({ sent.1 with status := 0, pending_end := true }, sent.2)
    else if batch.2.2 = 0 then sent.1.endSample 3
    else sent

/-- `perf_opt_poll` -/
def poll {F : Type} (units : Units F) (core : Core F) (self : Service) : Service × List Frame :=
  if self.active = false then (self, [])
  else
    match self.pull_type with
    | .dict => self.pollDict core
    | .sample => self.pollSample units core
    | .idle => (self.idle, [])

end Service

namespace Dbg
variable {F : Type} (s : Dbg F)

/-- `perf_opt_next_sequence` -/
def nextSequence : UInt32 := if s.opt_sequence + 1 = 0 then 1 else s.opt_sequence + 1

/-- `perf_opt_start_dict` and `perf_opt_start_sample`: a pull of the given type, or the reason
why there is none -/
def start (pull_type : PullType) (q : Query) (type_filter : UInt8) : Except UInt8 (Dbg F) :=
  if s.service.active = true then .error 1
  else if recordDictFilterIsValid type_filter 3 = false then .error 2
  else if (q.my_printf.any Link.tx_by_dma) = false then .error 3
  else
    .ok { s with
      opt_sequence := s.nextSequence
      service :=
        { active := true
          type_filter := type_filter
          status := 0
          pull_type := pull_type
          record_count := recordDictCount s.p_perf_first type_filter 0 s.core.protocolType
          index := 0
          sequence := s.nextSequence
          dict_version := s.dict_version
          p_cur := s.p_perf_first
          pending_end := false
          my_printf := q.my_printf
          sop := q.packet.sop
          version := q.packet.version
          seq := q.packet.seq
          src := q.packet.dst
          d_src := q.packet.d_dst
          dst := q.packet.src
          d_dst := q.packet.d_src } }

/-- `perf_opt_send_response` -/
def sendResponse (q : Query) (cmd_word : UInt8) (payload : List UInt8) : Dbg F :=
  { s with
    answers := s.answers ++ [{
      packet :=
        { sop := q.packet.sop, version := q.packet.version
          src := q.packet.dst, d_src := q.packet.d_dst
          dst := q.packet.src, d_dst := q.packet.d_src
          cmd_set := 1, cmd_word := cmd_word, is_ack := 1
          len := UInt16.ofNat payload.length
          crc := 0, eop := 0
          seq := q.packet.seq }
      p_data := payload
      my_printf := q.my_printf }] }

/-- The answer to a query that did or did not start a pull -/
def answerStart (pull_type : PullType) (cmd_word : UInt8) (q : Query) (type_filter : UInt8) :
    Dbg F :=
  match s.start pull_type q type_filter with
  | .ok s' =>
    s'.sendResponse q cmd_word
      (queryAck true type_filter s'.service.record_count s'.service.sequence s.dict_version 0)
  | .error reject_reason =>
    s.sendResponse q cmd_word (queryAck false type_filter 0 0 s.dict_version reject_reason)

/-- `perf_dict_query_act` -/
def dictQueryAct (q : Query) : Dbg F :=
  if q.packet.is_ack ≠ 0 then s else s.answerStart .dict 0x26 q q.typeFilter

/-- `perf_sample_query_act` -/
def sampleQueryAct (q : Query) : Dbg F :=
  if q.packet.is_ack ≠ 0 then s
  else if recordDictFilterIsValid q.typeFilter 3 = false then
    s.sendResponse q 0x29 (queryAck false q.typeFilter 0 0 s.dict_version 2)
  else if q.dictVersion ≠ s.dict_version then
    s.sendResponse q 0x29 (queryAck false q.typeFilter 0 0 s.dict_version 5)
  else s.answerStart .sample 0x29 q q.typeFilter

/-- `perf_report_control_act` -/
def reportControlAct (q : Query) : Dbg F :=
  if q.packet.is_ack ≠ 0 then s
  else
    let s :=
      if q.enable = 0 then { s with service := { s.service.idle with pending_end := false } } else s
    if q.packet.dst = 0 ∧ q.packet.d_dst = 0 then s
    else s.sendResponse q 0x2E [if q.enable = 0 then 1 else 0]

/-- `perf_opt_poll_task`, without the text report -/
def pollTask (units : Units F) : Dbg F :=
  let polled := s.service.poll units s.core
  { s with service := polled.1, reports := s.reports ++ polled.2 }

/-- A step. Measuring, and resetting the peaks, changes what the records hold, but neither their
names and types nor their numbers. -/
inductive Event (F : Type)
  | poll
  | dictQuery (q : Query)
  | sampleQuery (q : Query)
  | reportControl (q : Query)
  | measure (records : ℕ → Record F)

/-- What is measured, in the records that there are -/
def measure (records : ℕ → Record F) : Dbg F :=
  { s with core := { s.core with records := fun i => { records i with
      p_name := (s.core.records i).p_name
      record_id := (s.core.records i).record_id
      record_type := (s.core.records i).record_type } } }

def exec (units : Units F) (s : Dbg F) : Event F → Dbg F
  | .poll => s.pollTask units
  | .dictQuery q => s.dictQueryAct q
  | .sampleQuery q => s.sampleQueryAct q
  | .reportControl q => s.reportControlAct q
  | .measure records => s.measure records

end Dbg
end Atoman.Perf
