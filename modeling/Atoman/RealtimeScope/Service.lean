import Atoman.Comm.Network
import Atoman.Lib.LittleEndian
import Atoman.Lib.Transition
import Atoman.RealtimeScope.Queue

/-!
# The service over the sampler

`control_request` runs in the context that receives frames, `manage` in a task of its own,
`realtime_scope_service_read` in the context of the transport, and the sample in an
interrupt. A region under the lock is one step, and so is every call of the port and every
access to `active_session`; what a step computes besides is local to its context.

The connection may change between any two steps. A connection that comes up has a session
number that none had before it.
-/

namespace Atoman.RealtimeScope
open Comm (Packet)
open Lib (Memory Transition ringSlots)

/-- `REALTIME_SCOPE_CONTROL_BYTES` -/
def controlBytes : ℕ := 68

/-- `REALTIME_SCOPE_REQUEST_DEPTH` -/
def requestDepth : ℕ := 4

/-- `realtime_scope_control_t`, with the number of the request, which the code does not
keep. An output function is a number. -/
structure Control where
  packet : Packet
  p_output : ℕ
  data : Memory UInt8
  serial : ℕ

/-- What the code reads of `realtime_scope_port_t`. -/
structure Port where
  byte_budget : UInt32
  /-- none of the callbacks that must be there is `NULL` -/
  complete : Bool
  /-- `p_link_fault` is there -/
  p_link_fault : Bool
  p_identity : List UInt8
  p_resolve : UInt32 → ℕ → Option ℕ

/-- What the port does and answers in one step. -/
structure Answer where
  /-- the connection after `p_stop`: whether it is up, and its session -/
  stopped : Bool × UInt32
  link_fault : UInt32

/-- `finish` -/
def finish (p_control : Control) (status : UInt8) (p_data : List UInt8) : Control :=
  let request := p_control.packet
  { p_control with
    packet := { request with
      src := request.dst
      d_src := request.d_dst
      dst := request.src
      d_dst := request.d_src
      is_ack := 1
      len := UInt16.ofNat (p_data.length + 4) }
    data := (p_control.data.write 3 [status]).write 4 p_data }

/-- How far `process` has come with a request. -/
inductive Part
  | begin
  /-- command 2 behind `p_stop` -/
  | stop
  /-- command 2 behind `stop_acquisition` -/
  | ask
  /-- command 2 with the session that it has read -/
  | renew (session : UInt32)
  /-- command 6 in front of the lock -/
  | start (frequency : UInt32)
  | send (reply : Control)

/-- How far `manage` has come. -/
inductive Stage
  | idle
  /-- it has read the session -/
  | asked (session : UInt32)
  /-- in front of `stop_acquisition` -/
  | stopping (session : UInt32)
  /-- in front of the store to `active_session` -/
  | assigning (session : UInt32)
  /-- in front of a round of the loop -/
  | looping (i : ℕ)
  | serving (i : ℕ) (request : Control) (part : Part)

/-- How far `realtime_scope_service_read` has come. `steady` says that the session has not
changed since it was read, and each frame is kept with the session that it was sampled
under; the code keeps neither. -/
inductive Reader
  | idle
  /-- the connection is up -/
  | connected (capacity : ℕ)
  /-- it has read the session -/
  | comparing (capacity : ℕ) (session : UInt32) (steady : Bool)
  | reading (capacity : ℕ) (session : UInt32) (steady : Bool) (frames : List (Frame × UInt32))

/-- The session changes under the reader. -/
def Reader.disturbed : Reader → Reader
  | .comparing capacity session _ => .comparing capacity session false
  | .reading capacity session _ frames => .reading capacity session false frames
  | reader => reader

/-- A request with what was sent in answer to it. -/
structure Reply where
  request : Control
  reply : Control
  /-- the request had been queued -/
  queued : Bool

/-- A read that has passed the check of its session. -/
structure Read where
  capacity : ℕ
  session : UInt32
  steady : Bool
  frames : List (Frame × UInt32)

/-- The bytes that a read has stored. -/
def readBytes (frames : List (Frame × UInt32)) : List UInt8 :=
  frames.flatMap fun frame => frame.1.data.take frame.1.size

/-- The static variables of the service, its contexts and the connection. -/
structure Service where
  port : Port
  /-- `p_sampler` is set -/
  bound : Bool
  run : Run
  requests : ℕ → Control
  request_head : ℕ
  request_count : ℕ
  sample_frequency : UInt32
  active_session : UInt32
  stage : Stage
  reader : Reader
  /-- the calls of `control_request` that found no room -/
  refused : List Control
  connected : Bool
  session : UInt32
  /-- the sessions so far -/
  sessions : List UInt32
  /-- the sessions that the queued frames were sampled under -/
  tags : List UInt32
  /-- the number of requests so far, and those that were queued -/
  arrived : ℕ
  accepted : List Control
  /-- how many requests had been queued when `manage` was last called -/
  begun : ℕ
  sent : List Reply
  reads : List Read

/-- A step of a context, or of the connection. -/
inductive Event
  | bind (p_port : Option Port) (p_queue : Option (Memory UInt8)) (capacity : ℕ)
  | request (p_request : Option (Packet × Option (Memory UInt8))) (my_printf : ℕ)
  | refuse
  | manage (answer : Answer)
  | sample (bus : Bus)
  | read (p_data : Bool) (capacity : ℕ)
  | link (connected : Bool) (session : UInt32)

namespace Service

/-- The requests in the ring, the oldest first. -/
def ring (s : Service) : List Control :=
  (ringSlots requestDepth s.request_head s.request_count).map s.requests

/-- The connection changes: it goes down, or another one has a session of its own. -/
def relink (s : Service) (connected : Bool) (session : UInt32) : Service :=
  if session = s.session then { s with connected := s.connected && connected }
  else if session ∈ s.sessions then s
  else
    { s with
      connected := connected
      session := session
      sessions := session :: s.sessions
      reader := s.reader.disturbed }

/-- `realtime_scope_service_bind` -/
def bind (s : Service) (p_port : Option Port) (p_queue : Option (Memory UInt8)) (capacity : ℕ) :
    Service :=
  match p_port with
  | none => s
  | some port =>
    if s.bound = true ∨ port.byte_budget < 6 ∨ port.complete = false then s
    else
      match Scope.init (some s.run.scope) p_queue capacity with
      | none => s
      | some scope =>
        { s with port := port, bound := true, run := .start scope, active_session := s.session }

/-- `control_request` up to the end of its locked region -/
def controlRequest (s : Service) (p_request : Option (Packet × Option (Memory UInt8)))
    (my_printf : ℕ) : Service :=
  match p_request with
  | some (packet, some p_data) =>
    if packet.is_ack ≠ 0 ∨ packet.len < 3 ∨ controlBytes < packet.len.toNat ∨
        (packet.dst = 0 ∧ packet.d_dst = 0) then s
    else
      let request : Control :=
        ⟨packet, my_printf, Memory.write (fun _ => 0) 0 (p_data.slice 0 packet.len.toNat),
          s.arrived⟩
      if s.bound = true ∧ s.request_count < requestDepth then
        { s with
          arrived := s.arrived + 1
          requests :=
            Function.update s.requests ((s.request_head + s.request_count) % requestDepth) request
          request_count := s.request_count + 1
          accepted := s.accepted ++ [request] }
      else { s with arrived := s.arrived + 1, refused := s.refused ++ [request] }
  | _ => s

/-- The rest of `control_request` for a request that found no room. -/
def refuse (s : Service) : Service :=
  match s.refused with
  | [] => s
  | request :: refused =>
    { s with refused := refused, sent := s.sent ++ [⟨request, finish request 7 [], false⟩] }

/-- The locked region of `stop_acquisition` -/
def stopAcquisition (s : Service) : Service :=
  { s with
    run := ⟨{ s.run.scope.stop with head := 0, count := 0 }, s.run.bank, [], []⟩
    tags := [] }

/-- The frequency, as most replies carry it. -/
def frequencyReply (s : Service) (request : Control) : Control :=
  finish request 0 (Lib.u32Le s.sample_frequency)

/-- The address of a channel, if the port knows it. -/
def resolve (s : Service) (address : UInt32) (width : ℕ) : Option ℕ :=
  if address ≠ 0 ∧ width ≠ 0 then s.port.p_resolve address width else none

/-- Command 4 of `process` behind the check of the length -/
def setChannel (s : Service) (request : Control) : Run × Control :=
  let p_data := (request.data.slice 3 (controlBytes - 3))
  let address := Lib.readU32Le p_data 2
  let type := (p_data.getD 1 0).toUInt32
  let p_address := s.resolve address (typeSize type)
  if address ≠ 0 ∧ p_address = none then (s.run, finish request 2 [])
  else
    let run := s.run.exec (.set (p_data.getD 0 0) p_address type)
    if (s.run.scope.set (p_data.getD 0 0) p_address type).2 = false then (run, finish request 2 [])
    else (run, s.frequencyReply request)

/-- The status reply of command 7 -/
def statusReply (s : Service) (answer : Answer) (request : Control) : Control :=
  let scope := s.run.scope
  finish request 0
    ([if scope.running then 1 else 0] ++ Lib.u32Le scope.samples ++ Lib.u32Le scope.overflows ++
      Lib.u32Le (UInt32.ofNat scope.count) ++ Lib.u32Le 0 ++ [if s.connected then 1 else 0] ++
      Lib.u32Le (if s.port.p_link_fault then answer.link_fault else 0) ++
      Lib.u32Le (UInt32.ofNat scope.queue_high_water) ++ Lib.u32Le scope.dequeued)

/-- `process` up to its first step that another context can see, with how it goes on -/
def process (s : Service) (answer : Answer) (request : Control) : Service × Part :=
  if request.packet.len < 3 ∨ controlBytes < request.packet.len.toNat then
    (s, .send (finish request 1 []))
  else
    let length := request.packet.len.toNat - 3
    match (request.data 0).toNat with
    | 1 => (s, .send (finish request 0 ([1, UInt8.ofNat channels] ++ Lib.u32Le s.sample_frequency ++
        Lib.u32Le s.port.byte_budget ++ s.port.p_identity.take 32 ++
        List.replicate (32 - s.port.p_identity.length) 0 ++ Lib.u32Le s.sample_frequency)))
    | 2 => (s.relink answer.stopped.1 answer.stopped.2, .stop)
    | 3 => ({ s with run := s.run.exec .clear }, .send (s.frequencyReply request))
    | 4 =>
      if length < 6 then (s, .send (finish request 1 []))
      else ({ s with run := (s.setChannel request).1 }, .send (s.setChannel request).2)
    | 5 =>
      if s.run.scope.swap.2 = false then (s, .send (finish request 3 []))
      else
        let run := s.run.exec .swap
        ({ s with run := run }, .send (finish request 0
          (Lib.u16Le (UInt16.ofNat run.scope.p_active.payload_size) ++
            Lib.u32Le s.sample_frequency)))
    | 6 =>
      if length ≠ 0 ∧ length ≠ 4 then (s, .send (finish request 1 []))
      else if s.sample_frequency = 0 then (s, .send (finish request 5 []))
      else if (length = 4 ∧ Lib.readU32Le (request.data.slice 3 4) 0 ≠ s.sample_frequency) ∨
          s.port.byte_budget.toNat / (s.run.scope.p_active.payload_size + 5) <
            s.sample_frequency.toNat then
        (s, .send (finish request 4 []))
      else (s, .start s.sample_frequency)
    | 7 => (s, .send (s.statusReply answer request))
    | _ => (s, .send (finish request 6 []))

/-- The next step of `process`, or the reply. -/
def serve (s : Service) (answer : Answer) (i : ℕ) (request : Control) : Part → Service
  | .begin =>
    let (s, part) := s.process answer request
    { s with stage := .serving i request part }
  | .stop => { s.stopAcquisition with stage := .serving i request .ask }
  | .ask => { s with stage := .serving i request (.renew s.session) }
  | .renew session =>
    { s with
      active_session := session
      stage := .serving i request (.send (finish request 0 [])) }
  | .start frequency =>
    if s.run.scope.running = false ∧ s.connected = true ∧ s.run.scope.start.2 = true then
      { s with
        run := s.run.exec .start
        stage := .serving i request (.send (finish request 0 (Lib.u32Le frequency))) }
    else { s with stage := .serving i request (.send (finish request 3 [])) }
  | .send reply =>
    { s with sent := s.sent ++ [⟨request, reply, true⟩], stage := .looping (i + 1) }

/-- The next step of `manage` -/
def manage (s : Service) (answer : Answer) : Service :=
  match s.stage with
  | .idle =>
    if s.bound = false then s
    else { s with stage := .asked s.session, begun := s.accepted.length }
  | .asked session =>
    if s.connected = false ∨ session ≠ s.active_session then { s with stage := .stopping session }
    else { s with stage := .assigning session }
  | .stopping session => { s.stopAcquisition with stage := .assigning session }
  | .assigning session => { s with active_session := session, stage := .looping 0 }
  | .looping i =>
    if requestDepth ≤ i ∨ s.request_count = 0 then { s with stage := .idle }
    else
      { s with
        request_head := (s.request_head + 1) % requestDepth
        request_count := s.request_count - 1
        stage := .serving i (s.requests s.request_head) .begin }
  | .serving i request part => s.serve answer i request part

/-- `realtime_scope_service_sample`, with the session of the frame -/
def sample (s : Service) (bus : Bus) : Service :=
  if s.bound = false then s
  else
    { s with
      run := s.run.exec (.sample bus)
      tags :=
        if s.run.scope.running = true ∧ s.run.scope.count < s.run.scope.queue_frames then
          s.tags ++ [s.session]
        else s.tags }

/-- The end of `realtime_scope_service_read` -/
def readEnd (s : Service) (record : Read) : Service :=
  { s with reader := .idle, reads := s.reads ++ [record] }

/-- The next step of `realtime_scope_service_read`; the arguments are those of a new call. -/
def read (s : Service) (p_data : Bool) (capacity : ℕ) : Service :=
  match s.reader with
  | .idle =>
    if s.bound = false ∨ p_data = false ∨ s.connected = false then s
    else { s with reader := .connected capacity }
  | .connected capacity => { s with reader := .comparing capacity s.session true }
  | .comparing capacity session steady =>
    if session ≠ s.active_session then { s with reader := .idle }
    else { s with reader := .reading capacity session steady [] }
  | .reading capacity session steady frames =>
    let size := (readBytes frames).length
    if capacity - size < 6 then s.readEnd ⟨capacity, session, steady, frames⟩
    else if capacity - size < s.run.scope.p_active.payload_size + 5 then
      s.readEnd ⟨capacity, session, steady, frames⟩
    else
      match s.run.scope.pop.2, s.tags with
      | some frame, tag :: tags =>
        { s with
          run := s.run.exec .pop
          tags := tags
          reader := .reading capacity session steady (frames ++ [(frame, tag)]) }
      | _, _ => s.readEnd ⟨capacity, session, steady, frames⟩

/-- One step. -/
def exec (s : Service) : Event → Service
  | .bind p_port p_queue capacity => s.bind p_port p_queue capacity
  | .request p_request my_printf => s.controlRequest p_request my_printf
  | .refuse => s.refuse
  | .manage answer => s.manage answer
  | .sample bus => s.sample bus
  | .read p_data capacity => s.read p_data capacity
  | .link connected session => s.relink connected session

/-- The static variables before the first call. -/
def reset (sample_frequency : UInt32) (connected : Bool) (session : UInt32) : Service where
  port := ⟨0, false, false, [], fun _ _ => none⟩
  bound := false
  run := .start ⟨.zero, .zero, fun _ => 0, 0, 0, 0, 0, 0, 0, 0, 0, 0, 0, 0, 0, false⟩
  requests := fun _ => ⟨⟨0, 0, 0, 0, 0, 0, 0, 0, 0, 0, 0, 0, 0⟩, 0, fun _ => 0, 0⟩
  request_head := 0
  request_count := 0
  sample_frequency := sample_frequency
  active_session := 0
  stage := .idle
  reader := .idle
  refused := []
  connected := connected
  session := session
  sessions := [session]
  tags := []
  arrived := 0
  accepted := []
  begun := 0
  sent := []
  reads := []

end Service

end Atoman.RealtimeScope
