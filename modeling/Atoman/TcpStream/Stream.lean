import Atoman.Lib.StreamRing
import Atoman.Lib.Transition

/-!
# The TCP stream

The callbacks of lwIP and the poll run in one task; a reset may come from another one at any
point. The two meet in `connected`, `reset_requested` and `session`, so a callback is taken
apart at every access to one of these, and a region under the lock is one step. lwIP keeps
places in the ring until their bytes are acknowledged, and may read them whenever it likes.
-/

namespace Atoman.TcpStream
open Lib (Memory Transition)

/-- `TCP_STREAM_RING_BYTES` -/
abbrev ringBytes : ℕ := 2500

/-- `sizeof(packet)` -/
abbrev packetBytes : ℕ := 1024

/-- A connection that was accepted, as lwIP and the peer have it. -/
structure Peer where
  /-- the session that it was accepted in -/
  session : ℕ
  /-- the places of the bytes that have been submitted and not acknowledged -/
  places : List ℕ
  acked : ℕ
  /-- the bytes as they were when they were submitted -/
  submitted : List UInt8
  /-- the bytes that have been transmitted for the first time -/
  stream : List UInt8
  /-- those that have been transmitted again, with their numbers -/
  again : List (ℕ × UInt8)
  deriving DecidableEq

/-- What `tcp_write` returns. -/
inductive WriteResult
  | ok
  | mem
  | error (code : ℕ)

/-- What the calls of one step return. -/
structure Answer where
  now_ms : ℕ
  /-- a listener is opened -/
  opened : Bool
  /-- what the source returns; it may return more than it was asked for -/
  data : List UInt8
  sndbuf : ℕ
  result : WriteResult

/-- Where the task is. -/
inductive Pc
  /-- in none of the functions -/
  | rest
  /-- `accepted`, behind the test -/
  | accepting
  /-- `clear_peer`, in front of the lock -/
  | clearing (ready : Bool)
  /-- not ready, in front of the test of `connected` -/
  | unready
  /-- and in front of `retire` -/
  | closing
  | opening
  /-- in front of the test of `reset_requested` -/
  | gate
  | starting
  | batch (batch current_session : ℕ)
  /-- behind the call of the source, in front of the three tests -/
  | checkConnected (batch current_session capacity : ℕ) (packet : List UInt8)
  | checkReset (batch current_session capacity : ℕ) (packet : List UInt8)
  | checkSession (batch current_session capacity : ℕ) (packet : List UInt8)
  /-- in front of `retire`, and of the output or of the end -/
  | retiring (error : ℕ) (output : Bool)
  | output

/-- The variables of the module, and the task. -/
structure Stream where
  p_listener : Bool
  p_peer : Option Peer
  ring : Memory UInt8
  head : ℕ
  submit : ℕ
  tail : ℕ
  pending : ℕ
  last_batch_ms : ℕ
  listen_port : ℕ
  connected : Bool
  reset_requested : Bool
  /-- the variable has it modulo `2 ^ 32` -/
  session : ℕ
  last_error : ℕ
  pc : Pc
  /-- the connections that have ended -/
  past : List Peer
  /-- what the source has returned, and in which session -/
  reads : List (ℕ × List UInt8)

namespace Stream
variable (s : Stream)

/-- `retire` -/
def retire (error : ℕ) : Stream :=
  { s with
    session := if s.connected = true then s.session + 1 else s.session
    connected := false
    reset_requested := true
    last_error := error }

/-- The connection has ended. -/
def endPeer : Stream := { s with p_peer := none, past := s.past ++ s.p_peer.toList }

/-- `clear_peer`, in front of the lock -/
def clearPeer : Stream := { s.endPeer with head := 0, submit := 0, tail := 0, pending := 0 }

/-- `accepted`, behind the test -/
def accept : Stream :=
  { s with
    p_peer := some ⟨s.session + 1, [], 0, [], [], []⟩
    head := 0, submit := 0, tail := 0, pending := 0
    session := s.session + 1, connected := true, last_error := 0 }

/-- `acknowledged`; lwIP has given up the first `length` places. -/
def acknowledge (length : ℕ) : Stream :=
  match s.p_peer with
  | none => s
  | some peer =>
    if peer.stream.length - peer.acked < length then s
    else
      let s := { s with
        p_peer := some
          { peer with places := peer.places.drop length, acked := peer.acked + length } }
      if s.pending < length then s
      else { s with tail := (s.tail + length) % ringBytes, pending := s.pending - length }

/-- lwIP transmits the byte at a place: the next one, or an old one again. -/
def transmit (j : ℕ) : Stream :=
  match s.p_peer with
  | none => s
  | some peer =>
    match peer.places[j]? with
    | none => s
    | some place =>
      if peer.acked + j = peer.stream.length then
        { s with p_peer := some { peer with stream := peer.stream ++ [s.ring place] } }
      else if peer.acked + j < peer.stream.length then
        { s with
          p_peer := some { peer with again := peer.again ++ [(peer.acked + j, s.ring place)] } }
      else s

/-- The bytes of the source are stored. -/
def store (packet : List UInt8) : Stream :=
  { s with
    ring := s.ring.wrapWrite ringBytes s.head packet
    head := (s.head + packet.length) % ringBytes }

/-- The bytes behind `submit`, up to the head or to the end of the ring -/
def contiguous : ℕ := if s.submit < s.head then s.head - s.submit else ringBytes - s.submit

/-- lwIP has taken `length` bytes, which stay where they are. -/
def submitBytes (length : ℕ) : Stream :=
  { s with
    p_peer := s.p_peer.map fun peer =>
      { peer with
        places := peer.places ++ (List.range length).map (s.submit + ·)
        submitted := peer.submitted ++ s.ring.slice s.submit length }
    submit := (s.submit + length) % ringBytes
    pending := s.pending + length }

/-- A batch, from the test for bytes to submit on -/
def write (batch current_session : ℕ) (a : Answer) : Stream :=
  if s.submit = s.head then { s with pc := .output }
  else if min s.contiguous a.sndbuf = 0 then { s with pc := .output }
  else match a.result with
  | .mem => { s with pc := .output }
  | .error code => { s with pc := .retiring code true }
  | .ok =>
    { s.submitBytes (min s.contiguous a.sndbuf) with pc := .batch (batch + 1) current_session }

/-- `bsp_tcp_stream_poll`, the first test -/
def poll (ready : Bool) : Stream :=
  if s.reset_requested = true ∨ ready = false then { s.clearPeer with pc := .clearing ready }
  else { s with pc := .opening }

/-- `bsp_tcp_stream_poll`, from the listener to the test of `connected` -/
def openListener (a : Answer) : Stream :=
  if s.listen_port = 0 then { s with pc := .rest }
  else if s.p_listener = false ∧ a.opened = false then { s with pc := .rest }
  else if s.connected = false ∨ s.p_peer.isNone = true then
    { s with p_listener := true, pc := .rest }
  else { s with p_listener := true, pc := .gate }

/-- `bsp_tcp_stream_poll`, the time of the batches -/
def start (a : Answer) : Stream :=
  let gap := (a.now_ms + 2 ^ 32 - s.last_batch_ms) % 2 ^ 32
  if 1 ≤ gap then { s with last_batch_ms := a.now_ms, pc := .batch 0 s.session }
  else { s with pc := .output }

/-- The room in the ring, and in the packet. -/
def capacity : ℕ :=
  let free_bytes := (s.tail + ringBytes - s.head - 1) % ringBytes
  if free_bytes < packetBytes then free_bytes else packetBytes

/-- The next access of the task -/
def step (a : Answer) : Stream :=
  match s.pc with
  | .rest => s
  | .accepting => { s.accept with last_batch_ms := a.now_ms, pc := .rest }
  | .clearing ready =>
    { s with reset_requested := false, pc := if ready = true then .opening else .unready }
  | .unready =>
    if s.connected = true then { s with pc := .closing }
    else { s with p_listener := false, pc := .rest }
  | .closing => { s.retire 3 with p_listener := false, pc := .rest }
  | .opening => s.openListener a
  | .gate => { s with pc := if s.reset_requested = true then .rest else .starting }
  | .starting => s.start a
  | .batch batch current_session =>
    if 4 ≤ batch then { s with pc := .output }
    else if s.capacity ≠ 0 then
      { s with
        reads := s.reads ++ [(s.session, a.data)]
        pc := .checkConnected batch current_session s.capacity a.data }
    else s.write batch current_session a
  | .checkConnected batch current_session capacity packet =>
    { s with
      pc :=
        if s.connected = false then .rest
        else .checkReset batch current_session capacity packet }
  | .checkReset batch current_session capacity packet =>
    { s with
      pc :=
        if s.reset_requested = true then .rest
        else .checkSession batch current_session capacity packet }
  | .checkSession batch current_session capacity packet =>
    if s.session % 2 ^ 32 ≠ current_session % 2 ^ 32 then { s with pc := .rest }
    else if capacity < packet.length then { s with pc := .retiring 4 false }
    else (s.store packet).write batch current_session a
  | .retiring error output => { s.retire error with pc := if output = true then .output else .rest }
  | .output => { s with pc := .rest }

/-- The task is in none of the functions. -/
def atRest : Bool :=
  match s.pc with
  | .rest => true
  | _ => false

end Stream

/-- A step of the task, a callback, a reset, or a byte that lwIP transmits. -/
inductive Event
  | step (a : Answer)
  /-- `bsp_tcp_stream_configure` -/
  | configure (port : ℕ)
  | poll (ready : Bool)
  /-- `accepted`, the test -/
  | accepted (error : Bool)
  | acknowledged (length : ℕ)
  | received (error : ℕ)
  | failed (error : ℕ)
  /-- `bsp_tcp_stream_reset` -/
  | reset
  | transmit (j : ℕ)

/-- One step. lwIP calls back only between the calls of the task, and only for a connection that
is there. -/
def Stream.exec (s : Stream) : Event → Stream
  | .step a => s.step a
  | .reset => s.retire 0
  | .transmit j => s.transmit j
  | .configure port =>
    if port = 0 ∨ s.listen_port ≠ 0 then s else { s with listen_port := port }
  | .poll ready => if s.atRest = true then s.poll ready else s
  | .accepted error =>
    if s.atRest = false ∨ s.p_listener = false ∨ error = true then s
    else if s.p_peer.isSome = true ∨ s.reset_requested = true then s
    else { s with pc := .accepting }
  | .acknowledged length => if s.atRest = true then s.acknowledge length else s
  | .received error =>
    if s.atRest = true ∧ s.p_peer.isSome = true then (s.retire error).endPeer else s
  | .failed error =>
    if s.atRest = true ∧ s.p_peer.isSome = true then s.endPeer.retire error else s

/-- The variables at power-up. -/
def Stream.powerUp : Stream where
  p_listener := false
  p_peer := none
  ring := fun _ => 0
  head := 0
  submit := 0
  tail := 0
  pending := 0
  last_batch_ms := 0
  listen_port := 0
  connected := false
  reset_requested := false
  session := 0
  last_error := 0
  pc := .rest
  past := []
  reads := []

/-- The runs of the module. -/
def streamRuns : Transition Stream where
  init := fun s => s = .powerUp
  next := fun s s' => ∃ event, s' = s.exec event

end Atoman.TcpStream
