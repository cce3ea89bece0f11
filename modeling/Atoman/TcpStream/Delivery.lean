import Atoman.TcpStream.Stream
import Mathlib.Tactic.Linarith

/-!
# What the peers are sent

While a connection lives, the ring retains the bytes of its source from the first that is not
acknowledged on, and the indices are the numbers of the acknowledged, the submitted and the
stored bytes modulo its size.
-/

namespace Atoman.TcpStream
open Lib (Memory Transition)

/-- What the source has returned in a session. -/
def returnedFor (reads : List (ℕ × List UInt8)) (session : ℕ) : List UInt8 :=
  (reads.filter fun read => read.1 = session).flatMap Prod.snd

theorem returnedFor_append (reads : List (ℕ × List UInt8)) (session n : ℕ) (data : List UInt8) :
    returnedFor (reads ++ [(n, data)]) session =
      returnedFor reads session ++ if n = session then data else [] := by
  by_cases h : n = session <;> simp [returnedFor, h]

theorem prefix_returnedFor_append (reads : List (ℕ × List UInt8)) (session n : ℕ)
    (data : List UInt8) :
    returnedFor reads session <+: returnedFor (reads ++ [(n, data)]) session := by
  rw [returnedFor_append]
  exact List.prefix_append _ _

/-- What a connection has been sent, to the end. -/
structure Peer.Sound (peer : Peer) (returned : List UInt8) : Prop where
  submitted : peer.submitted <+: returned
  stream : peer.stream <+: peer.submitted
  again : ∀ n b, (n, b) ∈ peer.again → peer.stream[n]? = some b

theorem Peer.Sound.mono {peer : Peer} {returned returned' : List UInt8} (h : peer.Sound returned)
    (hle : returned <+: returned') : peer.Sound returned' :=
  ⟨h.submitted.trans hle, h.stream, h.again⟩

/-- The ring and the indices, for a connection with the bytes that have been stored for it. -/
structure Stored (s : Stream) (peer : Peer) (stored : List UInt8) : Prop where
  retains : s.ring.Retains ringBytes peer.acked stored
  room : stored.length < peer.acked + ringBytes
  submitted : peer.submitted <+: stored
  stream : peer.stream <+: peer.submitted
  acked_le : peer.acked ≤ peer.stream.length
  again : ∀ n b, (n, b) ∈ peer.again → peer.stream[n]? = some b
  head : s.head = stored.length % ringBytes
  submit : s.submit = peer.submitted.length % ringBytes
  tail : s.tail = peer.acked % ringBytes
  pending : s.pending + peer.acked = peer.submitted.length
  places : peer.places = (List.range s.pending).map fun i => (peer.acked + i) % ringBytes

/-- The indices, with or without a connection. -/
structure Indices (s : Stream) : Prop where
  head : s.head < ringBytes
  submit : s.submit < ringBytes
  tail : s.tail < ringBytes
  pending_lt : s.pending < ringBytes
  pending : s.pending = (s.submit + ringBytes - s.tail) % ringBytes

variable {s : Stream} {peer : Peer} {stored : List UInt8}

/-- The same ring and the same indices. -/
theorem Stored.of_eq (h : Stored s peer stored) {t : Stream} (hring : t.ring = s.ring)
    (hhead : t.head = s.head) (hsubmit : t.submit = s.submit) (htail : t.tail = s.tail)
    (hpending : t.pending = s.pending) : Stored t peer stored := by
  obtain ⟨retains, room, submitted, stream, acked_le, again, head, submit, tail, pending,
      places⟩ := h
  exact ⟨hring ▸ retains, room, submitted, stream, acked_le, again, hhead ▸ head, hsubmit ▸ submit,
    htail ▸ tail, hpending ▸ pending, hpending ▸ places⟩

theorem Stored.indices (h : Stored s peer stored) : Indices s := by
  have hroom := h.room
  have hle := h.submitted.length_le
  have hpending := h.pending
  simp only [ringBytes] at hroom
  constructor
  · rw [h.head]; exact Nat.mod_lt _ (by decide)
  · rw [h.submit]; exact Nat.mod_lt _ (by decide)
  · rw [h.tail]; exact Nat.mod_lt _ (by decide)
  · simp only [ringBytes]; omega
  · rw [h.submit, h.tail]; simp only [ringBytes]; omega

theorem Stored.empty (hhead : s.head = 0)
    (hsubmit : s.submit = 0) (htail : s.tail = 0) (hpending : s.pending = 0) (session : ℕ) :
    Stored s ⟨session, [], 0, [], [], []⟩ [] := by
  constructor <;> simp [hhead, hsubmit, htail, hpending, Memory.retains_nil]

/-- The room that is asked for is there. -/
theorem Stored.capacity (h : Stored s peer stored) :
    stored.length + s.capacity < peer.acked + ringBytes := by
  have hroom := h.room
  have hle := h.submitted.length_le
  have hpending := h.pending
  simp only [Stream.capacity, h.head, h.tail, ringBytes] at hroom ⊢
  split <;> omega

/-- The bytes of the source are stored behind the others. -/
theorem Stored.store (h : Stored s peer stored) {packet : List UInt8}
    (hlen : packet.length ≤ s.capacity) : Stored (s.store packet) peer (stored ++ packet) := by
  have hcapacity' : stored.length + packet.length < peer.acked + ringBytes :=
    (Nat.add_le_add_left hlen _).trans_lt h.capacity
  have hle := h.submitted.length_le
  have hpending := h.pending
  obtain ⟨retains, room, submitted, stream, acked_le, again, head, submit, tail, pending,
      places⟩ := h
  refine ⟨?_, ?_, submitted.trans (List.prefix_append _ _), stream, acked_le, again, ?_, submit,
    tail, pending, places⟩
  · rw [Stream.store, head]
    exact retains.append (by decide) (by omega) hcapacity'.le
  · rw [List.length_append]
    exact hcapacity'
  · show (s.head + packet.length) % ringBytes = _
    rw [head, List.length_append, Nat.mod_add_mod]

/-- Bytes that are stored and not submitted go on up to the head, or to the end of the ring. -/
theorem Stored.unsubmitted (h : Stored s peer stored) (hne : s.submit ≠ s.head) {length : ℕ}
    (hlen : length ≤ s.contiguous) :
    peer.submitted.length + length ≤ stored.length ∧ s.submit + length ≤ ringBytes := by
  have hroom := h.room
  have hpending := h.pending
  have hle := h.submitted.length_le
  simp only [Stream.contiguous, h.submit, h.head, ringBytes] at hroom hne hlen ⊢
  split at hlen <;> omega

/-- Bytes are submitted. -/
theorem Stored.submits (h : Stored s peer stored) {length : ℕ}
    (hstored : peer.submitted.length + length ≤ stored.length)
    (hring : s.submit + length ≤ ringBytes) {t : Stream} (hmem : t.ring = s.ring)
    (hhead : t.head = s.head) (htail : t.tail = s.tail)
    (hsubmit : t.submit = (s.submit + length) % ringBytes)
    (hpending : t.pending = s.pending + length) :
    Stored t
      { peer with
        places := peer.places ++ (List.range length).map (s.submit + ·)
        submitted := peer.submitted ++ s.ring.slice s.submit length } stored := by
  have hcount := h.pending
  have hslice : s.ring.slice s.submit length = (stored.drop peer.submitted.length).take length := by
    rw [h.submit]
    exact h.retains.slice (by omega) hstored (h.submit ▸ hring)
  have hprefix : peer.submitted ++ s.ring.slice s.submit length <+: stored := by
    obtain ⟨rest, hrest⟩ := h.submitted
    rw [hslice, ← hrest, List.drop_left]
    exact (List.prefix_append_right_inj _).2 (List.take_prefix _ _)
  have hlength : (peer.submitted ++ s.ring.slice s.submit length).length =
      peer.submitted.length + length := by
    rw [List.length_append, Memory.length_slice]
  refine ⟨hmem ▸ h.retains, h.room, hprefix, h.stream.trans (List.prefix_append _ _), h.acked_le,
    h.again, hhead.trans h.head, ?_, htail.trans h.tail, ?_, ?_⟩
  · rw [hsubmit, hlength, h.submit, Nat.mod_add_mod]
  · dsimp only
    rw [hpending, hlength, ← hcount]
    omega
  · dsimp only
    rw [hpending, h.places, List.range_add, List.map_append, List.map_map]
    congr 1
    refine List.map_congr_left fun i hi => ?_
    rw [List.mem_range] at hi
    simp only [Function.comp, ← Nat.add_assoc]
    rw [Nat.add_comm peer.acked, hcount, ← Nat.mod_add_mod, ← h.submit]
    exact (Nat.mod_eq_of_lt (by omega)).symm

/-- A batch submits bytes, or it is the last. -/
theorem Stream.write_cases (s : Stream) (batch current_session : ℕ) (a : Answer) :
    s.write batch current_session a = { s with pc := .output } ∨
    (∃ code, s.write batch current_session a = { s with pc := .retiring code true }) ∨
    ∃ length, s.submit ≠ s.head ∧ length ≤ s.contiguous ∧
      s.write batch current_session a =
        { s.submitBytes length with pc := .batch (batch + 1) current_session } := by
  unfold Stream.write
  split
  · exact .inl rfl
  rename_i hne
  split
  · exact .inl rfl
  cases a.result with
  | mem => exact .inl rfl
  | error code => exact .inr (.inl ⟨code, rfl⟩)
  | ok => exact .inr (.inr ⟨_, hne, min_le_left _ _, rfl⟩)

/-- Bytes are acknowledged. -/
theorem Stored.acknowledge (h : Stored s peer stored) (hpeer : s.p_peer = some peer)
    (length : ℕ) :
    ∃ peer', (s.acknowledge length).p_peer = some peer' ∧
      peer'.session = peer.session ∧ Stored (s.acknowledge length) peer' stored := by
  unfold Stream.acknowledge
  rw [hpeer]
  dsimp only
  split
  · exact ⟨peer, hpeer, rfl, h⟩
  rename_i hout
  have hcount := h.pending
  have hstream := h.stream.length_le
  have hacked := h.acked_le
  rw [if_neg (by omega)]
  refine ⟨_, rfl, rfl, ?_⟩
  refine ⟨h.retains.release (Nat.le_add_right _ _), ?_, h.submitted, h.stream, ?_, h.again, h.head,
    h.submit, ?_, ?_, ?_⟩
  · have hroom := h.room
    dsimp only
    omega
  · dsimp only
    omega
  · dsimp only
    rw [h.tail, Nat.mod_add_mod]
  · dsimp only
    omega
  · dsimp only
    obtain ⟨rest, hrest⟩ := Nat.exists_eq_add_of_le (show length ≤ s.pending by omega)
    rw [h.places, hrest, List.range_add, List.map_append, List.drop_left' (by simp), List.map_map,
      Nat.add_sub_cancel_left]
    simp only [Function.comp_def, Nat.add_assoc]

/-- A place that lwIP keeps has the byte that was submitted. -/
theorem Stored.byte (h : Stored s peer stored) {j : ℕ} (hj : j < s.pending)
    (hlen : peer.acked + j < peer.submitted.length) :
    s.ring ((s.tail + j) % ringBytes) = peer.submitted[peer.acked + j] := by
  have hcount := h.pending
  have hle := h.submitted.length_le
  rw [h.tail, Nat.mod_add_mod, h.retains.get _ (by omega) (Nat.le_add_right _ _)]
  exact (h.submitted.getElem _).symm

/-- A byte is transmitted, or transmitted again. -/
theorem Stored.transmit (h : Stored s peer stored) (hpeer : s.p_peer = some peer) (j : ℕ) :
    ∃ peer', (s.transmit j).p_peer = some peer' ∧
      peer'.session = peer.session ∧ Stored (s.transmit j) peer' stored := by
  unfold Stream.transmit
  rw [hpeer]
  dsimp only
  split
  · exact ⟨peer, hpeer, rfl, h⟩
  rename_i place hplace
  rw [h.places, List.getElem?_map, Option.map_eq_some_iff] at hplace
  obtain ⟨i, hi, rfl⟩ := hplace
  obtain ⟨hlt, heq⟩ := List.getElem?_eq_some_iff.1 hi
  rw [List.getElem_range] at heq
  subst heq
  rw [List.length_range] at hlt
  have hcount := h.pending
  have hsubmitted : peer.acked + j < peer.submitted.length := by omega
  have hbyte := h.byte hlt hsubmitted
  rw [h.tail, Nat.mod_add_mod] at hbyte
  rw [hbyte]
  split
  · rename_i hnext
    have hstream : peer.stream ++ [peer.submitted[peer.acked + j]] <+: peer.submitted := by
      refine List.prefix_iff_getElem.2 ⟨by simp; omega, fun n hn => ?_⟩
      rcases Nat.lt_or_ge n peer.stream.length with hold | hnew
      · rw [List.getElem_append_left hold]
        exact h.stream.getElem hold
      · rw [List.length_append, List.length_singleton] at hn
        obtain rfl : n = peer.acked + j := by omega
        simp [hnext]
    refine ⟨_, rfl, rfl, ?_⟩
    exact ⟨h.retains, h.room, h.submitted, hstream,
      h.acked_le.trans (by simp), fun n b hmem => by
        obtain ⟨hn, hb⟩ := List.getElem?_eq_some_iff.1 (h.again n b hmem)
        rw [List.getElem?_append_left hn, List.getElem?_eq_getElem hn, hb],
      h.head, h.submit, h.tail, h.pending, h.places⟩
  split
  · rename_i hold
    refine ⟨_, rfl, rfl, ?_⟩
    refine ⟨h.retains, h.room, h.submitted, h.stream, h.acked_le, ?_, h.head, h.submit, h.tail,
      h.pending, h.places⟩
    intro n b hmem
    rcases List.mem_append.1 hmem with hmem | hmem
    · exact h.again n b hmem
    · simp only [List.mem_singleton, Prod.mk.injEq] at hmem
      obtain ⟨rfl, rfl⟩ := hmem
      rw [List.getElem?_eq_getElem hold, h.stream.getElem hold]
  · exact ⟨peer, hpeer, rfl, h⟩

end Atoman.TcpStream
