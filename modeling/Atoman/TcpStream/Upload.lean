import Atoman.TcpStream.Session

/-!
# The upload over all runs

Every peer is sent the bytes that the source has returned for its session, in their order and
without a gap, and a byte that lwIP still has stays as it was submitted.
-/

namespace Atoman.TcpStream
open Lib (Memory Transition)

variable {s t : Stream} {peer peer' : Peer} {stored : List UInt8}

/-- lwIP has done something to the connection. -/
theorem Live.of_stored (h : Live s peer stored) (hring : Stored t peer' stored)
    (hpeer : peer'.session = peer.session) (hsession : t.session = s.session)
    (hconnected : t.connected = s.connected) (hreads : t.reads = s.reads) (hpc : t.pc = s.pc)
    (hcapacity : ∀ c, s.pc.capacity = some c → t.capacity = s.capacity) : Live t peer' stored := by
  refine ⟨hring, ?_, ?_, ?_, ?_, ?_⟩
  · rw [hsession, hconnected, hpeer]
    exact h.session
  · rw [hreads, hpeer]
    exact h.kept
  · rw [hsession, hreads, hpeer, hpc]
    exact h.returned
  · intro c hc
    rw [hpc] at hc
    rw [hcapacity c hc]
    exact h.capacity c hc
  · rw [hpc, hconnected, hpeer]
    exact h.current

/-- The invariant, for a connection that is there. -/
theorem Inv.of_lives {session : ℕ} (h : Lives session t) (ledger : Ledger t) (control : Control t) :
    Inv t := by
  obtain ⟨peer, stored, hpeer, -, hlive⟩ := h
  refine ⟨hlive.ring.indices, fun other hother => ?_, ledger, control⟩
  rw [hpeer, Option.some.injEq] at hother
  exact ⟨stored, hother ▸ hlive⟩

/-- The invariant, when no connection is there. -/
theorem Inv.of_none (hpeer : t.p_peer = none) (indices : Indices t) (ledger : Ledger t)
    (control : Control t) : Inv t :=
  ⟨indices, fun _ h => (nomatch hpeer.symm.trans h), ledger, control⟩

theorem Indices.of_eq (h : Indices s) (hhead : t.head = s.head) (hsubmit : t.submit = s.submit)
    (htail : t.tail = s.tail) (hpending : t.pending = s.pending) : Indices t := by
  obtain ⟨head, submit, tail, pending_lt, pending⟩ := h
  constructor
  · rwa [hhead]
  · rwa [hsubmit]
  · rwa [htail]
  · rwa [hpending]
  · rwa [hpending, hsubmit, htail]

theorem Indices.zero (hhead : t.head = 0) (hsubmit : t.submit = 0) (htail : t.tail = 0)
    (hpending : t.pending = 0) : Indices t := by
  constructor <;> simp [hhead, hsubmit, htail, hpending]

/-- Where no connection is served and none is accepted, the indices stay. -/
theorem Stream.step_idle (hserving : s.pc.serving = false) (hne : s.pc ≠ .accepting) (a : Answer) :
    (s.step a).p_peer = s.p_peer ∧ (s.step a).head = s.head ∧ (s.step a).submit = s.submit ∧
      (s.step a).tail = s.tail ∧ (s.step a).pending = s.pending := by
  unfold Stream.step
  split
  case h_2 hpc => exact absurd hpc hne
  case h_4 => split <;> exact ⟨rfl, rfl, rfl, rfl, rfl⟩
  case h_6 =>
    unfold Stream.openListener
    split_ifs <;> exact ⟨rfl, rfl, rfl, rfl, rfl⟩
  all_goals
    first
    | exact ⟨rfl, rfl, rfl, rfl, rfl⟩
    | simp_all [Pc.serving]

/-- A step of the task. -/
theorem Inv.step (h : Inv s) (a : Answer) : Inv (s.step a) := by
  by_cases haccepting : s.pc = .accepting
  · have hlive := Live.accept h.ledger a.now_ms
    have hledger : Ledger { s.accept with last_batch_ms := a.now_ms, pc := .rest } :=
      (h.ledger.accept (h.control.accepting haccepting)).of_eq rfl rfl rfl le_rfl
    have hcontrol := h.control.step a
    rw [Stream.step, haccepting] at hcontrol ⊢
    exact Inv.of_lives hlive hledger hcontrol
  have hledger := h.ledger.step haccepting a
  have hcontrol := h.control.step a
  cases hpeer : s.p_peer with
  | none =>
    have hserving : s.pc.serving = false := by
      by_contra hserving
      have := h.control.serving (Bool.eq_true_of_not_eq_false hserving)
      rw [hpeer] at this
      cases this
    obtain ⟨hpeer', hhead, hsubmit, htail, hpending⟩ := Stream.step_idle hserving haccepting a
    exact Inv.of_none (hpeer'.trans hpeer) (h.indices.of_eq hhead hsubmit htail hpending) hledger
      hcontrol
  | some peer =>
    obtain ⟨stored, hlive⟩ := h.live peer hpeer
    exact Inv.of_lives (hlive.step hpeer h.control a) hledger hcontrol

theorem Inv.retire (h : Inv s) (error : ℕ) : Inv (s.retire error) := by
  have hledger : Ledger (s.retire error) := h.ledger.of_eq rfl rfl rfl (s.le_session_retire error)
  have hcontrol : Control (s.retire error) :=
    ⟨h.control.accepting, h.control.serving, fun _ _ => rfl⟩
  exact ⟨h.indices.of_eq rfl rfl rfl rfl, fun peer hpeer =>
    (h.live peer hpeer).imp fun _ hlive => hlive.retire error, hledger, hcontrol⟩

theorem Inv.endPeer (h : Inv s) (hpc : s.pc = .rest) : Inv s.endPeer := by
  refine Inv.of_none rfl (h.indices.of_eq rfl rfl rfl rfl)
    (h.ledger.endPeer fun peer hpeer => ?_) ?_
  · obtain ⟨stored, hlive⟩ := h.live peer hpeer
    exact hlive.sound
  · exact Control.idle (by simp [Stream.endPeer, hpc]) (by simp [Stream.endPeer, hpc, Pc.serving])
      (by simp [Stream.endPeer, hpc])

/-- The connection goes on, and is the same one. -/
theorem Inv.proceed (h : Inv s) (hpeer : s.p_peer = some peer) (hpeer' : t.p_peer = some peer')
    (hid : peer'.session = peer.session)
    (hring : ∀ stored, Stored s peer stored → Stored t peer' stored)
    (hsession : t.session = s.session) (hconnected : t.connected = s.connected)
    (hreset : t.reset_requested = s.reset_requested) (hreads : t.reads = s.reads)
    (hpast : t.past = s.past) (hpc : t.pc = s.pc)
    (hcapacity : ∀ c, s.pc.capacity = some c → t.capacity = s.capacity) : Inv t := by
  obtain ⟨stored, hlive⟩ := h.live peer hpeer
  have hlives : Lives peer.session t :=
    ⟨peer', stored, hpeer', hid, hlive.of_stored (hring stored hlive.ring) hid hsession hconnected
      hreads hpc hcapacity⟩
  have hsessions : t.sessions = s.sessions := by
    simp [Stream.sessions, hpeer, hpeer', hpast, hid]
  refine Inv.of_lives hlives (h.ledger.of_eq hreads hsessions hpast hsession.ge) ⟨?_, ?_, ?_⟩
  · intro haccepting
    cases (h.control.accepting (hpc ▸ haccepting)).symm.trans hpeer
  · intro _
    rw [hpeer']
    rfl
  · rw [hpc, hreset, hconnected]
    exact h.control.reset

theorem Stream.transmit_eq (s : Stream) (j : ℕ) : ∃ p, s.transmit j = { s with p_peer := p } := by
  unfold Stream.transmit
  cases s.p_peer with
  | none => exact ⟨_, rfl⟩
  | some peer =>
    dsimp only
    split
    · exact ⟨_, rfl⟩
    · split_ifs <;> exact ⟨_, rfl⟩

theorem Inv.transmit (h : Inv s) (j : ℕ) : Inv (s.transmit j) := by
  cases hpeer : s.p_peer with
  | none =>
    rw [Stream.transmit, hpeer]
    exact h
  | some peer =>
    obtain ⟨stored, hlive⟩ := h.live peer hpeer
    obtain ⟨peer', hpeer', hid, -⟩ := hlive.ring.transmit hpeer j
    obtain ⟨p, heq⟩ := s.transmit_eq j
    refine h.proceed hpeer hpeer' hid (fun stored hring => ?_) ?_ ?_ ?_ ?_ ?_ ?_ ?_
    · obtain ⟨other, hother, -, hstored⟩ := hring.transmit hpeer j
      rw [hpeer', Option.some.injEq] at hother
      exact hother ▸ hstored
    all_goals simp [heq, Stream.capacity]

theorem Stream.acknowledge_eq (s : Stream) (length : ℕ) :
    ∃ p tail pending, s.acknowledge length =
      { s with p_peer := p, tail := tail, pending := pending } := by
  unfold Stream.acknowledge
  cases s.p_peer with
  | none => exact ⟨_, _, _, rfl⟩
  | some peer =>
    dsimp only
    split_ifs <;> exact ⟨_, _, _, rfl⟩

theorem Inv.acknowledge (h : Inv s) (hpc : s.pc = .rest) (length : ℕ) :
    Inv (s.acknowledge length) := by
  cases hpeer : s.p_peer with
  | none =>
    rw [Stream.acknowledge, hpeer]
    exact h
  | some peer =>
    obtain ⟨stored, hlive⟩ := h.live peer hpeer
    obtain ⟨peer', hpeer', hid, -⟩ := hlive.ring.acknowledge hpeer length
    obtain ⟨p, tail, pending, heq⟩ := s.acknowledge_eq length
    refine h.proceed hpeer hpeer' hid (fun stored hring => ?_) ?_ ?_ ?_ ?_ ?_ ?_ ?_
    · obtain ⟨other, hother, -, hstored⟩ := hring.acknowledge hpeer length
      rw [hpeer', Option.some.injEq] at hother
      exact hother ▸ hstored
    all_goals simp [heq, hpc, Pc.capacity]

theorem Inv.poll (h : Inv s) (hpc : s.pc = .rest) (ready : Bool) : Inv (s.poll ready) := by
  unfold Stream.poll
  split_ifs with hclear
  · exact Inv.of_none rfl (Indices.zero rfl rfl rfl rfl)
      ((h.endPeer hpc).ledger.of_eq rfl rfl rfl le_rfl) (Control.idle nofun rfl nofun)
  · have hreset : s.reset_requested = false := by
      by_contra hreset
      exact hclear (.inl (Bool.eq_true_of_not_eq_false hreset))
    have hcontrol : Control { s with pc := .opening } :=
      ⟨nofun, nofun, fun _ htrue => by rw [hreset] at htrue; cases htrue⟩
    refine ⟨h.indices.of_eq rfl rfl rfl rfl, fun peer hpeer => ?_,
      h.ledger.of_eq rfl rfl rfl le_rfl, hcontrol⟩
    obtain ⟨stored, hlive⟩ := h.live peer hpeer
    exact ⟨stored, hlive.quiet ⟨rfl, rfl, rfl, rfl, rfl, rfl, rfl, rfl⟩ (fun _ => by rw [hpc]; rfl)
      rfl rfl rfl⟩

theorem Inv.configure (h : Inv s) (port : ℕ) : Inv { s with listen_port := port } :=
  ⟨h.indices.of_eq rfl rfl rfl rfl, fun peer hpeer => (h.live peer hpeer).imp fun _ hlive =>
    ⟨hlive.ring.of_eq rfl rfl rfl rfl rfl, hlive.session, hlive.kept, hlive.returned,
      hlive.capacity, hlive.current⟩,
    h.ledger.of_eq rfl rfl rfl le_rfl,
    ⟨h.control.accepting, h.control.serving, h.control.reset⟩⟩

theorem Inv.accepted (h : Inv s) (hpeer : s.p_peer = none) : Inv { s with pc := .accepting } :=
  Inv.of_none hpeer (h.indices.of_eq rfl rfl rfl rfl) (h.ledger.of_eq rfl rfl rfl le_rfl)
    ⟨fun _ => hpeer, nofun, nofun⟩

/-- One step of a run. -/
theorem Inv.exec (h : Inv s) (event : Event) : Inv (s.exec event) := by
  have hrest (hat : s.atRest = true) : s.pc = .rest := by
    unfold Stream.atRest at hat
    split at hat
    · assumption
    · cases hat
  cases event with
  | step a => exact h.step a
  | reset => exact h.retire 0
  | transmit j => exact h.transmit j
  | configure port =>
    unfold Stream.exec
    dsimp only
    split
    · exact h
    · exact h.configure port
  | poll ready =>
    unfold Stream.exec
    dsimp only
    split
    · exact h.poll (hrest ‹_›) ready
    · exact h
  | accepted error =>
    unfold Stream.exec
    dsimp only
    split_ifs with _ hbusy
    · exact h
    · exact h
    · refine h.accepted (Option.not_isSome_iff_eq_none.1 fun hsome => hbusy (.inl hsome))
  | acknowledged length =>
    unfold Stream.exec
    dsimp only
    split
    · exact h.acknowledge (hrest ‹_›) length
    · exact h
  | received error =>
    unfold Stream.exec
    dsimp only
    split
    · exact (h.retire error).endPeer (hrest (And.left ‹_›))
    · exact h
  | failed error =>
    unfold Stream.exec
    dsimp only
    split
    · exact (h.endPeer (hrest (And.left ‹_›))).retire error
    · exact h

theorem inv_powerUp : Inv .powerUp := by
  refine Inv.of_none rfl (Indices.zero rfl rfl rfl rfl) ⟨?_, ?_, ?_, ?_⟩
    (Control.idle nofun rfl nofun)
  all_goals simp [Stream.powerUp, Stream.sessions]

theorem inv_of_reachable (h : streamRuns.Reachable s) : Inv s :=
  h.invariant (fun _ hinit => hinit ▸ inv_powerUp) fun _ _ hs ⟨event, heq⟩ => heq ▸ hs.exec event

theorem Inv.sound (h : Inv s) (hpeer : peer ∈ s.past ++ s.p_peer.toList) :
    peer.Sound (returnedFor s.reads peer.session) := by
  rcases List.mem_append.1 hpeer with hpast | hlive
  · exact h.ledger.past peer hpast
  · obtain ⟨stored, hlive⟩ := h.live peer (Option.mem_toList.1 hlive)
    exact hlive.sound

/-- What the peers are sent, and how the bytes lie in the ring. The bytes of the connection that
is there are stored up to the head, which is less than the ring in front of the tail. -/
theorem upload_in_order (hs : streamRuns.Reachable s) :
    (∀ peer ∈ s.past ++ s.p_peer.toList,
      peer.stream <+: returnedFor s.reads peer.session ∧
        peer.submitted <+: returnedFor s.reads peer.session ∧
        ∀ n b, (n, b) ∈ peer.again → peer.stream[n]? = some b) ∧
    s.sessions.Nodup ∧
    s.pending = (s.submit + ringBytes - s.tail) % ringBytes ∧
    ∀ peer, s.p_peer = some peer →
      peer.acked + s.pending = peer.submitted.length ∧
      peer.places = (List.range s.pending).map (fun j => (s.tail + j) % ringBytes) ∧
      (∀ j < s.pending,
        some (s.ring ((s.tail + j) % ringBytes)) = peer.submitted[peer.acked + j]?) ∧
      ∃ stored, peer.submitted <+: stored ∧ stored <+: returnedFor s.reads peer.session ∧
        stored.length < peer.acked + ringBytes ∧ s.head = stored.length % ringBytes ∧
        s.submit = peer.submitted.length % ringBytes ∧ s.tail = peer.acked % ringBytes := by
  have h := inv_of_reachable hs
  refine ⟨fun peer hpeer => ?_, h.ledger.nodup, h.indices.pending, fun peer hpeer => ?_⟩
  · have hsound := h.sound hpeer
    exact ⟨hsound.stream.trans hsound.submitted, hsound.submitted, hsound.again⟩
  · obtain ⟨stored, hlive⟩ := h.live peer hpeer
    have hring := hlive.ring
    have hcount := hring.pending
    refine ⟨by omega, ?_, fun j hj => ?_, stored, hring.submitted, hlive.kept, hring.room,
      hring.head, hring.submit, hring.tail⟩
    · rw [hring.places, hring.tail]
      simp only [Nat.mod_add_mod]
    · have hlen : peer.acked + j < peer.submitted.length := by omega
      rw [hring.byte hj hlen, List.getElem?_eq_getElem]

def demoAnswer (data : List UInt8) : Answer := ⟨7, true, data, 1000, .ok⟩

/-- A connection is accepted, and the source returns three bytes and then none. -/
def demoUpload : Stream :=
  (([.configure 80, .poll true, .step (demoAnswer []), .accepted false, .step (demoAnswer []),
      .poll true] : List Event) ++
    List.replicate 3 (Event.step ⟨8, true, [], 1000, .ok⟩) ++
    [Event.step (demoAnswer [1, 2, 3])] ++
    List.replicate 8 (Event.step (demoAnswer [])) ++
    ([.transmit 0, .transmit 1, .transmit 0, .transmit 2, .acknowledged 2, .transmit 0] :
      List Event)).foldl Stream.exec .powerUp

theorem upload_three_bytes : ∃ peer, demoUpload.p_peer = some peer ∧ peer.acked = 2 ∧
    peer.again = [(0, 1), (2, 3)] ∧ peer.stream = [1, 2, 3] ∧
    peer.stream <+: returnedFor demoUpload.reads 1 := by
  have hs : streamRuns.Reachable demoUpload :=
    Transition.Reachable.foldl (T := streamRuns) (fun _ event => ⟨event, rfl⟩) _ (.start rfl)
  have hpeer : demoUpload.p_peer = some ⟨1, [2], 2, [1, 2, 3], [1, 2, 3], [(0, 1), (2, 3)]⟩ := by
    decide +kernel
  exact ⟨_, hpeer, rfl, rfl, rfl,
    ((upload_in_order hs).1 _ (List.mem_append_right _ (Option.mem_toList.2 hpeer))).1⟩

end Atoman.TcpStream
