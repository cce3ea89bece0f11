import Atoman.TcpStream.Delivery

/-!
# Sessions

A session is counted up when a connection is accepted and when it is retired. The connection
that is there belongs to the session, or to the one before it when it has been retired; and the
task stores nothing that the source has returned for another.
-/

namespace Atoman.TcpStream
open Lib (Memory Transition)

/-- What the task has from the source and has not stored; `none` when it gives that up. -/
def Pc.held : Pc → Option (List UInt8)
  | .checkConnected _ _ _ packet | .checkReset _ _ _ packet | .checkSession _ _ _ packet =>
    some packet
  | .retiring _ _ => none
  | _ => some []

/-- The room that the source was asked to fill. -/
def Pc.capacity : Pc → Option ℕ
  | .checkConnected _ _ capacity _ | .checkReset _ _ capacity _ | .checkSession _ _ capacity _ =>
    some capacity
  | _ => none

def Pc.current_session : Pc → Option ℕ
  | .batch _ current_session | .checkConnected _ current_session _ _
  | .checkReset _ current_session _ _ | .checkSession _ current_session _ _ => some current_session
  | _ => none

/-- The test of `connected` has been passed. -/
def Pc.tested : Pc → Bool
  | .checkReset .. | .checkSession .. => true
  | _ => false

/-- The poll serves the connection. -/
def Pc.serving : Pc → Bool
  | .gate | .starting | .batch .. | .checkConnected .. | .checkReset .. | .checkSession ..
  | .retiring .. | .output => true
  | _ => false

/-- The connection that is there, with the bytes that have been stored for it. -/
structure Live (s : Stream) (peer : Peer) (stored : List UInt8) : Prop where
  ring : Stored s peer stored
  session : s.session = if s.connected = true then peer.session else peer.session + 1
  kept : stored <+: returnedFor s.reads peer.session
  returned : ∀ packet, s.pc.held = some packet → s.session = peer.session →
    returnedFor s.reads peer.session = stored ++ packet
  capacity : ∀ c, s.pc.capacity = some c → c = s.capacity
  current : ∀ c, s.pc.current_session = some c → s.connected = true ∨ s.pc.tested = true →
    c = peer.session

/-- The sessions of all connections, the one that is there included. -/
def Stream.sessions (s : Stream) : List ℕ := (s.past ++ s.p_peer.toList).map Peer.session

/-- The sessions, and the connections that have ended. -/
structure Ledger (s : Stream) : Prop where
  reads : ∀ read ∈ s.reads, read.1 ≤ s.session
  sessions : ∀ n ∈ s.sessions, n ≤ s.session
  nodup : s.sessions.Nodup
  past : ∀ peer ∈ s.past, peer.Sound (returnedFor s.reads peer.session)

/-- Where the task can be. -/
structure Control (s : Stream) : Prop where
  accepting : s.pc = .accepting → s.p_peer = none
  serving : s.pc.serving = true → s.p_peer.isSome = true
  reset : s.pc.serving = true ∨ s.pc = .opening → s.reset_requested = true → s.connected = false

/-- The invariant of the runs. -/
structure Inv (s : Stream) : Prop where
  indices : Indices s
  live : ∀ peer, s.p_peer = some peer → ∃ stored, Live s peer stored
  ledger : Ledger s
  control : Control s

variable {s t : Stream} {peer : Peer} {stored : List UInt8}

theorem Live.sound (h : Live s peer stored) : peer.Sound (returnedFor s.reads peer.session) :=
  ⟨h.ring.submitted.trans h.kept, h.ring.stream, h.ring.again⟩

/-- The variables that the connection depends on are the same. -/
structure Same (s t : Stream) : Prop where
  ring : t.ring = s.ring
  head : t.head = s.head
  submit : t.submit = s.submit
  tail : t.tail = s.tail
  pending : t.pending = s.pending
  session : t.session = s.session
  connected : t.connected = s.connected
  reads : t.reads = s.reads

/-- The task goes on. -/
theorem Live.goto (h : Live s peer stored) (hsame : Same s t)
    (returned : ∀ packet, t.pc.held = some packet → s.session = peer.session →
      returnedFor s.reads peer.session = stored ++ packet)
    (capacity : ∀ c, t.pc.capacity = some c → c = s.capacity)
    (current : ∀ c, t.pc.current_session = some c → s.connected = true ∨ t.pc.tested = true →
      c = peer.session) : Live t peer stored := by
  obtain ⟨hring, hhead, hsubmit, htail, hpending, hsession, hconnected, hreads⟩ := hsame
  have hcapacity : t.capacity = s.capacity := by simp only [Stream.capacity, hhead, htail]
  refine ⟨h.ring.of_eq hring hhead hsubmit htail hpending, ?_, hreads ▸ h.kept, ?_, ?_, ?_⟩
  · rw [hsession, hconnected]
    exact h.session
  · rw [hsession, hreads]
    exact returned
  · rw [hcapacity]
    exact capacity
  · rw [hconnected]
    exact current

/-- The task goes on with nothing from the source, and had nothing or has no connection. -/
theorem Live.quiet (h : Live s peer stored) (hsame : Same s t)
    (hreturned : s.session = peer.session → s.pc.held = some [])
    (hheld : t.pc.held = some []) (hcapacity : t.pc.capacity = none)
    (hcurrent : t.pc.current_session = none) : Live t peer stored := by
  refine h.goto hsame ?_ ?_ ?_
  · intro packet hpacket hsession
    rw [hheld] at hpacket
    exact h.returned packet ((hreturned hsession).trans hpacket) hsession
  · simp [hcapacity]
  · simp [hcurrent]

/-- `retire`; the task is where it was, or behind it. -/
theorem Live.retire (h : Live s peer stored) (error : ℕ) : Live (s.retire error) peer stored := by
  have hsession : (s.retire error).session = peer.session + 1 := by
    have := h.session
    unfold Stream.retire
    split <;> simp_all
  refine ⟨h.ring.of_eq rfl rfl rfl rfl rfl, by rw [hsession]; rfl, h.kept, ?_, h.capacity, ?_⟩
  · intro packet _ heq
    omega
  · rintro c hc (hconnected | htested)
    · cases hconnected
    · exact h.current c hc (.inr htested)

/-- No connection is there that is served, if none is connected. -/
theorem Live.session_ne (h : Live s peer stored) (hconnected : s.connected = false) :
    s.session ≠ peer.session := by
  rw [h.session, hconnected]
  simp

theorem Ledger.of_eq (h : Ledger s) (hreads : t.reads = s.reads)
    (hsessions : t.sessions = s.sessions)
    (hpast : t.past = s.past) (hle : s.session ≤ t.session) : Ledger t :=
  ⟨fun read hread => (h.reads read (hreads ▸ hread)).trans hle,
    fun n hn => (h.sessions n (hsessions ▸ hn)).trans hle, hsessions ▸ h.nodup,
    fun peer hpeer => hreads ▸ h.past peer (hpast ▸ hpeer)⟩

/-- A batch submits what is stored. -/
theorem Live.write (h : Live s peer stored) (hpeer : s.p_peer = some peer)
    {batch current_session : ℕ}
    (hreturned : s.session = peer.session → returnedFor s.reads peer.session = stored)
    (hcurrent : s.connected = true → current_session = peer.session) (a : Answer) :
    ∃ peer', (s.write batch current_session a).p_peer = some peer' ∧
      peer'.session = peer.session ∧ Live (s.write batch current_session a) peer' stored := by
  rcases s.write_cases batch current_session a with heq | ⟨code, heq⟩ | ⟨length, hne, hle, heq⟩
  · rw [heq]
    refine ⟨peer, hpeer, rfl, h.goto ⟨rfl, rfl, rfl, rfl, rfl, rfl, rfl, rfl⟩ ?_
      (fun _ hno => by cases hno) fun _ hno => by cases hno⟩
    rintro packet ⟨⟩ hsession
    rw [hreturned hsession, List.append_nil]
  · rw [heq]
    exact ⟨peer, hpeer, rfl, h.goto ⟨rfl, rfl, rfl, rfl, rfl, rfl, rfl, rfl⟩
      (fun _ hno => by cases hno) (fun _ hno => by cases hno) fun _ hno => by cases hno⟩
  · obtain ⟨hstored, hring⟩ := h.ring.unsubmitted hne hle
    rw [heq, Stream.submitBytes, hpeer]
    refine ⟨_, rfl, rfl, h.ring.submits hstored hring rfl rfl rfl rfl rfl, h.session, h.kept, ?_,
      (fun _ hno => by cases hno), ?_⟩
    · rintro packet ⟨⟩ hsession
      exact (hreturned hsession).trans (List.append_nil _).symm
    · rintro c ⟨⟩ (hconnected | hfalse)
      · exact hcurrent hconnected
      · cases hfalse

/-- The bytes that the source has returned are stored. -/
theorem Live.store (h : Live s peer stored) {packet : List UInt8}
    (hlen : packet.length ≤ s.capacity)
    (hreturned : returnedFor s.reads peer.session = stored ++ packet) :
    Live { s.store packet with pc := .output } peer (stored ++ packet) := by
  refine ⟨(h.ring.store hlen).of_eq rfl rfl rfl rfl rfl, h.session, hreturned ▸ List.prefix_rfl, ?_,
    nofun, nofun⟩
  rintro rest ⟨⟩ _
  rw [List.append_nil]
  exact hreturned

/-- The source returns bytes. -/
theorem Live.read (h : Live s peer stored) {batch current_session : ℕ} {data : List UInt8}
    (hreturned : s.session = peer.session → returnedFor s.reads peer.session = stored)
    (hcurrent : s.connected = true → current_session = peer.session) :
    Live
      { s with
        reads := s.reads ++ [(s.session, data)]
        pc := .checkConnected batch current_session s.capacity data } peer stored := by
  refine ⟨h.ring.of_eq rfl rfl rfl rfl rfl, h.session,
    h.kept.trans (prefix_returnedFor_append _ _ _ _), ?_, ?_, ?_⟩
  · rintro packet ⟨⟩ hsession
    dsimp only at hsession ⊢
    rw [returnedFor_append, if_pos hsession, hreturned hsession]
  · rintro c ⟨⟩
    rfl
  · rintro c ⟨⟩ (hconnected | hfalse)
    · exact hcurrent hconnected
    · cases hfalse

theorem Stream.write_goto (s : Stream) (pc : Pc) (batch current_session : ℕ) (a : Answer) :
    ({ s with pc := pc } : Stream).write batch current_session a =
      s.write batch current_session a := by
  unfold Stream.write
  rfl

/-- The connection is there, and has what is stored for it. -/
def Lives (session : ℕ) (t : Stream) : Prop :=
  ∃ peer stored, t.p_peer = some peer ∧ peer.session = session ∧ Live t peer stored

/-- What the source has returned is stored, if nothing is in hand. -/
theorem Live.returned_nil (h : Live s peer stored) (hheld : s.pc.held = some [])
    (hsession : s.session = peer.session) : returnedFor s.reads peer.session = stored :=
  (h.returned [] hheld hsession).trans (List.append_nil _)

/-- A batch is due, or not. -/
theorem Stream.start_cases (s : Stream) (a : Answer) :
    s.start a = { s with last_batch_ms := a.now_ms, pc := .batch 0 s.session } ∨
      s.start a = { s with pc := .output } := by
  unfold Stream.start
  exact ite_eq_or_eq _ _ _

theorem Live.start (h : Live s peer stored) (hpeer : s.p_peer = some peer) (a : Answer)
    (hheld : s.pc.held = some []) : Lives peer.session (s.start a) := by
  rcases s.start_cases a with heq | heq <;> rw [heq]
  · refine ⟨peer, stored, hpeer, rfl, h.goto ⟨rfl, rfl, rfl, rfl, rfl, rfl, rfl, rfl⟩ ?_ nofun ?_⟩
    · rintro packet ⟨⟩ hsession
      exact h.returned [] hheld hsession
    · rintro c ⟨⟩ (hconnected | hfalse)
      · rw [h.session, if_pos hconnected]
      · cases hfalse
  · exact ⟨peer, stored, hpeer, rfl, h.quiet ⟨rfl, rfl, rfl, rfl, rfl, rfl, rfl, rfl⟩
      (fun _ => hheld) rfl rfl rfl⟩

/-- One of the tests behind the source is passed. -/
theorem Live.pass (h : Live s peer stored) (hpeer : s.p_peer = some peer)
    {batch current_session capacity : ℕ} {packet : List UInt8} {pc : Pc}
    (hheld : s.pc.held = some packet) (hcapacity : s.pc.capacity = some capacity)
    (hcurrent : current_session = peer.session)
    (hpc : pc = .checkReset batch current_session capacity packet ∨
      pc = .checkSession batch current_session capacity packet) :
    Lives peer.session { s with pc := pc } := by
  refine ⟨peer, stored, hpeer, rfl, h.goto ⟨rfl, rfl, rfl, rfl, rfl, rfl, rfl, rfl⟩ ?_ ?_ ?_⟩
  · intro rest hrest
    rcases hpc with rfl | rfl <;> cases hrest <;> exact h.returned packet hheld
  · intro c hc
    rcases hpc with rfl | rfl <;> cases hc <;> exact h.capacity _ hcapacity
  · intro c hc _
    rcases hpc with rfl | rfl <;> cases hc <;> exact hcurrent

/-- The last of the tests behind the source. -/
theorem Live.checkSession (h : Live s peer stored) (hpeer : s.p_peer = some peer)
    {batch current_session capacity : ℕ} {packet : List UInt8}
    (hpc : s.pc = .checkSession batch current_session capacity packet) (a : Answer) :
    Lives peer.session (s.step a) := by
  have hcurrent : current_session = peer.session :=
    h.current _ (by rw [hpc]; rfl) (.inr (by rw [hpc]; rfl))
  have hcapacity : capacity = s.capacity := h.capacity _ (by rw [hpc]; rfl)
  rw [Stream.step, hpc]
  dsimp only
  split_ifs with hsession hlong
  · refine ⟨peer, stored, hpeer, rfl, h.quiet ⟨rfl, rfl, rfl, rfl, rfl, rfl, rfl, rfl⟩
      (fun heq => ?_) rfl rfl rfl⟩
    rw [hcurrent, heq] at hsession
    exact absurd rfl hsession
  · exact ⟨peer, stored, hpeer, rfl,
      h.goto ⟨rfl, rfl, rfl, rfl, rfl, rfl, rfl, rfl⟩ nofun nofun nofun⟩
  · -- the session is the one of the connection, or the next
    have heq : s.session = peer.session := by
      have := h.session
      rw [hcurrent] at hsession
      split at this <;> omega
    have hreturned := h.returned packet (by rw [hpc]; rfl) heq
    obtain ⟨peer', hpeer', hsession', hlive⟩ :=
      (h.store (by omega) hreturned).write hpeer (fun _ => hreturned) (fun _ => hcurrent) a
    rw [Stream.write_goto] at hpeer' hlive
    exact ⟨peer', _, hpeer', hsession', hlive⟩

/-- A connection that is there is there after a step of the task. -/
theorem Live.step (h : Live s peer stored) (hpeer : s.p_peer = some peer) (hcontrol : Control s)
    (a : Answer) : Lives peer.session (s.step a) := by
  have hgoto {t : Stream} (hpeer' : t.p_peer = some peer) (hsame : Same s t)
      (hreturned : s.session = peer.session → s.pc.held = some [])
      (hheld : t.pc.held = some []) (hcapacity : t.pc.capacity = none)
      (hcurrent : t.pc.current_session = none) : Lives peer.session t :=
    ⟨peer, stored, hpeer', rfl, h.quiet hsame hreturned hheld hcapacity hcurrent⟩
  cases hpc : s.pc with
  | rest =>
    rw [Stream.step, hpc]
    exact ⟨peer, stored, hpeer, rfl, h⟩
  | accepting =>
    rw [hcontrol.accepting hpc] at hpeer
    cases hpeer
  | clearing ready =>
    rw [Stream.step, hpc]
    refine hgoto hpeer ⟨rfl, rfl, rfl, rfl, rfl, rfl, rfl, rfl⟩ (fun _ => by rw [hpc]; rfl) ?_ ?_ ?_
    all_goals cases ready <;> rfl
  | unready =>
    rw [Stream.step, hpc]
    dsimp only
    split
    all_goals
      exact hgoto hpeer ⟨rfl, rfl, rfl, rfl, rfl, rfl, rfl, rfl⟩ (fun _ => by rw [hpc]; rfl)
        rfl rfl rfl
  | closing =>
    rw [Stream.step, hpc]
    refine ⟨peer, stored, hpeer, rfl, (h.retire 3).quiet ⟨rfl, rfl, rfl, rfl, rfl, rfl, rfl, rfl⟩
      (fun _ => ?_) rfl rfl rfl⟩
    simp [Stream.retire, hpc, Pc.held]
  | opening =>
    rw [Stream.step, hpc]
    dsimp only
    unfold Stream.openListener
    split_ifs
    all_goals
      exact hgoto hpeer ⟨rfl, rfl, rfl, rfl, rfl, rfl, rfl, rfl⟩ (fun _ => by rw [hpc]; rfl)
        rfl rfl rfl
  | gate =>
    rw [Stream.step, hpc]
    refine hgoto hpeer ⟨rfl, rfl, rfl, rfl, rfl, rfl, rfl, rfl⟩ (fun _ => by rw [hpc]; rfl) ?_ ?_ ?_
    all_goals dsimp only; split <;> rfl
  | starting =>
    rw [Stream.step, hpc]
    exact h.start hpeer a (by rw [hpc]; rfl)
  | batch batch current_session =>
    have hheld : s.pc.held = some [] := by rw [hpc]; rfl
    have hcurrent : s.connected = true → current_session = peer.session :=
      fun hconnected => h.current _ (by rw [hpc]; rfl) (.inl hconnected)
    rw [Stream.step, hpc]
    dsimp only
    split_ifs
    · exact hgoto hpeer ⟨rfl, rfl, rfl, rfl, rfl, rfl, rfl, rfl⟩ (fun _ => hheld) rfl rfl rfl
    · exact ⟨peer, stored, hpeer, rfl, h.read (h.returned_nil hheld) hcurrent⟩
    · obtain ⟨peer', hpeer', hsession, hlive⟩ := h.write hpeer (h.returned_nil hheld) hcurrent a
      exact ⟨peer', stored, hpeer', hsession, hlive⟩
  | checkConnected batch current_session capacity packet =>
    rw [Stream.step, hpc]
    dsimp only
    split_ifs with hconnected
    · exact hgoto hpeer ⟨rfl, rfl, rfl, rfl, rfl, rfl, rfl, rfl⟩
        (fun hsession => absurd hsession (h.session_ne hconnected)) rfl rfl rfl
    · have hcurrent := h.current current_session (by rw [hpc]; rfl)
        (.inl (Bool.eq_true_of_not_eq_false hconnected))
      exact h.pass hpeer (by rw [hpc]; rfl) (by rw [hpc]; rfl) hcurrent (.inl rfl)
  | checkReset batch current_session capacity packet =>
    rw [Stream.step, hpc]
    dsimp only
    split_ifs with hreset
    · have hconnected := hcontrol.reset (.inl (by rw [hpc]; rfl)) hreset
      exact hgoto hpeer ⟨rfl, rfl, rfl, rfl, rfl, rfl, rfl, rfl⟩
        (fun hsession => absurd hsession (h.session_ne hconnected)) rfl rfl rfl
    · have hcurrent := h.current current_session (by rw [hpc]; rfl) (.inr (by rw [hpc]; rfl))
      exact h.pass hpeer (by rw [hpc]; rfl) (by rw [hpc]; rfl) hcurrent (.inr rfl)
  | checkSession batch current_session capacity packet => exact h.checkSession hpeer hpc a
  | retiring error output =>
    rw [Stream.step, hpc]
    refine ⟨peer, stored, hpeer, rfl, (h.retire error).quiet
      ⟨rfl, rfl, rfl, rfl, rfl, rfl, rfl, rfl⟩
      (fun heq => absurd heq ((h.retire error).session_ne rfl)) ?_ ?_ ?_⟩
    all_goals cases output <;> rfl
  | output =>
    rw [Stream.step, hpc]
    exact hgoto hpeer ⟨rfl, rfl, rfl, rfl, rfl, rfl, rfl, rfl⟩ (fun _ => by rw [hpc]; rfl)
      rfl rfl rfl

/-- The source returns bytes to the task. -/
theorem Ledger.read (h : Ledger s) {data : List UInt8}
    (hreads : t.reads = s.reads ++ [(s.session, data)]) (hsessions : t.sessions = s.sessions)
    (hpast : t.past = s.past) (hsession : t.session = s.session) : Ledger t := by
  refine ⟨?_, fun n hn => hsession ▸ h.sessions n (hsessions ▸ hn), hsessions ▸ h.nodup, ?_⟩
  · intro read hread
    rw [hreads, List.mem_append, List.mem_singleton] at hread
    rw [hsession]
    rcases hread with hread | rfl
    · exact h.reads read hread
    · exact le_rfl
  · intro peer hpeer
    rw [hreads]
    exact (h.past peer (hpast ▸ hpeer)).mono (prefix_returnedFor_append _ _ _ _)

/-- The connection ends. -/
theorem Ledger.endPeer (h : Ledger s)
    (hlive : ∀ peer, s.p_peer = some peer → peer.Sound (returnedFor s.reads peer.session)) :
    Ledger s.endPeer := by
  have hsessions : s.endPeer.sessions = s.sessions := by
    simp [Stream.sessions, Stream.endPeer]
  refine ⟨h.reads, hsessions ▸ h.sessions, hsessions ▸ h.nodup, fun peer hpeer => ?_⟩
  rcases List.mem_append.1 hpeer with hpast | hpeer
  · exact h.past peer hpast
  · exact hlive peer (Option.mem_toList.1 hpeer)

/-- A connection is accepted, in a session of its own. -/
theorem Ledger.accept (h : Ledger s) (hpeer : s.p_peer = none) : Ledger s.accept := by
  have hsessions : s.accept.sessions = s.sessions ++ [s.session + 1] := by
    simp [Stream.sessions, Stream.accept, hpeer]
  refine ⟨fun read hread => (h.reads read hread).trans (Nat.le_succ _), ?_, ?_, h.past⟩
  · intro n hn
    rw [hsessions, List.mem_append, List.mem_singleton] at hn
    rcases hn with hn | rfl
    · exact (h.sessions n hn).trans (Nat.le_succ _)
    · exact le_rfl
  · rw [hsessions, List.nodup_append]
    refine ⟨h.nodup, List.nodup_singleton _, fun n hn m hm => ?_⟩
    rw [List.mem_singleton] at hm
    have := h.sessions n hn
    omega

theorem Live.accept (h : Ledger s) (now_ms : ℕ) :
    Lives (s.session + 1) { s.accept with last_batch_ms := now_ms, pc := .rest } := by
  have hnone : returnedFor s.reads (s.session + 1) = [] := by
    have hfilter : s.reads.filter (fun read => read.1 = s.session + 1) = [] := by
      refine List.filter_eq_nil_iff.2 fun read hread => ?_
      have := h.reads read hread
      simp only [decide_eq_true_eq]
      omega
    rw [returnedFor, hfilter]
    rfl
  refine ⟨_, [], rfl, rfl, Stored.empty rfl rfl rfl rfl _, rfl, List.nil_prefix, ?_,
    (fun _ hno => by cases hno), fun _ hno => by cases hno⟩
  rintro packet ⟨⟩ _
  exact hnone

theorem Stream.sessions_write (s : Stream) (batch current_session : ℕ) (a : Answer) :
    (s.write batch current_session a).sessions = s.sessions := by
  rcases s.write_cases batch current_session a with heq | ⟨code, heq⟩ | ⟨length, _, _, heq⟩
  · rw [heq]
    rfl
  · rw [heq]
    rfl
  · rw [heq]
    cases hpeer : s.p_peer <;> simp [Stream.sessions, Stream.submitBytes, hpeer]

theorem Stream.le_session_retire (s : Stream) (error : ℕ) :
    s.session ≤ (s.retire error).session := by
  unfold Stream.retire
  dsimp only
  split
  · exact Nat.le_succ _
  · exact le_rfl

theorem Ledger.write (h : Ledger s) (batch current_session : ℕ) (a : Answer) :
    Ledger (s.write batch current_session a) := by
  have hsessions := s.sessions_write batch current_session a
  rcases s.write_cases batch current_session a with heq | ⟨code, heq⟩ | ⟨length, _, _, heq⟩ <;>
    rw [heq] at hsessions ⊢ <;> exact h.of_eq rfl hsessions rfl le_rfl

/-- A step of the task that accepts no connection. -/
theorem Ledger.step (h : Ledger s) (hne : s.pc ≠ .accepting) (a : Answer) : Ledger (s.step a) := by
  have hsame {t : Stream} (hreads : t.reads = s.reads) (hpeer : t.p_peer = s.p_peer)
      (hpast : t.past = s.past) (hle : s.session ≤ t.session) : Ledger t :=
    h.of_eq hreads (by rw [Stream.sessions, Stream.sessions, hpeer, hpast]) hpast hle
  unfold Stream.step
  split
  case h_2 hpc => exact absurd hpc hne
  case h_5 => exact hsame rfl rfl rfl (s.le_session_retire 3)
  case h_6 =>
    unfold Stream.openListener
    split_ifs <;> exact hsame rfl rfl rfl le_rfl
  case h_8 =>
    rcases s.start_cases a with heq | heq <;> rw [heq] <;> exact hsame rfl rfl rfl le_rfl
  case h_9 =>
    split_ifs
    · exact hsame rfl rfl rfl le_rfl
    · exact h.read rfl rfl rfl rfl
    · exact h.write _ _ _
  case h_12 batch current_session capacity packet hpc =>
    split_ifs
    · exact hsame rfl rfl rfl le_rfl
    · exact hsame rfl rfl rfl le_rfl
    · have hstore : Ledger (s.store packet) := hsame rfl rfl rfl le_rfl
      exact hstore.write _ _ _
  case h_13 error output hpc => exact hsame rfl rfl rfl (s.le_session_retire error)
  all_goals
    first
    | exact hsame rfl rfl rfl le_rfl
    | split <;> exact hsame rfl rfl rfl le_rfl

/-- The task is neither in a poll behind the clearing nor in `accepted`. -/
theorem Control.idle (haccepting : t.pc ≠ .accepting) (hserving : t.pc.serving = false)
    (hopening : t.pc ≠ .opening) : Control t := by
  refine ⟨fun h => absurd h haccepting, fun h => ?_, fun h => ?_⟩
  · rw [hserving] at h
    cases h
  · rcases h with h | h
    · rw [hserving] at h
      cases h
    · exact absurd h hopening

/-- The poll goes on. -/
theorem Control.serve (hserving : t.pc.serving = true) (hpeer : t.p_peer.isSome = true)
    (hreset : t.reset_requested = true → t.connected = false) : Control t := by
  refine ⟨fun h => ?_, fun _ => hpeer, fun _ => hreset⟩
  rw [h] at hserving
  cases hserving

theorem Control.write (hpeer : s.p_peer.isSome = true)
    (hreset : s.reset_requested = true → s.connected = false) (batch current_session : ℕ)
    (a : Answer) : Control (s.write batch current_session a) := by
  rcases s.write_cases batch current_session a with heq | ⟨code, heq⟩ | ⟨length, _, _, heq⟩
  · rw [heq]
    exact Control.serve rfl hpeer hreset
  · rw [heq]
    exact Control.serve rfl hpeer hreset
  · rw [heq]
    exact Control.serve rfl (by rw [Stream.submitBytes, Option.isSome_map, hpeer]) hreset

theorem Control.step (h : Control s) (a : Answer) : Control (s.step a) := by
  have hpeer (hserving : s.pc.serving = true) : s.p_peer.isSome = true := h.serving hserving
  have hreset (hserving : s.pc.serving = true) : s.reset_requested = true → s.connected = false :=
    h.reset (.inl hserving)
  unfold Stream.step
  split
  case h_1 => exact h
  case h_2 => exact Control.idle nofun rfl nofun
  case h_3 ready hpc =>
    cases ready
    · exact Control.idle nofun rfl nofun
    · exact ⟨nofun, nofun, nofun⟩
  case h_4 => split <;> exact Control.idle nofun rfl nofun
  case h_5 => exact Control.idle nofun rfl nofun
  case h_6 hpc =>
    unfold Stream.openListener
    split_ifs with _ _ hnone
    · exact Control.idle nofun rfl nofun
    · exact Control.idle nofun rfl nofun
    · exact Control.idle nofun rfl nofun
    · refine Control.serve rfl ?_ (h.reset (.inr hpc))
      cases hsome : s.p_peer
      · exact absurd (.inr (by rw [hsome]; rfl)) hnone
      · rfl
  case h_7 hpc =>
    have hserving : s.pc.serving = true := by rw [hpc]; rfl
    split
    · exact Control.idle nofun rfl nofun
    · exact Control.serve rfl (hpeer hserving) (hreset hserving)
  case h_8 hpc =>
    have hserving : s.pc.serving = true := by rw [hpc]; rfl
    rcases s.start_cases a with heq | heq <;> rw [heq] <;>
      exact Control.serve rfl (hpeer hserving) (hreset hserving)
  case h_9 hpc =>
    have hserving : s.pc.serving = true := by rw [hpc]; rfl
    split_ifs
    · exact Control.serve rfl (hpeer hserving) (hreset hserving)
    · exact Control.serve rfl (hpeer hserving) (hreset hserving)
    · exact Control.write (hpeer hserving) (hreset hserving) _ _ _
  case h_10 hpc =>
    have hserving : s.pc.serving = true := by rw [hpc]; rfl
    split
    · exact Control.idle nofun rfl nofun
    · exact Control.serve rfl (hpeer hserving) (hreset hserving)
  case h_11 hpc =>
    have hserving : s.pc.serving = true := by rw [hpc]; rfl
    split
    · exact Control.idle nofun rfl nofun
    · exact Control.serve rfl (hpeer hserving) (hreset hserving)
  case h_12 hpc =>
    have hserving : s.pc.serving = true := by rw [hpc]; rfl
    split_ifs
    · exact Control.idle nofun rfl nofun
    · exact Control.serve rfl (hpeer hserving) (hreset hserving)
    · exact Control.write (s := s.store _) (hpeer hserving) (hreset hserving) _ _ _
  case h_13 error output hpc =>
    have hserving : s.pc.serving = true := by rw [hpc]; rfl
    cases output
    · exact Control.idle nofun rfl nofun
    · exact Control.serve rfl (hpeer hserving) fun _ => rfl
  case h_14 => exact Control.idle nofun rfl nofun

end Atoman.TcpStream
