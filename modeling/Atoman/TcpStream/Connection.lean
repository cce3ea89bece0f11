import Atoman.TcpStream.Upload

/-!
# The connection flag

`accepted` tests `reset_requested` in front of the region in which it sets `connected`. A reset
between the two is forgotten: the next poll clears the request and the connection, and
`connected` stays set. In the runs in which no reset falls there, the flag is right.
-/

namespace Atoman.TcpStream
open Lib (Transition)

/-- The runs in which no reset falls between the test and the region of `accepted`. -/
def quietAcceptRuns : Transition Stream where
  init := fun s => s = .powerUp
  next := fun s s' => ∃ event, (event = .reset → s.pc ≠ .accepting) ∧ s' = s.exec event

/-- A poll that is not ready has cleared the connection and not retired it yet. -/
def Pc.leaving : Pc → Bool
  | .clearing false | .unready | .closing => true
  | _ => false

/-- The flags. -/
structure Flags (s : Stream) : Prop where
  reset : s.reset_requested = true → s.connected = false
  accepting : s.pc = .accepting → s.reset_requested = false
  clearing : s.pc = .clearing true → s.connected = false
  connected : s.connected = true → s.pc.leaving = true ∨ s.p_peer.isSome = true

variable {s t : Stream} {peer : Peer}

theorem flags_powerUp : Flags .powerUp := ⟨nofun, nofun, nofun, nofun⟩

/-- A step of the task, except in `accepted` and in a poll that is not ready. -/
theorem Flags.of_eq (h : Flags s) (hreset : t.reset_requested = s.reset_requested)
    (hconnected : t.connected = s.connected) (hpeer : t.p_peer.isSome = s.p_peer.isSome)
    (haccepting : t.pc ≠ .accepting) (hclearing : t.pc ≠ .clearing true)
    (hleaving : s.pc.leaving = false) : Flags t := by
  refine ⟨?_, fun hpc => absurd hpc haccepting, fun hpc => absurd hpc hclearing, ?_⟩
  · rw [hreset, hconnected]
    exact h.reset
  · intro htrue
    rw [hconnected] at htrue
    rcases h.connected htrue with hpc | hsome
    · rw [hleaving] at hpc
      cases hpc
    · exact .inr (hpeer.trans hsome)

/-- Nothing is connected. -/
theorem Flags.of_disconnected (hconnected : t.connected = false) (haccepting : t.pc ≠ .accepting) :
    Flags t :=
  ⟨fun _ => hconnected, fun hpc => absurd hpc haccepting, fun _ => hconnected,
    fun htrue => nomatch hconnected.symm.trans htrue⟩

theorem Flags.write (h : Flags s) (hleaving : s.pc.leaving = false) (batch current_session : ℕ)
    (a : Answer) : Flags (s.write batch current_session a) := by
  rcases s.write_cases batch current_session a with heq | ⟨code, heq⟩ | ⟨length, _, _, heq⟩
  · rw [heq]
    exact h.of_eq rfl rfl rfl nofun nofun hleaving
  · rw [heq]
    exact h.of_eq rfl rfl rfl nofun nofun hleaving
  · rw [heq]
    exact h.of_eq rfl rfl Option.isSome_map nofun nofun hleaving

theorem Flags.step (h : Flags s) (a : Answer) : Flags (s.step a) := by
  unfold Stream.step
  split
  case h_1 => exact h
  case h_2 hpc =>
    refine ⟨fun htrue => ?_, nofun, nofun, fun _ => .inr rfl⟩
    exact nomatch (h.accepting hpc).symm.trans htrue
  case h_3 ready hpc =>
    cases ready with
    | true => exact Flags.of_disconnected (h.clearing hpc) nofun
    | false => exact ⟨nofun, nofun, nofun, fun _ => .inl rfl⟩
  case h_4 hpc =>
    split
    · exact ⟨h.reset, nofun, nofun, fun _ => .inl rfl⟩
    · exact Flags.of_disconnected (Bool.eq_false_of_not_eq_true ‹_›) nofun
  case h_5 => exact Flags.of_disconnected rfl nofun
  case h_6 hpc =>
    have hleaving : s.pc.leaving = false := by rw [hpc]; rfl
    unfold Stream.openListener
    split_ifs <;> exact h.of_eq rfl rfl rfl nofun nofun hleaving
  case h_7 hpc =>
    have hleaving : s.pc.leaving = false := by rw [hpc]; rfl
    split <;> exact h.of_eq rfl rfl rfl nofun nofun hleaving
  case h_8 hpc =>
    have hleaving : s.pc.leaving = false := by rw [hpc]; rfl
    rcases s.start_cases a with heq | heq <;> rw [heq] <;>
      exact h.of_eq rfl rfl rfl nofun nofun hleaving
  case h_9 hpc =>
    have hleaving : s.pc.leaving = false := by rw [hpc]; rfl
    split_ifs
    · exact h.of_eq rfl rfl rfl nofun nofun hleaving
    · exact h.of_eq rfl rfl rfl nofun nofun hleaving
    · exact h.write hleaving _ _ _
  case h_10 hpc =>
    have hleaving : s.pc.leaving = false := by rw [hpc]; rfl
    split <;> exact h.of_eq rfl rfl rfl nofun nofun hleaving
  case h_11 hpc =>
    have hleaving : s.pc.leaving = false := by rw [hpc]; rfl
    split <;> exact h.of_eq rfl rfl rfl nofun nofun hleaving
  case h_12 batch current_session capacity packet hpc =>
    have hleaving : s.pc.leaving = false := by rw [hpc]; rfl
    split_ifs
    · exact h.of_eq rfl rfl rfl nofun nofun hleaving
    · exact h.of_eq rfl rfl rfl nofun nofun hleaving
    · have hstore : Flags (s.store packet) := ⟨h.reset, h.accepting, h.clearing, h.connected⟩
      exact hstore.write hleaving _ _ _
  case h_13 error output hpc => exact Flags.of_disconnected rfl (by cases output <;> exact nofun)
  case h_14 hpc =>
    have hleaving : s.pc.leaving = false := by rw [hpc]; rfl
    exact h.of_eq rfl rfl rfl nofun nofun hleaving

theorem Stream.isSome_transmit (s : Stream) (j : ℕ) :
    (s.transmit j).p_peer.isSome = s.p_peer.isSome := by
  unfold Stream.transmit
  cases hpeer : s.p_peer with
  | none => rw [hpeer]
  | some peer =>
    dsimp only
    split
    · rw [hpeer]
    · split_ifs
      · rfl
      · rfl
      · rw [hpeer]

theorem Stream.isSome_acknowledge (s : Stream) (length : ℕ) :
    (s.acknowledge length).p_peer.isSome = s.p_peer.isSome := by
  unfold Stream.acknowledge
  cases hpeer : s.p_peer with
  | none => rw [hpeer]
  | some peer =>
    dsimp only
    split_ifs
    · rw [hpeer]
    · rfl
    · rfl

theorem Stream.atRest_iff : s.atRest = true ↔ s.pc = .rest := by
  unfold Stream.atRest
  split <;> simp_all

/-- The flags and the task are as they were. -/
theorem Flags.same (h : Flags s) (hreset : t.reset_requested = s.reset_requested)
    (hconnected : t.connected = s.connected) (hpeer : t.p_peer.isSome = s.p_peer.isSome)
    (hpc : t.pc = s.pc) : Flags t := by
  obtain ⟨reset, accepting, clearing, connected⟩ := h
  refine ⟨?_, ?_, ?_, ?_⟩
  · rwa [hreset, hconnected]
  · rwa [hpc, hreset]
  · rwa [hpc, hconnected]
  · rwa [hpc, hconnected, hpeer]

theorem Flags.poll (h : Flags s) (hpc : s.pc = .rest) (ready : Bool) : Flags (s.poll ready) := by
  have hleaving : s.pc.leaving = false := by rw [hpc]; rfl
  unfold Stream.poll
  split_ifs with hclear
  · cases ready with
    | false => exact ⟨h.reset, nofun, nofun, fun _ => .inl rfl⟩
    | true =>
      have hreset : s.reset_requested = true := hclear.resolve_right nofun
      exact Flags.of_disconnected (h.reset hreset) nofun
  · exact h.of_eq rfl rfl rfl nofun nofun hleaving

/-- One step of a run; a reset does not fall in `accepted`. -/
theorem Flags.exec (h : Flags s) {event : Event} (hreset : event = .reset → s.pc ≠ .accepting) :
    Flags (s.exec event) := by
  cases event with
  | step a => exact h.step a
  | reset => exact Flags.of_disconnected rfl (hreset rfl)
  | transmit j =>
    have hsome := s.isSome_transmit j
    obtain ⟨p, heq⟩ := s.transmit_eq j
    exact h.same (by rw [Stream.exec, heq]) (by rw [Stream.exec, heq]) hsome
      (by rw [Stream.exec, heq])
  | configure port =>
    unfold Stream.exec
    dsimp only
    split
    · exact h
    · exact h.same rfl rfl rfl rfl
  | poll ready =>
    unfold Stream.exec
    dsimp only
    split
    · exact h.poll (Stream.atRest_iff.1 ‹_›) ready
    · exact h
  | accepted error =>
    unfold Stream.exec
    dsimp only
    split_ifs with hrest hbusy
    · exact h
    · exact h
    · have hpc : s.pc = .rest := Stream.atRest_iff.1 (by simp_all)
      have hfalse : s.reset_requested = false := by simp_all
      refine ⟨h.reset, fun _ => hfalse, nofun, fun htrue => ?_⟩
      rcases h.connected htrue with hleaving | hsome
      · rw [hpc] at hleaving
        cases hleaving
      · exact .inr hsome
  | acknowledged length =>
    unfold Stream.exec
    dsimp only
    split
    · have hsome := s.isSome_acknowledge length
      obtain ⟨p, tail, pending, heq⟩ := s.acknowledge_eq length
      exact h.same (by rw [heq]) (by rw [heq]) hsome (by rw [heq])
    · exact h
  | received error =>
    unfold Stream.exec
    dsimp only
    split_ifs with hrest
    · refine Flags.of_disconnected rfl ?_
      show s.pc ≠ .accepting
      rw [Stream.atRest_iff.1 hrest.1]
      nofun
    · exact h
  | failed error =>
    unfold Stream.exec
    dsimp only
    split_ifs with hrest
    · refine Flags.of_disconnected rfl ?_
      show s.pc ≠ .accepting
      rw [Stream.atRest_iff.1 hrest.1]
      nofun
    · exact h

theorem Stream.session_write (s : Stream) (batch current_session : ℕ) (a : Answer) :
    (s.write batch current_session a).session = s.session := by
  rcases s.write_cases batch current_session a with heq | ⟨code, heq⟩ | ⟨length, _, _, heq⟩
  all_goals rw [heq]
  rfl

theorem Stream.le_session_step (s : Stream) (a : Answer) : s.session ≤ (s.step a).session := by
  unfold Stream.step
  split
  case h_2 => exact Nat.le_succ _
  case h_5 => exact s.le_session_retire 3
  case h_6 =>
    unfold Stream.openListener
    split_ifs <;> exact le_rfl
  case h_8 =>
    rcases s.start_cases a with heq | heq <;> rw [heq]
  case h_9 =>
    split_ifs
    · exact le_rfl
    · exact le_rfl
    · rw [Stream.session_write]
  case h_12 batch current_session capacity packet hpc =>
    split_ifs
    · exact le_rfl
    · exact le_rfl
    · rw [Stream.session_write]
      exact le_rfl
  case h_13 error output hpc => exact s.le_session_retire error
  all_goals
    first
    | exact le_rfl
    | split <;> exact le_rfl

/-- A session is never taken back. -/
theorem Stream.le_session_exec (s : Stream) (event : Event) :
    s.session ≤ (s.exec event).session := by
  cases event with
  | step a => exact s.le_session_step a
  | reset => exact s.le_session_retire 0
  | transmit j =>
    obtain ⟨p, heq⟩ := s.transmit_eq j
    rw [Stream.exec, heq]
  | acknowledged length =>
    obtain ⟨p, tail, pending, heq⟩ := s.acknowledge_eq length
    unfold Stream.exec
    dsimp only
    split
    · rw [heq]
    · exact le_rfl
  | configure port =>
    unfold Stream.exec
    dsimp only
    split <;> exact le_rfl
  | poll ready =>
    unfold Stream.exec Stream.poll
    dsimp only
    split_ifs <;> exact le_rfl
  | accepted error =>
    unfold Stream.exec
    dsimp only
    split_ifs <;> exact le_rfl
  | received error =>
    unfold Stream.exec
    dsimp only
    split
    · exact s.le_session_retire error
    · exact le_rfl
  | failed error =>
    unfold Stream.exec
    dsimp only
    split
    · exact s.endPeer.le_session_retire error
    · exact le_rfl

theorem streamRuns_of_quiet (h : quietAcceptRuns.Reachable s) : streamRuns.Reachable s := by
  induction h with
  | start h => exact .start h
  | step _ hnext ih =>
    obtain ⟨event, -, heq⟩ := hnext
    exact .step ih ⟨event, heq⟩

theorem flags_of_reachable (h : quietAcceptRuns.Reachable s) : Flags s :=
  h.invariant (fun _ hinit => hinit ▸ flags_powerUp)
    fun _ _ hs ⟨_, hreset, heq⟩ => heq ▸ hs.exec hreset

/-- The flag is right whenever the task is in none of the functions, and a connection that was
there at a reset is not the one that it then stands for. -/
theorem connected_at_rest (hs : quietAcceptRuns.Reachable s) :
    (s.atRest = true → s.connected = true →
      s.reset_requested = false ∧ ∃ peer, s.p_peer = some peer ∧ peer.session = s.session) ∧
    ∀ peer, s.p_peer = some peer → ∀ t, quietAcceptRuns.Steps (s.exec .reset) t →
      t.atRest = true → t.connected = true →
        ∃ peer', t.p_peer = some peer' ∧ peer.session < peer'.session := by
  have hserved {s : Stream} (hs : quietAcceptRuns.Reachable s) (hrest : s.atRest = true)
      (hconnected : s.connected = true) :
      s.reset_requested = false ∧ ∃ peer, s.p_peer = some peer ∧ peer.session = s.session := by
    have hflags := flags_of_reachable hs
    have hpc : s.pc = .rest := Stream.atRest_iff.1 hrest
    refine ⟨?_, ?_⟩
    · by_contra hreset
      rw [hflags.reset (Bool.eq_true_of_not_eq_false hreset)] at hconnected
      cases hconnected
    rcases hflags.connected hconnected with hleaving | hsome
    · rw [hpc] at hleaving
      cases hleaving
    · obtain ⟨peer, hpeer⟩ := Option.isSome_iff_exists.1 hsome
      obtain ⟨stored, hlive⟩ := (inv_of_reachable (streamRuns_of_quiet hs)).live peer hpeer
      have hsession := hlive.session
      rw [if_pos hconnected] at hsession
      exact ⟨peer, hpeer, hsession.symm⟩
  refine ⟨hserved hs, fun peer hpeer t hsteps hrest hconnected => ?_⟩
  -- the reset ends the session of the connection, and sessions only grow
  have hinv := inv_of_reachable (streamRuns_of_quiet hs)
  obtain ⟨stored, hlive⟩ := hinv.live peer hpeer
  have hpc : s.pc ≠ .accepting :=
    fun haccepting => nomatch (hinv.control.accepting haccepting).symm.trans hpeer
  have hreset : quietAcceptRuns.Reachable (s.exec .reset) := .step hs ⟨.reset, fun _ => hpc, rfl⟩
  have hended : peer.session < (s.exec .reset).session := by
    have := (hlive.retire 0).session
    rw [if_neg nofun] at this
    exact this ▸ Nat.lt_succ_self _
  have hlater : peer.session < t.session := by
    refine hsteps.invariant (P := fun t => peer.session < t.session) hended fun u v hu hnext => ?_
    obtain ⟨event, -, rfl⟩ := hnext
    exact hu.trans_le (u.le_session_exec event)
  obtain ⟨-, peer', hpeer', hsession⟩ := hserved (hreset.steps hsteps) hrest hconnected
  exact ⟨peer', hpeer', hsession ▸ hlater⟩

theorem steps_foldl (events : List Event) (hreset : .reset ∉ events) :
    quietAcceptRuns.Steps s (events.foldl Stream.exec s) := by
  induction events using List.reverseRecOn with
  | nil => exact .refl
  | append_singleton events event ih =>
    rw [List.mem_append, List.mem_singleton, not_or] at hreset
    rw [List.foldl_append]
    exact .tail (ih hreset.1) ⟨event, fun heq => absurd heq.symm hreset.2, rfl⟩

/-- A listener, and a connection that is accepted, with `events` behind the test. -/
def demoAccept (events : List Event) : Stream :=
  ([Event.configure 80, .poll true, .step (demoAnswer []), .accepted false] ++ events).foldl
    Stream.exec .powerUp

/-- A connection is accepted, reset and cleared, and another one is accepted. -/
theorem connected_again :
    ∃ peer', (demoAccept [.step (demoAnswer []), .reset, .poll true, .step (demoAnswer []),
      .step (demoAnswer []), .accepted false, .step (demoAnswer [])]).p_peer = some peer' ∧
      1 < peer'.session := by
  have hs : quietAcceptRuns.Reachable (demoAccept [.step (demoAnswer [])]) :=
    (Transition.Reachable.start rfl).steps (steps_foldl _ (by simp))
  have hsteps := steps_foldl (s := (demoAccept [.step (demoAnswer [])]).exec .reset)
    [.poll true, .step (demoAnswer []), .step (demoAnswer []), .accepted false,
      .step (demoAnswer [])] (by simp)
  exact (connected_at_rest hs).2 ⟨1, [], 0, [], [], []⟩ (by decide +kernel) _ hsteps
    (by decide +kernel) (by decide +kernel)

/-- A reset between the test and the region of `accepted`, and a poll: the flag is set, and no
connection is there. -/
theorem connected_without_peer :
    streamRuns.Reachable (demoAccept [.reset, .step (demoAnswer []), .poll true,
      .step (demoAnswer []), .step (demoAnswer [])]) ∧
    (demoAccept [.reset, .step (demoAnswer []), .poll true,
      .step (demoAnswer []), .step (demoAnswer [])]).atRest = true ∧
    (demoAccept [.reset, .step (demoAnswer []), .poll true,
      .step (demoAnswer []), .step (demoAnswer [])]).connected = true ∧
    (demoAccept [.reset, .step (demoAnswer []), .poll true,
      .step (demoAnswer []), .step (demoAnswer [])]).p_peer = none :=
  ⟨Transition.Reachable.foldl (T := streamRuns) (fun _ event => ⟨event, rfl⟩) _ (.start rfl),
    by decide +kernel, by decide +kernel, by decide +kernel⟩

end Atoman.TcpStream
