import Atoman.Lib.BlockParser
import Mathlib.Data.List.Chain
import Mathlib.Data.List.Infix

/-!
# What a parser did

A parser is called with one symbol or with a block. Each call is made of moves: a
step on one symbol, or a copy of several. `recorded` is the parser that also keeps
its moves and, in each of them, the symbols received since it was last idle. It runs
like the parser itself (`recorded_calls`); the symbols of a move stand together in
the stream (`received_infix`); and what every move from a good state satisfies holds
of all moves of a run (`recorded_rule`).
-/

namespace Atoman.Lib
universe u v w z
variable {σ : Type u} {τ : Type v} {α : Type w}

/-- A call with one symbol or with a block. -/
inductive Call (τ : Type v) (α : Type w)
  | one (t : τ) (b : α)
  | block (t : τ) (data : List α)

/-- The symbols of a call. -/
def Call.data : Call τ α → List α
  | .one _ b => [b]
  | .block _ data => data

/-- The stream of a run of calls. -/
def stream (calls : List (Call τ α)) : List α := calls.flatMap Call.data

/-- A step on one symbol or a copy of several: `data` are the symbols it took,
`received` those since the parser was last idle. -/
structure Move (σ : Type u) (τ : Type v) (α : Type w) where
  before : σ
  time : τ
  data : List α
  received : List α
  after : σ

/-- What a move adds to a log. -/
def Move.emitted {ε : Type z} (log : σ → List ε) (m : Move σ τ α) : List ε :=
  (log m.after).drop (log m.before).length

/-- A state with what was received since it was last idle, and the moves so far. -/
structure History (σ : Type u) (τ : Type v) (α : Type w) where
  state : σ
  received : List α
  moves : List (Move σ τ α)

/-- A state before its first move. -/
def History.start (s : σ) : History σ τ α := ⟨s, [], []⟩

namespace BlockParser
variable (M : BlockParser σ τ α)

/-- One call. -/
def call : Call τ α → σ → σ
  | .one t b => M.step t b
  | .block t data => M.runBuffer t data

/-- A run of calls. -/
def calls (cs : List (Call τ α)) (s : σ) : σ := cs.foldl (fun s c => M.call c s) s

@[simp] theorem calls_nil (s : σ) : M.calls [] s = s := rfl

@[simp] theorem calls_cons (c : Call τ α) (cs : List (Call τ α)) (s : σ) :
    M.calls (c :: cs) s = M.calls cs (M.call c s) := rfl

variable {M}

/-- What steps and copies preserve, a block preserves. -/
theorem runBuffer_invariant {P : σ → Prop} (hstep : ∀ t b s, P s → P (M.step t b s))
    (hcopy : ∀ t data s, P s → data ≠ [] → data.length ≤ M.awaited s → P (M.copy t data s)) (t : τ)
    (data : List α) {s : σ} (h : P s) : P (M.runBuffer t data s) := by
  induction hn : data.length using Nat.strong_induction_on generalizing data s with
  | _ n ih =>
    have hlen := M.length_skipIdle data s
    cases hskip : M.skipIdle data s with
    | nil => rwa [runBuffer_done hskip]
    | cons b rest =>
      rw [hskip, List.length_cons] at hlen
      by_cases hw : M.awaited s = 0
      · rw [runBuffer_step hskip hw]
        exact ih _ (by omega) rest (hstep t b s h) rfl
      · rw [runBuffer_copy hskip hw]
        refine ih _ ?_ _ (hcopy t _ s h ?_ (List.length_take_le _ _)) rfl
        · simp only [List.length_drop, List.length_cons]; omega
        · obtain ⟨m, hm⟩ := Nat.exists_eq_succ_of_ne_zero hw
          rw [hm, List.take_succ_cons]
          exact List.cons_ne_nil _ _

/-- What steps and copies preserve, a run of calls preserves. -/
theorem calls_invariant {P : σ → Prop} (hstep : ∀ t b s, P s → P (M.step t b s))
    (hcopy : ∀ t data s, P s → data ≠ [] → data.length ≤ M.awaited s → P (M.copy t data s))
    (cs : List (Call τ α)) {s : σ} (h : P s) : P (M.calls cs s) := by
  induction cs generalizing s with
  | nil => exact h
  | cons c cs ih =>
    refine ih ?_
    cases c with
    | one t b => exact hstep t b s h
    | block t data => exact runBuffer_invariant hstep hcopy t data h

/-! ## The recorded parser -/

variable (M)

/-- Put a move on record. -/
def record (h : History σ τ α) (m : Move σ τ α) : History σ τ α where
  state := m.after
  received := if M.idle m.after then [] else m.received
  moves := h.moves ++ [m]

/-- A step; where it finds the state expired, its symbol is the first one received. -/
def stepMove (expired : τ → σ → Bool) (t : τ) (b : α) (s : σ) (r : List α) : Move σ τ α :=
  ⟨s, t, [b], (if expired t s then [] else r) ++ [b], M.step t b s⟩

/-- A copy. -/
def copyMove (t : τ) (data : List α) (s : σ) (r : List α) : Move σ τ α :=
  ⟨s, t, data, r ++ data, M.copy t data s⟩

/-- The parser with its history. -/
def recorded (expired : τ → σ → Bool) : BlockParser (History σ τ α) τ α where
  step t b h := M.record h (M.stepMove expired t b h.state h.received)
  idle h := M.idle h.state
  marker := M.marker
  awaited h := M.awaited h.state
  copy t data h := M.record h (M.copyMove t data h.state h.received)

/-- The moves of a run of calls. -/
def moves (expired : τ → σ → Bool) (cs : List (Call τ α)) (s : σ) : List (Move σ τ α) :=
  ((M.recorded expired).calls cs (.start s)).moves

variable {M} {expired : τ → σ → Bool}

theorem recorded_runBuffer (t : τ) (data : List α) (h : History σ τ α) :
    ((M.recorded expired).runBuffer t data h).state = M.runBuffer t data h.state := by
  induction hn : data.length using Nat.strong_induction_on generalizing data h with
  | _ n ih =>
    have hsame : (M.recorded expired).skipIdle data h = M.skipIdle data h.state := rfl
    have hlen := M.length_skipIdle data h.state
    cases hskip : M.skipIdle data h.state with
    | nil => rw [runBuffer_done hskip, runBuffer_done (hsame.trans hskip)]
    | cons b rest =>
      rw [hskip, List.length_cons] at hlen
      by_cases hw : M.awaited h.state = 0
      · rw [runBuffer_step hskip hw, runBuffer_step (hsame.trans hskip) hw]
        exact ih _ (by omega) rest _ rfl
      · rw [runBuffer_copy hskip hw, runBuffer_copy (hsame.trans hskip) hw]
        refine ih _ ?_ ((b :: rest).drop (M.awaited h.state)) _ rfl
        simp only [List.length_drop, List.length_cons]; omega

/-- **Recording does not change the run.** -/
theorem recorded_calls (expired : τ → σ → Bool) (cs : List (Call τ α)) (h : History σ τ α) :
    ((M.recorded expired).calls cs h).state = M.calls cs h.state := by
  induction cs generalizing h with
  | nil => rfl
  | cons c cs ih =>
    rw [calls_cons, calls_cons, ih]
    cases c with
    | one t b => rfl
    | block t data => exact congrArg (M.calls cs) (recorded_runBuffer t data h)

/-- **The rule for histories.** When `Inv` relates a state to what it has received,
and every move from such a state is good and leads to such a state, all moves of a
run are good. -/
theorem recorded_rule (Inv : σ → List α → Prop) {Good : Move σ τ α → Prop}
    (hstep : ∀ t b s r, Inv s r → Good (M.stepMove expired t b s r) ∧
      Inv (M.step t b s) (M.record ⟨s, r, []⟩ (M.stepMove expired t b s r)).received)
    (hcopy : ∀ t data s r, Inv s r → data ≠ [] → data.length ≤ M.awaited s →
      Good (M.copyMove t data s r) ∧
        Inv (M.copy t data s) (M.record ⟨s, r, []⟩ (M.copyMove t data s r)).received)
    (cs : List (Call τ α)) {s : σ} (hs : Inv s []) : ∀ m ∈ M.moves expired cs s, Good m := by
  have hrun := calls_invariant (M := M.recorded expired)
    (P := fun h => Inv h.state h.received ∧ ∀ m ∈ h.moves, Good m) ?_ ?_ cs
    (s := .start s) ⟨hs, by simp [History.start]⟩
  · exact hrun.2
  · rintro t b h ⟨hinv, hgood⟩
    obtain ⟨hm, hinv'⟩ := hstep t b _ _ hinv
    refine ⟨hinv', fun m hmem => ?_⟩
    rcases List.mem_append.mp hmem with hmem | hmem
    · exact hgood m hmem
    · rw [List.mem_singleton.mp hmem]; exact hm
  · rintro t data h ⟨hinv, hgood⟩ hne hlen
    obtain ⟨hm, hinv'⟩ := hcopy t data _ _ hinv hne hlen
    refine ⟨hinv', fun m hmem => ?_⟩
    rcases List.mem_append.mp hmem with hmem | hmem
    · exact hgood m hmem
    · rw [List.mem_singleton.mp hmem]; exact hm

/-! ## What is received stands together in the stream -/

/-- Everything on record is part of the stream so far. -/
structure Within (M : BlockParser σ τ α) (done : List α) (h : History σ τ α) : Prop where
  received : h.received <:+ done
  idle : M.idle h.state → h.received = []
  moves : ∀ m ∈ h.moves, m.received <:+: done

theorem Within.record {done data : List α} {h : History σ τ α} {m : Move σ τ α}
    (hin : M.Within done h) (hm : m.received <:+ done ++ data) :
    M.Within (done ++ data) (M.record h m) := by
  refine ⟨?_, fun hidle => ?_, fun m' hmem => ?_⟩
  · unfold BlockParser.record
    dsimp only
    split
    · exact List.nil_suffix
    · exact hm
  · exact if_pos hidle
  · rcases List.mem_append.mp hmem with hmem | hmem
    · exact (hin.moves m' hmem).trans (List.prefix_append done data).isInfix
    · rw [List.mem_singleton.mp hmem]; exact hm.isInfix

theorem Within.step {done : List α} {h : History σ τ α} (hin : M.Within done h) (t : τ) (b : α) :
    M.Within (done ++ [b]) ((M.recorded expired).step t b h) := by
  refine hin.record ?_
  show (if expired t h.state then [] else h.received) ++ [b] <:+ done ++ [b]
  rw [List.suffix_append_self_iff]
  split
  · exact List.nil_suffix
  · exact hin.received

theorem Within.copy {done data : List α} {h : History σ τ α} (hin : M.Within done h) (t : τ) :
    M.Within (done ++ data) ((M.recorded expired).copy t data h) :=
  hin.record (List.suffix_append_self_iff.mpr hin.received)

/-- Symbols that are skipped find the parser idle. -/
theorem Within.skip {done data rest : List α} {h : History σ τ α} (hin : M.Within done h)
    (hskip : M.skipIdle data h.state = rest) :
    ∃ skipped, data = skipped ++ rest ∧ M.Within (done ++ skipped) h := by
  unfold skipIdle at hskip
  split at hskip
  case isTrue hidle =>
    refine ⟨data.takeWhile fun b => !M.marker b, ?_, ?_, hin.idle, fun m hm => ?_⟩
    · rw [← hskip, List.takeWhile_append_dropWhile]
    · rw [hin.idle hidle]; exact List.nil_suffix
    · exact (hin.moves m hm).trans (List.prefix_append _ _).isInfix
  case isFalse => exact ⟨[], by simpa using hskip, by simpa using hin⟩

theorem Within.runBuffer {done : List α} {h : History σ τ α} (hin : M.Within done h) (t : τ)
    (data : List α) : M.Within (done ++ data) ((M.recorded expired).runBuffer t data h) := by
  induction hn : data.length using Nat.strong_induction_on generalizing data done h with
  | _ n ih =>
    have hlen := M.length_skipIdle data h.state
    cases hskip : M.skipIdle data h.state with
    | nil =>
      obtain ⟨skipped, hdata, hin'⟩ := hin.skip hskip
      rw [List.append_nil] at hdata
      rw [runBuffer_done (M := M.recorded expired) hskip, hdata]
      exact hin'
    | cons b rest =>
      rw [hskip, List.length_cons] at hlen
      obtain ⟨skipped, hdata, hin'⟩ := hin.skip hskip
      by_cases hw : M.awaited h.state = 0
      · rw [runBuffer_step (M := M.recorded expired) hskip hw]
        have hstep : M.Within (done ++ skipped ++ [b]) ((M.recorded expired).step t b h) :=
          hin'.step t b
        have := ih _ (by omega) hstep rest rfl
        rwa [hdata, ← List.append_assoc, ← List.singleton_append, ← List.append_assoc]
      · rw [runBuffer_copy (M := M.recorded expired) hskip hw]
        have hlt : ((b :: rest).drop (M.awaited h.state)).length < n := by
          simp only [List.length_drop, List.length_cons]; omega
        have hcopy : M.Within (done ++ skipped ++ (b :: rest).take (M.awaited h.state))
            ((M.recorded expired).copy t ((b :: rest).take (M.awaited h.state)) h) := hin'.copy t
        have := ih _ hlt hcopy ((b :: rest).drop (M.awaited h.state)) rfl
        rwa [List.append_assoc, List.take_append_drop, List.append_assoc, ← hdata] at this

theorem Within.calls {done : List α} {h : History σ τ α} (hin : M.Within done h)
    (cs : List (Call τ α)) :
    M.Within (done ++ stream cs) ((M.recorded expired).calls cs h) := by
  induction cs generalizing done h with
  | nil => simpa [stream] using hin
  | cons c cs ih =>
    have hcall : M.Within (done ++ c.data) ((M.recorded expired).call c h) := by
      cases c with
      | one t b => exact hin.step t b
      | block t data => exact hin.runBuffer t data
    have := ih hcall
    rwa [List.append_assoc] at this

/-- **What a move has received stands together in the stream.** -/
theorem received_infix (cs : List (Call τ α)) (s : σ) :
    ∀ m ∈ M.moves expired cs s, m.received <:+: stream cs := by
  have h₀ : M.Within [] (.start s : History σ τ α) :=
    ⟨List.suffix_refl _, fun _ => rfl, by simp [History.start]⟩
  exact (h₀.calls cs).moves

/-! ## Moves follow each other -/

/-- A move starts where the one before ended. -/
def Move.Then (m m' : Move σ τ α) : Prop := m.after = m'.before

/-- The moves on record follow each other and end in the state. -/
structure Linked (h : History σ τ α) : Prop where
  chain : h.moves.IsChain Move.Then
  last : ∀ m ∈ h.moves.getLast?, m.after = h.state

theorem Linked.record {h : History σ τ α} (hl : Linked h) {m : Move σ τ α}
    (hm : m.before = h.state) : Linked (M.record h m) := by
  refine ⟨hl.chain.append (List.isChain_singleton m) fun x hx y hy => ?_, fun x hx => ?_⟩
  · obtain rfl := Option.some.inj hy
    exact (hl.last x hx).trans hm.symm
  · have hx : (h.moves ++ [m]).getLast? = some x := hx
    rw [List.getLast?_concat] at hx
    rw [← Option.some.inj hx]
    rfl

variable (M expired) in
/-- **The moves of a run follow each other.** -/
theorem moves_chain (cs : List (Call τ α)) (s : σ) : (M.moves expired cs s).IsChain Move.Then := by
  have hrun := calls_invariant (M := M.recorded expired) (P := Linked)
    (fun _ _ _ h => h.record rfl) (fun _ _ _ h _ _ => h.record rfl) cs
    (s := .start s) ⟨List.isChain_nil, by simp [History.start]⟩
  exact hrun.chain

/-- What all moves in between preserve still holds at a later move. -/
theorem chain_preserves {P : σ → Prop} {m m' : Move σ τ α} {mid rest : List (Move σ τ α)}
    (hchain : (m :: (mid ++ m' :: rest)).IsChain Move.Then)
    (hmid : ∀ x ∈ mid, P x.before → P x.after) (h : P m.after) : P m'.before := by
  induction mid generalizing m with
  | nil => exact (List.isChain_cons_cons.mp hchain).1 ▸ h
  | cons x mid ih =>
    obtain ⟨hx, hchain⟩ := List.isChain_cons_cons.mp hchain
    exact ih hchain (fun y hy => hmid y (List.mem_cons_of_mem x hy))
      (hmid x (List.mem_cons_self ..) (hx ▸ h))

/-! ## What is added to a log -/

section log
variable {ε : Type z} {log : σ → List ε}

/-- **The log of a run is what its moves add, in order.** -/
theorem log_calls (hstep : ∀ t b s, log s <+: log (M.step t b s))
    (hcopy : ∀ t data s, log s <+: log (M.copy t data s)) (cs : List (Call τ α)) (s : σ) :
    log (M.calls cs s) = log s ++ (M.moves expired cs s).flatMap (Move.emitted log) := by
  show log (M.calls cs (History.start s : History σ τ α).state) = _
  rw [← recorded_calls expired cs]
  refine calls_invariant (M := M.recorded expired)
    (P := fun h => log h.state = log s ++ h.moves.flatMap (Move.emitted log)) ?_ ?_ cs
    (s := .start s) (by simp [History.start])
  · intro t b h hlog
    obtain ⟨added, hadded⟩ := hstep t b h.state
    have hemit : (M.stepMove expired t b h.state h.received).emitted log = added := by
      simp [Move.emitted, stepMove, ← hadded]
    simp only [recorded, record, List.flatMap_append, List.flatMap_singleton, hemit]
    rw [← List.append_assoc, ← hlog]
    exact hadded.symm
  · intro t data h hlog _ _
    obtain ⟨added, hadded⟩ := hcopy t data h.state
    have hemit : (M.copyMove t data h.state h.received).emitted log = added := by
      simp [Move.emitted, copyMove, ← hadded]
    simp only [recorded, record, List.flatMap_append, List.flatMap_singleton, hemit]
    rw [← List.append_assoc, ← hlog]
    exact hadded.symm

end log

end BlockParser
end Atoman.Lib
