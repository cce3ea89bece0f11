import Atoman.Comm.Moves
import Atoman.Comm.V1Moves

/-!
# Only valid frames have effects

For both protocols: the log of a run is what its moves add, and a move adds something
only if it completes a valid frame whose bytes stand together in the stream. On the
0xE9 side the sequence number that is remembered keeps a second frame with the same
number from being dispatched.
-/

namespace Atoman.Comm
open Lib

/-! ## The log grows -/

section log
variable {net : Network} {printf : Output}

theorem Node.routeRun_prefix (s : Node) : s.log <+: (s.routeRun net).log := by
  unfold Node.routeRun
  split
  · exact List.prefix_rfl
  · split
    · exact List.prefix_rfl
    · exact List.prefix_append _ _

theorem Node.callFunc_prefix (s : Node) : s.log <+: (s.callFunc net printf).log := by
  unfold Node.callFunc
  split
  · exact List.prefix_rfl
  · exact List.prefix_append _ _

theorem commRun_prefix (now : UInt32) (b : UInt8) (s : Node) :
    s.log <+: (commRun net printf now b s).log := by
  unfold commRun Node.take
  split
  · rw [Node.takeCmdWord_log]
  · split
    · unfold Node.takeEop
      dsimp only
      split
      · split
        · exact List.IsPrefix.trans (by rfl) (Node.routeRun_prefix _)
        · exact List.IsPrefix.trans (by rfl) (Node.callFunc_prefix _)
      · exact List.prefix_rfl
    · exact List.prefix_rfl

theorem V1.Node.deliver_prefix (s : V1.Node) : s.log <+: (s.deliver net printf).log := by
  unfold V1.Node.deliver
  dsimp only
  split
  · exact List.prefix_append _ _
  · split
    · exact List.prefix_append _ _
    · split
      · exact List.prefix_rfl
      · exact List.prefix_append _ _

theorem V1.run_prefix (now : UInt32) (b : UInt8) (s : V1.Node) :
    s.log <+: (V1.run net printf now b s).log := by
  unfold V1.run V1.Node.take
  split
  · unfold V1.Node.takeSum
    split
    · exact List.prefix_rfl
    · split
      · exact List.prefix_rfl
      · exact List.IsPrefix.trans (by rfl) (V1.Node.deliver_prefix _)
  · exact List.prefix_rfl

end log

/-! ## Sequence numbers -/

/-- A callback is called. -/
def dispatches (events : List Event) : Bool :=
  events.any fun
    | .dispatched .. => true
    | .sent .. => false

namespace V1
variable {net : Network} {printf : Output}

/-- A frame that is dispatched is remembered. -/
theorem Frame.remembered_of_dispatches {f : Frame} {c : Ctx} {commands : CommandList}
    {raw : List UInt8} (h : dispatches (f.effects net c commands printf raw)) :
    f.remembered c commands = true := by
  unfold Frame.effects at h
  unfold Frame.remembered
  cases hneg : f.negotiates
  case true => rfl
  case false =>
    cases hlocal : f.isLocal c
    case false => rfl
    case true =>
      simp only [hneg, hlocal, Bool.false_eq_true, if_false, if_true] at h
      cases hhandler : f.handler commands with
      | none => simp [hhandler, dispatches] at h
      | some func => rfl

theorem Completes.emitted_eq {m : Move Node UInt32 UInt8} {f : Frame} {raw : List UInt8}
    (h : Completes net printf m f raw) :
    m.emitted Node.log = f.effects net m.before.ctx m.before.commands printf raw := by
  rw [Move.emitted, h.log_eq, List.drop_left]

theorem Silent.emitted_eq {m : Move Node UInt32 UInt8} (h : Silent net m) :
    m.emitted Node.log = [] := by
  rw [Move.emitted, h.log_eq, List.drop_length]

/-- **Of two valid frames in a row with the same sequence number, one at most is
dispatched.** The first one, if it is dispatched, is remembered until the next valid
frame, which then is not fresh. -/
theorem one_dispatch {calls : List (Call UInt32 UInt8)} {s : Node} (hs : s.ctx.status = .idle)
    {before mid rest : List (Move Node UInt32 UInt8)} {m m' : Move Node UInt32 UInt8}
    (hmoves : (parser net printf).moves expired calls s = before ++ m :: (mid ++ m' :: rest))
    {f g : Frame} {raw raw' : List UInt8} (hm : Completes net printf m f raw)
    (hm' : Completes net printf m' g raw') (hmid : ∀ x ∈ mid, ∀ h r, ¬ Completes net printf x h r)
    (hseq : f.seq = g.seq) (hdispatch : dispatches (m.emitted Node.log)) :
    dispatches (m'.emitted Node.log) = false := by
  have hsound := moves_sound net printf calls hs
  have hchain := (parser net printf).moves_chain expired calls s
  rw [hmoves] at hchain hsound
  rw [hm.emitted_eq] at hdispatch
  have hafter : m.after.ctx.history = (f.seq, true) := by
    rw [hm.history_eq, if_pos (Frame.remembered_of_dispatches hdispatch)]
  have hbefore : m'.before.ctx.history = (f.seq, true) := by
    refine BlockParser.chain_preserves (P := fun s => s.ctx.history = (f.seq, true))
      hchain.right_of_append (fun x hx hhistory => ?_) hafter
    rcases hsound x (by simp [hx]) with hsilent | ⟨h, r, hdone⟩
    · exact hsilent.history_eq.trans hhistory
    · exact absurd hdone (hmid x hx h r)
  obtain ⟨hlast, hlastValid⟩ := Prod.mk.inj hbefore
  exact absurd ⟨hlastValid, hlast.trans hseq⟩ hm'.valid.fresh

end V1

/-! ## Both protocols -/

theorem Completes.of_sound {net : Network} {printf : Output} {m : Move Node UInt32 UInt8}
    (h : Sound net printf m) :
    m.emitted Node.log = [] ∨ ∃ pack payload, Completes net printf m pack payload :=
  h.imp_left fun hsilent => by rw [Move.emitted, hsilent.log_eq, List.drop_length]

/-- **Frames are dispatched only when fully valid.** In every run of bytes and blocks
at any ticks, of either parser from its start state: the log grows by what the moves
add; what a move has received since the start state stands together in the stream;
and a move that adds something completes a frame that passes every check. On the
0xE9 side a move that completes no valid frame leaves the last sequence number, and
of two valid frames in a row with the same number one at most is dispatched. -/
theorem dispatched_only_valid (net : Network) (printf : Output) (calls : List (Call UInt32 UInt8))
    (s : Node) (hs : s.ctx.status = .sop) (v : V1.Node) (hv : v.ctx.status = .idle) :
    (((parser net printf).calls calls s).log = s.log ++
        ((parser net printf).moves expired calls s).flatMap (Move.emitted Node.log) ∧
      ∀ m ∈ (parser net printf).moves expired calls s, m.received <:+: stream calls ∧
        (m.emitted Node.log = [] ∨ ∃ pack payload, Completes net printf m pack payload)) ∧
    ((V1.parser net printf).calls calls v).log = v.log ++
        ((V1.parser net printf).moves V1.expired calls v).flatMap (Move.emitted V1.Node.log) ∧
      (∀ m ∈ (V1.parser net printf).moves V1.expired calls v, m.received <:+: stream calls ∧
        (m.emitted V1.Node.log = [] ∧ m.after.ctx.history = m.before.ctx.history ∨
          ∃ f raw, V1.Completes net printf m f raw)) ∧
      ∀ before m mid m' rest,
        (V1.parser net printf).moves V1.expired calls v = before ++ m :: (mid ++ m' :: rest) →
        ∀ f g raw raw', V1.Completes net printf m f raw → V1.Completes net printf m' g raw' →
          (∀ x ∈ mid, ∀ h r, ¬ V1.Completes net printf x h r) → f.seq = g.seq →
          ¬ (dispatches (m.emitted V1.Node.log) ∧ dispatches (m'.emitted V1.Node.log)) := by
  refine ⟨⟨?_, fun m hm => ⟨?_, ?_⟩⟩, ?_, fun m hm => ⟨?_, ?_⟩, ?_⟩
  · exact BlockParser.log_calls (fun t b s => commRun_prefix t b s)
      (fun _ _ _ => List.prefix_rfl) calls s
  · exact BlockParser.received_infix calls s m hm
  · exact Completes.of_sound (moves_sound net printf calls hs m hm)
  · exact BlockParser.log_calls (fun t b s => V1.run_prefix t b s)
      (fun _ _ _ => List.prefix_rfl) calls v
  · exact BlockParser.received_infix calls v m hm
  · exact (V1.moves_sound net printf calls hv m hm).imp_left fun h => ⟨h.emitted_eq, h.history_eq⟩
  · rintro before m mid m' rest hmoves f g raw raw' hm hm' hmid hseq ⟨hfirst, hsecond⟩
    rw [V1.one_dispatch hv hmoves hm hm' hmid hseq hfirst] at hsecond
    exact absurd hsecond (by decide)

/-- A frame of each protocol, in blocks. -/
def demoCalls : List (Call UInt32 UInt8) :=
  [.block 0 (demoHead ++ demoTail), .block 1 (V1.demoHead ++ V1.demoTail)]

theorem dispatched_only_valid_demo :
    ((parser demoNetwork none).calls demoCalls demoNode).log.length = 1 ∧
    ((V1.parser demoNetwork none).calls demoCalls V1.demoNode).log.length = 1 ∧
    ((parser demoNetwork none).calls demoCalls demoNode).log = demoNode.log ++
      ((parser demoNetwork none).moves expired demoCalls demoNode).flatMap
        (Move.emitted Node.log) ∧
    ((V1.parser demoNetwork none).calls demoCalls V1.demoNode).log = V1.demoNode.log ++
      ((V1.parser demoNetwork none).moves V1.expired demoCalls V1.demoNode).flatMap
        (Move.emitted V1.Node.log) := by
  have h := dispatched_only_valid demoNetwork none demoCalls demoNode rfl V1.demoNode rfl
  exact ⟨by decide +kernel, by decide +kernel, h.1.1, h.2.1⟩

end Atoman.Comm
