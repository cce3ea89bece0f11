import Atoman.Comm.Frames

/-!
# The moves of the 0xE8 parser

Every move of every run, over bytes and blocks at any ticks, either does nothing to
the outside or completes a valid frame: the bytes received since the start state are
its bytes, and it is dispatched or sent on.
-/

namespace Atoman.Comm
open Lib

variable {net : Network} {printf : Output} {now : UInt32}

/-! ## The end of a frame -/

/-- The frame passes every check of the context. -/
structure Pack.Valid (pack : Pack) (c : Ctx) (payload : List UInt8) : Prop where
  sop_eq : pack.sop = commSopByte
  version_eq : pack.version = commVer1
  addressed : isAddrMatch pack.dst c.src → isAddrMatch pack.dDst c.dSrc
  len_eq : pack.len.toNat = payload.length
  len_le : pack.len ≤ c.bufferSize
  crc_eq : pack.crc = wireCrc pack payload
  eop_eq : pack.eop = commEopWord

/-- What is sent on of a frame for another node. -/
def forwarded (net : Network) (linkId : UInt8) (pack : Pack) (payload : List UInt8) : List Event :=
  match net.findRoute linkId pack.dst with
  | none => []
  | some r =>
    match net.findLinkById r.dstLinkId with
    | none => []
    | some l =>
      if 15 + pack.len.toNat ≤ commTxBufferSize then transmit l.output (wireBytes pack payload)
      else []

/-- A move completes a valid frame: one for this node is dispatched to the callback
found for its command, another one is sent on. -/
structure Completes (net : Network) (printf : Output) (m : Move Node UInt32 UInt8) (pack : Pack)
    (payload : List UInt8) : Prop where
  received_eq : m.received = wireBytes pack payload
  valid : pack.Valid m.before.ctx payload
  dispatched : isAddrMatch pack.dst m.before.ctx.src → ∃ func,
    (m.before.commands.findCommFunc pack.cmdSet pack.cmdWord).1 = some func ∧
      m.after.log = m.before.log ++ [Event.dispatched func printf pack payload]
  forwarded : ¬ isAddrMatch pack.dst m.before.ctx.src →
    m.after.log = m.before.log ++ forwarded net m.before.ctx.linkId pack payload

/-- A move does nothing to the outside, and what is received is no whole frame. -/
structure Silent (m : Move Node UInt32 UInt8) : Prop where
  log_eq : m.after.log = m.before.log
  received_ne : ∀ pack payload, Pack.Sized pack payload → m.received ≠ wireBytes pack payload

theorem Node.routeRun_log {s : Node} (hsop : s.ctx.pack.sop = commSopByte)
    (hversion : s.ctx.pack.version = commVer1) (hdata : s.ctx.pack.pData ≠ .null) :
    (s.routeRun net).log = s.log ++ forwarded net s.ctx.linkId s.ctx.pack s.ctx.payload := by
  have hpack : { s.ctx.pack with version := commVer1 } = s.ctx.pack := by rw [← hversion]
  unfold Node.routeRun forwarded
  cases net.findRoute s.ctx.linkId s.ctx.pack.dst with
  | none => simp
  | some r =>
    dsimp only
    cases net.findLinkById r.dstLinkId with
    | none => simp
    | some l =>
      have hsent := commSendData_eq hsop (fun h => hdata h.2) s.ctx.dataBuffer l.output
      rw [hpack] at hsent
      exact congrArg (s.log ++ ·) hsent

/-- **The end of a frame.** With the right end bytes the frame is complete and valid,
and what it asks for happens; otherwise nothing happens. -/
theorem Node.Progress.takeEop {s : Node} {r : List UInt8} (h : s.Progress r)
    (b : UInt8) (t : UInt32)
    (hst : s.ctx.status = .eop) (hflag : s.ctx.eopFlag) :
    Silent ⟨s, t, [b], r ++ [b], s.takeEop net printf b⟩ ∨
      ∃ pack payload, Completes net printf ⟨s, t, [b], r ++ [b], s.takeEop net printf b⟩ pack
        payload := by
  obtain ⟨hseen, hchecked, -⟩ := h
  simp only [Node.Checked, hst] at hchecked
  obtain ⟨⟨⟨⟨hver, hroute, haddr⟩, hfunc⟩, hle⟩, hcrc, heop⟩ := hchecked
  rw [if_pos hflag] at heop
  obtain ⟨e, he⟩ := heop
  have hbytes : r ++ [b] = frameHead s.ctx.pack ++ s.ctx.payload ++
      [(s.ctx.pack.crc &&& 0xFF).toUInt8, ((s.ctx.pack.crc >>> 8) &&& 0xFF).toUInt8, e, b] := by
    rw [← hseen]
    simp [Ctx.seen, Ctx.headLength, hst, hflag, he, lowByte_byte, frameHead, -UInt16.toUInt8_and]
  have hsized : Pack.Sized s.ctx.pack s.ctx.payload := by simp [Pack.Sized, Ctx.payload]
  by_cases hword : s.ctx.pack.eop ||| (b.toUInt16 <<< 8) = commEopWord
  · right
    have hlo := lowByte_word e b
    have hhi := highByte_word e b
    rw [← he, hword] at hlo hhi
    obtain rfl : e = 0x0D := hlo.symm
    obtain rfl : b = 0x0A := hhi.symm
    have hlog : (s.takeEop net printf 0x0A).log =
        (if s.ctx.isRoute then
          ({ s with ctx := { s.ctx with pack := { s.ctx.pack with eop := commEopWord } } } :
            Node).routeRun net
        else
          ({ s with ctx := { s.ctx with pack := { s.ctx.pack with eop := commEopWord } } } :
            Node).callFunc net printf).log := by
      simp only [Node.takeEop, hword, if_true]
    refine ⟨{ s.ctx.pack with eop := commEopWord }, s.ctx.payload, ?_,
      ⟨hver.sop_eq, hver.version_eq, ?_, hsized, hle, hcrc, rfl⟩, ?_, ?_⟩
    · show r ++ [0x0A] = _
      rw [hbytes, hcrc]; rfl
    · intro hdst
      refine haddr.resolve_right fun h' => ?_
      rw [hroute, hdst] at h'
      exact absurd h' (by decide)
    · intro hdst
      have hlocal : s.ctx.isRoute = false := by rw [hroute]; simpa using hdst
      obtain ⟨func, hfun, hreg⟩ := hfunc.resolve_left (by rw [hlocal]; decide)
      refine ⟨func, hreg, ?_⟩
      show (s.takeEop net printf 0x0A).log = _
      rw [hlog, if_neg (by rw [hlocal]; decide)]
      simp only [Node.callFunc, hfun]
      rfl
    · intro hdst
      have hother : s.ctx.isRoute = true := by rw [hroute]; simpa using hdst
      show (s.takeEop net printf 0x0A).log = _
      rw [hlog, if_pos hother]
      exact Node.routeRun_log (s := { s with ctx := { s.ctx with
        pack := { s.ctx.pack with eop := commEopWord } } }) hver.sop_eq hver.version_eq
        (by rw [show _ = DataRef.buffer from hver.pData_eq]; decide)
  · left
    refine ⟨by simp only [Node.takeEop, hword, if_false], fun pack payload hlen hwire => ?_⟩
    have htail := (frame_inj hsized hlen (hbytes.symm.trans hwire)).2.2
    simp only [List.cons.injEq, and_true] at htail
    rw [he, htail.2.2.1, htail.2.2.2] at hword
    exact hword (by decide)

/-! ## Moves -/

/-- A byte at this tick finds the parser reset. -/
def expired (now : UInt32) (s : Node) : Bool :=
  decide (s.ctx.status ≠ .sop ∧ commFrameTimeoutTick < now - s.ctx.lastRxTick)

/-- The timeout check. -/
theorem Node.Progress.receive {s : Node} {r : List UInt8} (h : s.Progress r) (now : UInt32) :
    ({ s with ctx := s.ctx.receive now } : Node).Progress (if expired now s then [] else r) := by
  by_cases hlate : s.ctx.status ≠ .sop ∧ commFrameTimeoutTick < now - s.ctx.lastRxTick
  · rw [if_pos (by simpa [expired] using hlate)]
    exact progress_of_sop (by simp [Ctx.receive, hlate])
  · rw [if_neg (by simpa [expired] using hlate)]
    simp only [Ctx.receive, if_neg hlate]
    obtain ⟨hseen, hchecked, hcrc⟩ := h
    refine ⟨hseen, ?_, hcrc⟩
    cases hst : s.ctx.status <;> simp only [Node.Checked, hst] at hchecked ⊢
    case ver => exact hchecked
    case src => exact ⟨hchecked.1, hchecked.2, hchecked.3⟩
    case dst =>
      obtain ⟨hver, hroute⟩ := hchecked
      exact ⟨⟨hver.1, hver.2, hver.3⟩, hroute⟩
    case cmd =>
      obtain ⟨hver, hroute, haddr⟩ := hchecked
      exact ⟨⟨hver.1, hver.2, hver.3⟩, hroute, haddr⟩
    case ack =>
      obtain ⟨⟨hver, hroute, haddr⟩, hfunc⟩ := hchecked
      exact ⟨⟨⟨hver.1, hver.2, hver.3⟩, hroute, haddr⟩, hfunc⟩
    case len =>
      obtain ⟨⟨⟨hver, hroute, haddr⟩, hfunc⟩, hlen⟩ := hchecked
      exact ⟨⟨⟨⟨hver.1, hver.2, hver.3⟩, hroute, haddr⟩, hfunc⟩, hlen⟩
    all_goals
      obtain ⟨⟨⟨⟨hver, hroute, haddr⟩, hfunc⟩, hle⟩, hrest⟩ := hchecked
      exact ⟨⟨⟨⟨⟨hver.1, hver.2, hver.3⟩, hroute, haddr⟩, hfunc⟩, hle⟩, hrest⟩

/-- Payload bytes that are copied at once. -/
theorem Node.Progress.copyData {s : Node} {r : List UInt8} (h : s.Progress r) (now : UInt32)
    {data : List UInt8} (hst : s.ctx.status = .data) (hlen : data.length ≤ s.ctx.len.toNat) :
    ({ s with ctx := s.ctx.copyData now data } : Node).Progress (r ++ data) := by
  have hrun := h.running (by simp [hst]) (by simp [hst]) (by simp [hst])
  obtain ⟨hseen, hchecked, -⟩ := h
  simp only [Node.Checked, hst] at hchecked
  obtain ⟨⟨⟨⟨hver, hroute, haddr⟩, hfunc⟩, hle⟩, hsum⟩ := hchecked
  have hbound := s.ctx.pack.len.toNat_lt
  have hidx : (UInt16.ofNat (s.ctx.index.toNat + data.length)).toNat =
      s.ctx.index.toNat + data.length := by
    rw [UInt16.toNat_ofNat']; omega
  have hrest : (UInt16.ofNat (s.ctx.len.toNat - data.length)).toNat =
      s.ctx.len.toNat - data.length := by
    rw [UInt16.toNat_ofNat']; omega
  refine ⟨?_, ?_, fun _ _ => ?_⟩
  · have hslice :=
      Memory.slice_write_extend data (Eq.refl (s.ctx.dataBuffer.slice 0 s.ctx.index.toNat))
    rw [Nat.zero_add] at hslice
    rw [← hseen]
    simp only [Ctx.seen, Ctx.copyData, Ctx.headLength, hst, hidx, hslice, List.append_assoc]
  · simp only [Node.Checked, Ctx.copyData, hst]
    refine ⟨⟨⟨⟨⟨hver.1, hver.2, hver.3⟩, hroute, haddr⟩, hfunc⟩, hle⟩, ?_⟩
    rw [hidx, hrest]; omega
  · rw [if_neg (by simp [Ctx.copyData, hst]), crc16UpdateBlock_append, ← hrun]
    rfl

/-- Short of the second end byte a context has seen its head and the payload with two
bytes behind it, at most. -/
theorem Node.Progress.seen_short {s : Node} {r : List UInt8} (h : s.Progress r)
    (heop : ¬ (s.ctx.status = .eop ∧ s.ctx.eopFlag)) :
    r.length ≤ 11 ∨ ∃ x, r = frameHead s.ctx.pack ++ x ∧ x.length ≤ s.ctx.pack.len.toNat + 2 := by
  obtain ⟨rfl, hchecked, -⟩ := h
  have htake : ∀ k, ((frameHead s.ctx.pack).take k ++ []).length ≤ 11 := fun k => by
    rw [List.append_nil, List.length_take]
    exact Nat.min_le_right k 11
  have hfull : (frameHead s.ctx.pack).take 11 = frameHead s.ctx.pack := rfl
  cases hst : s.ctx.status <;> simp only [Ctx.seen, Ctx.headLength, hst, hfull]
  case data =>
    simp only [Node.Checked, hst] at hchecked
    refine Or.inr ⟨_, rfl, ?_⟩
    rw [Memory.length_slice]
    omega
  case crc => exact Or.inr ⟨_, rfl, by simp [Ctx.payload]⟩
  case eop =>
    have hflag : ¬ s.ctx.eopFlag := fun hf => heop ⟨hst, hf⟩
    rw [if_neg hflag]
    exact Or.inr ⟨_, rfl, by simp [Ctx.payload]⟩
  all_goals exact Or.inl (htake _)

/-- Short of the second end byte, one more byte does not complete a frame. -/
theorem Node.Progress.short {s : Node} {r : List UInt8} (h : s.Progress r)
    (heop : ¬ (s.ctx.status = .eop ∧ s.ctx.eopFlag)) (pack : Pack) (payload tail : List UInt8)
    (hlen : Pack.Sized pack payload) (htail : tail.length ≤ 1) :
    r ++ tail ≠ wireBytes pack payload := by
  intro hwire
  have hlength : r.length + tail.length = 15 + payload.length := by
    rw [← List.length_append, hwire, length_wireBytes]
  rcases h.seen_short heop with hr | ⟨x, rfl, hx⟩
  · omega
  · rw [wireBytes, wireBody, List.append_assoc, List.append_assoc] at hwire
    have hhead := (List.append_inj hwire (by simp)).1
    have hpack : s.ctx.pack.len.toNat = payload.length := by rw [frameHead_len hhead]; exact hlen
    rw [List.length_append, length_frameHead] at hlength
    omega

/-- What a move may do: nothing, or complete a valid frame. -/
def Sound (net : Network) (printf : Output) (m : Move Node UInt32 UInt8) : Prop :=
  Silent m ∨ ∃ pack payload, Completes net printf m pack payload

theorem Node.takeCmdWord_log (s : Node) (b : UInt8) : (s.takeCmdWord b).log = s.log := by
  unfold Node.takeCmdWord
  dsimp only
  split
  · rfl
  · split <;> rfl

variable (net printf) in
/-- A byte behind the timeout check. -/
theorem Node.Progress.take_sound {s : Node} {r : List UInt8} (h : s.Progress r) (t : UInt32)
    (b : UInt8) :
    Sound net printf ⟨s, t, [b], r ++ [b], s.take net printf b⟩ ∧
      (s.take net printf b).Progress ((s.take net printf b).next r b) := by
  have hshort := fun heop pack payload hlen => h.short heop pack payload [b] hlen (by simp)
  by_cases hcmd : s.ctx.status = .cmd ∧ s.ctx.cmdFlag
  · rw [Node.take, if_pos hcmd]
    refine ⟨Or.inl ⟨s.takeCmdWord_log b, fun _ _ => hshort (by simp [hcmd.1]) _ _⟩, ?_⟩
    exact h.takeCmdWord b hcmd.1 hcmd.2
  · by_cases heop : s.ctx.status = .eop ∧ s.ctx.eopFlag
    · rw [Node.take, if_neg hcmd, if_pos heop]
      exact ⟨h.takeEop b t heop.1 heop.2, progress_reset rfl r b⟩
    · rw [Node.take, if_neg hcmd, if_neg heop]
      exact ⟨Or.inl ⟨rfl, fun _ _ => hshort heop _ _⟩, h.takeCtx b hcmd heop⟩

/-- The timeout check leaves what the validity of a frame depends on. -/
theorem Sound.of_receive {s s' : Node} {now : UInt32} {data r : List UInt8}
    (h : Sound net printf ⟨{ s with ctx := s.ctx.receive now }, now, data, r, s'⟩) :
    Sound net printf ⟨s, now, data, r, s'⟩ := by
  have hctx : (s.ctx.receive now).src = s.ctx.src ∧ (s.ctx.receive now).dSrc = s.ctx.dSrc ∧
      (s.ctx.receive now).bufferSize = s.ctx.bufferSize ∧
      (s.ctx.receive now).linkId = s.ctx.linkId := by
    unfold Ctx.receive
    dsimp only
    split <;> exact ⟨rfl, rfl, rfl, rfl⟩
  obtain ⟨hsrc, hdSrc, hsize, hlink⟩ := hctx
  rcases h with h | ⟨pack, payload, h⟩
  · exact Or.inl ⟨h.log_eq, h.received_ne⟩
  · obtain ⟨hreceived, hvalid, hdispatched, hforwarded⟩ := h
    dsimp only at hvalid hdispatched hforwarded
    obtain ⟨hsop, hver, haddr, hlen, hle, hcrc, heop⟩ := hvalid
    rw [hsrc] at hdispatched hforwarded haddr
    rw [hdSrc] at haddr
    rw [hsize] at hle
    rw [hlink] at hforwarded
    exact Or.inr ⟨pack, payload, hreceived, ⟨hsop, hver, haddr, hlen, hle, hcrc, heop⟩,
      hdispatched, hforwarded⟩

/-- **Every move of every run is sound**: bytes and blocks, at any ticks, from any
context in its start state. -/
theorem moves_sound (net : Network) (printf : Output) (calls : List (Call UInt32 UInt8)) {s : Node}
    (hs : s.ctx.status = .sop) :
    ∀ m ∈ (parser net printf).moves expired calls s, Sound net printf m := by
  refine BlockParser.recorded_rule Node.Progress ?_ ?_ calls (Node.progress_of_sop hs)
  · intro t b s r h
    obtain ⟨hsound, hnext⟩ := (h.receive t).take_sound net printf t b
    refine ⟨hsound.of_receive, ?_⟩
    simpa [BlockParser.record, BlockParser.stepMove, parser, Node.next, commRun] using hnext
  · intro t data s r h hne hlen
    have hst : s.ctx.status = .data := by
      by_contra hst
      exact hne (by simpa [parser, hst] using hlen)
    have hnext := h.copyData t hst (by simpa [parser, hst] using hlen)
    have hst' : (s.ctx.copyData t data).status = .data := hst
    refine ⟨Or.inl ⟨rfl, fun pack payload hsized => ?_⟩, ?_⟩
    · have := hnext.short (by simp [hst']) pack payload [] hsized (by simp)
      rwa [List.append_nil] at this
    · simpa [BlockParser.record, BlockParser.copyMove, parser, hst'] using hnext

end Atoman.Comm
