import Atoman.Comm.Moves
import Mathlib.Data.List.Chain

/-!
# Sending and receiving, 0xE8

A frame that arrives in time at a parser in its start state goes through, unless a
check refuses it. With what a completed frame does this gives both ends of the
protocol: what one node sends arrives at the node it addresses, and what is for
another node is sent on.
-/

namespace Atoman.Comm
open Lib

variable {net : Network} {printf : Output}

/-! ## Frames on their way -/

/-- Bytes at their ticks. -/
def arrive (net : Network) (printf : Output) (arrivals : List (UInt32 × UInt8)) (s : Node) : Node :=
  arrivals.foldl (fun s p => commRun net printf p.1 p.2 s) s

/-- No byte comes late after the one before. -/
def InTime (arrivals : List (UInt32 × UInt8)) : Prop :=
  arrivals.IsChain fun p q => q.1 - p.1 ≤ commFrameTimeoutTick

instance (arrivals : List (UInt32 × UInt8)) : Decidable (InTime arrivals) :=
  inferInstanceAs (Decidable (List.IsChain _ _))

/-- The node accepts the frame: the payload fits, and a frame for this node is for its
dynamic address and has a callback. -/
structure Accepts (s : Node) (pack : Pack) (payload : List UInt8) : Prop where
  version_eq : pack.version = commVer1
  sized : Pack.Sized pack payload
  len_le : pack.len ≤ s.ctx.bufferSize
  dDst_match : isAddrMatch pack.dst s.ctx.src → isAddrMatch pack.dDst s.ctx.dSrc
  found : isAddrMatch pack.dst s.ctx.src →
    (s.commands.findCommFunc pack.cmdSet pack.cmdWord).1 ≠ none

/-- The node `s₀` has received the first bytes of a frame and is now `s`. -/
structure Along (s₀ : Node) (pack : Pack) (s : Node) (done : List UInt8) : Prop where
  progress : s.Progress done
  src_eq : s.ctx.src = s₀.ctx.src
  dSrc_eq : s.ctx.dSrc = s₀.ctx.dSrc
  bufferSize_eq : s.ctx.bufferSize = s₀.ctx.bufferSize
  linkId_eq : s.ctx.linkId = s₀.ctx.linkId
  log_eq : s.log = s₀.log
  found_eq : (s.commands.findCommFunc pack.cmdSet pack.cmdWord).1 =
    (s₀.commands.findCommFunc pack.cmdSet pack.cmdWord).1

section take
variable {s₀ s : Node} {pack : Pack} {payload done rest : List UInt8} {b : UInt8}

/-- The context refuses no byte of an accepted frame that only concerns itself. The
states that check something find the byte, and what they check it against, in the
bytes of the frame. -/
theorem Along.takeCtx_status (h : Along s₀ pack s done) (hacc : Accepts s₀ pack payload)
    (hbytes : wireBytes pack payload = done ++ b :: rest) : (s.ctx.take b).status ≠ .sop := by
  obtain ⟨hseen, hchecked, hcrc⟩ := h.progress
  rw [← hseen] at hbytes
  cases hst : s.ctx.status <;> simp only [Ctx.take, hst]
    <;> simp only [Node.Checked, hst] at hchecked
  case sop =>
    obtain rfl : commSopByte = b := by
      simpa [Ctx.seen, Ctx.headLength, hst, wireBytes, wireBody, frameHead] using
        congrArg List.head? hbytes
    simp
  case ver =>
    simp only [Ctx.seen, Ctx.headLength, hst, wireBytes, wireBody, frameHead, List.take_succ_cons,
      List.cons_append, List.cons.injEq, List.take_zero, List.nil_append, true_and] at hbytes
    rw [← hbytes.1, hacc.version_eq]
    simp [Ctx.updateCrc]
  case src => split <;> simp [Ctx.updateCrc]
  case dst =>
    obtain ⟨-, hroute⟩ := hchecked
    by_cases hflag : s.ctx.dstFlag
    · simp only [Ctx.seen, Ctx.headLength, hst, hflag, wireBytes, wireBody, frameHead, if_true,
        List.take_succ_cons, List.cons_append, List.cons.injEq, List.take_zero, List.nil_append,
        true_and] at hbytes
      obtain ⟨-, -, -, hdst, hdDst, -⟩ := hbytes
      have haddr : isAddrMatch b s.ctx.dSrc ∨ s.ctx.isRoute := by
        rw [hroute hflag, ← hdst, ← hdDst, h.src_eq, h.dSrc_eq]
        cases hlocal : isAddrMatch pack.dst s₀.ctx.src
        · exact Or.inr rfl
        · exact Or.inl (hacc.dDst_match hlocal)
      simp [hflag, Ctx.updateCrc, haddr]
    · simp [hflag, Ctx.updateCrc]
  case cmd => simp [Ctx.updateCrc]
  case ack => simp [Ctx.updateCrc]
  case len =>
    obtain ⟨-, hlen⟩ := hchecked
    by_cases hflag : s.ctx.lenFlag
    · rw [if_pos hflag] at hlen
      obtain ⟨lo, hlo⟩ := hlen
      simp only [Ctx.seen, Ctx.headLength, hst, hflag, wireBytes, wireBody, frameHead, if_true,
        List.take_succ_cons, List.cons_append, List.cons.injEq, List.take_zero, List.nil_append,
        true_and] at hbytes
      obtain ⟨-, -, -, -, -, -, -, -, hlow, hhigh, -⟩ := hbytes
      have hword : s.ctx.pack.len ||| (b.toUInt16 <<< 8) = pack.len := by
        rw [hlo] at hlow ⊢
        refine word_bytes ?_ ?_
        · rw [lowByte_word, hlow, lowByte_byte]
        · rw [highByte_word, hhigh]
      have hfit : ¬ s.ctx.bufferSize < pack.len := by
        rw [h.bufferSize_eq]
        exact UInt16.not_lt.mpr hacc.len_le
      simp [hflag, Ctx.updateCrc, hword, hfit]
    · simp [hflag, Ctx.updateCrc]
  case data => split <;> simp [Ctx.updateCrc]
  case crc =>
    obtain ⟨-, lo, hlo⟩ := hchecked
    rw [if_pos hst] at hcrc
    have hsized : Pack.Sized s.ctx.pack s.ctx.payload := by simp [Pack.Sized, Ctx.payload]
    have hctx : s.ctx.seen ++ b :: rest = frameHead s.ctx.pack ++ s.ctx.payload ++
        ((s.ctx.pack.crc &&& 0xFF).toUInt8 :: b :: rest) := by
      simp [Ctx.seen, Ctx.headLength, hst, frameHead]
    obtain ⟨hhead, hpayload, htail⟩ := frame_inj hacc.sized hsized (hbytes.trans hctx)
    simp only [List.cons.injEq] at htail
    have heq : crc16Final s.ctx.crc = s.ctx.pack.crc ||| (b.toUInt16 <<< 8) := by
      rw [hcrc (by simp [hst]) (by simp [hst]), wireBody, ← hhead, ← hpayload]
      refine word_bytes ?_ ?_
      · rw [hlo, lowByte_word, ← lowByte_byte lo, ← hlo, ← htail.1]; rfl
      · rw [hlo, highByte_word, ← htail.2.1]; rfl
    simp [heq]
  case eop => simp

/-- The second command byte of an accepted frame is not refused either. -/
theorem Along.takeCmdWord (h : Along s₀ pack s done) (hacc : Accepts s₀ pack payload)
    (hbytes : wireBytes pack payload = done ++ b :: rest) (hst : s.ctx.status = .cmd)
    (hflag : s.ctx.cmdFlag) :
    (s.takeCmdWord b).ctx.status ≠ .sop ∧
      ((s.takeCmdWord b).commands.findCommFunc pack.cmdSet pack.cmdWord).1 =
        (s.commands.findCommFunc pack.cmdSet pack.cmdWord).1 := by
  obtain ⟨hseen, hchecked, -⟩ := h.progress
  simp only [Node.Checked, hst] at hchecked
  rw [← hseen] at hbytes
  simp only [Ctx.seen, Ctx.headLength, hst, hflag, wireBytes, wireBody, frameHead, if_true,
    List.take_succ_cons, List.cons_append, List.cons.injEq, List.take_zero, List.nil_append,
    true_and] at hbytes
  obtain ⟨-, -, -, hdst, -, hcmdSet, hcmdWord, -⟩ := hbytes
  simp only [Node.takeCmdWord, Ctx.updateCrc]
  by_cases hroute : s.ctx.isRoute
  · simp [hroute]
  · have hlocal : isAddrMatch pack.dst s₀.ctx.src = true := by
      rw [hchecked.isRoute_eq, ← hdst, h.src_eq] at hroute
      simpa using hroute
    have hfound : (s.commands.findCommFunc s.ctx.pack.cmdSet b).1 ≠ none := by
      rw [← hcmdSet, ← hcmdWord, h.found_eq]
      exact hacc.found hlocal
    simp only [hroute, Bool.false_eq_true, if_false, hfound]
    refine ⟨by simp, ?_⟩
    rw [hcmdSet, hcmdWord]
    exact CommandList.findCommFunc_again _ _ _

/-- What a byte leaves alone. -/
theorem Ctx.take_static (c : Ctx) (b : UInt8) :
    (c.take b).src = c.src ∧ (c.take b).dSrc = c.dSrc ∧ (c.take b).bufferSize = c.bufferSize ∧
      (c.take b).linkId = c.linkId := by
  cases hst : c.status <;> simp only [Ctx.take, hst]
  all_goals
    repeat' split
    all_goals first | exact ⟨rfl, rfl, rfl, rfl⟩ | simp

theorem Node.takeCmdWord_static (s : Node) (b : UInt8) :
    (s.takeCmdWord b).ctx.src = s.ctx.src ∧ (s.takeCmdWord b).ctx.dSrc = s.ctx.dSrc ∧
      (s.takeCmdWord b).ctx.bufferSize = s.ctx.bufferSize ∧
      (s.takeCmdWord b).ctx.linkId = s.ctx.linkId := by
  unfold Node.takeCmdWord
  dsimp only
  split
  · exact ⟨rfl, rfl, rfl, rfl⟩
  · split <;> exact ⟨rfl, rfl, rfl, rfl⟩

/-- At the second end byte nothing of the frame is left. -/
theorem Along.last (h : Along s₀ pack s done) (hacc : Accepts s₀ pack payload)
    (hbytes : wireBytes pack payload = done ++ b :: rest) (hst : s.ctx.status = .eop)
    (hflag : s.ctx.eopFlag) : rest = [] := by
  obtain ⟨hseen, -, -⟩ := h.progress
  have hsized : Pack.Sized s.ctx.pack s.ctx.payload := by simp [Pack.Sized, Ctx.payload]
  have hctx : s.ctx.seen ++ b :: rest = frameHead s.ctx.pack ++ s.ctx.payload ++
      ((s.ctx.pack.crc &&& 0xFF).toUInt8 :: ((s.ctx.pack.crc >>> 8) &&& 0xFF).toUInt8 ::
        (s.ctx.pack.eop &&& 0xFF).toUInt8 :: b :: rest) := by
    simp [Ctx.seen, Ctx.headLength, hst, hflag, frameHead, -UInt16.toUInt8_and]
  rw [← hseen] at hbytes
  have htail := (frame_inj hacc.sized hsized (hbytes.trans hctx)).2.2
  simp only [List.cons.injEq] at htail
  exact htail.2.2.2.2.symm

variable (net printf) in
/-- **A byte of an accepted frame, not the last one**, brings the frame along. -/
theorem Along.take (h : Along s₀ pack s done) (hacc : Accepts s₀ pack payload)
    (hbytes : wireBytes pack payload = done ++ b :: rest) (hrest : rest ≠ []) :
    Along s₀ pack (s.take net printf b) (done ++ [b]) := by
  have hnext := (h.progress.take_sound net printf 0 b).2
  by_cases hcmd : s.ctx.status = .cmd ∧ s.ctx.cmdFlag
  · obtain ⟨hstatus, hfound⟩ := h.takeCmdWord hacc hbytes hcmd.1 hcmd.2
    obtain ⟨hsrc, hdSrc, hsize, hlink⟩ := s.takeCmdWord_static b
    rw [Node.take, if_pos hcmd] at hnext ⊢
    rw [Node.next, if_neg hstatus] at hnext
    exact ⟨hnext, hsrc.trans h.src_eq, hdSrc.trans h.dSrc_eq, hsize.trans h.bufferSize_eq,
      hlink.trans h.linkId_eq, (s.takeCmdWord_log b).trans h.log_eq, hfound.trans h.found_eq⟩
  · have heop : ¬ (s.ctx.status = .eop ∧ s.ctx.eopFlag) := fun heop =>
      hrest (h.last hacc hbytes heop.1 heop.2)
    obtain ⟨hsrc, hdSrc, hsize, hlink⟩ := s.ctx.take_static b
    have hstatus := h.takeCtx_status hacc hbytes
    rw [Node.take, if_neg hcmd, if_neg heop] at hnext ⊢
    rw [Node.next, if_neg hstatus] at hnext
    exact ⟨hnext, hsrc.trans h.src_eq, hdSrc.trans h.dSrc_eq, hsize.trans h.bufferSize_eq,
      hlink.trans h.linkId_eq, h.log_eq, h.found_eq⟩

/-- The timeout check on a byte in time. -/
theorem Along.receive (h : Along s₀ pack s done) {now : UInt32}
    (htime : s.ctx.status = .sop ∨ now - s.ctx.lastRxTick ≤ commFrameTimeoutTick) :
    Along s₀ pack { s with ctx := s.ctx.receive now } done := by
  have hlate : ¬ (s.ctx.status ≠ .sop ∧ commFrameTimeoutTick < now - s.ctx.lastRxTick) := by
    rintro ⟨hstatus, hlt⟩
    rcases htime with htime | htime
    · exact hstatus htime
    · exact UInt32.not_lt.mpr htime hlt
  have hprogress := h.progress.receive now
  have hrecv : s.ctx.receive now = { s.ctx with lastRxTick := now } := by
    simp only [Ctx.receive, if_neg hlate]
  rw [if_neg (by simpa [expired] using hlate), hrecv] at hprogress
  rw [hrecv]
  exact ⟨hprogress, h.src_eq, h.dSrc_eq, h.bufferSize_eq, h.linkId_eq, h.log_eq, h.found_eq⟩

end take

/-! ## Arrival -/

/-- A frame has gone through: the parser is in its start state, and the frame was
dispatched, with the fields of its head, or sent on. -/
structure GoneThrough (net : Network) (printf : Output) (s₀ : Node) (pack : Pack)
    (payload : List UInt8) (s : Node) : Prop where
  status_eq : s.ctx.status = .sop
  reset_eq : s.ctx.reset = s.ctx
  dispatched : isAddrMatch pack.dst s₀.ctx.src → ∃ func received,
    (s₀.commands.findCommFunc pack.cmdSet pack.cmdWord).1 = some func ∧
      frameHead received = frameHead pack ∧ received.Valid s₀.ctx payload ∧
      s.log = s₀.log ++ [Event.dispatched func printf received payload]
  forwarded : ¬ isAddrMatch pack.dst s₀.ctx.src →
    s.log = s₀.log ++ forwarded net s₀.ctx.linkId pack payload

/-- What the head of a frame says. -/
theorem frameHead_inj {p q : Pack} (h : frameHead p = frameHead q) :
    p.version = q.version ∧ p.src = q.src ∧ p.dSrc = q.dSrc ∧ p.dst = q.dst ∧ p.dDst = q.dDst ∧
      p.cmdSet = q.cmdSet ∧ p.cmdWord = q.cmdWord ∧ p.isAck = q.isAck ∧ p.len = q.len := by
  have hlen := frameHead_len h
  simp only [frameHead, List.cons.injEq, and_true] at h
  obtain ⟨-, hversion, hsrc, hdSrc, hdst, hdDst, hcmdSet, hcmdWord, hisAck, -⟩ := h
  exact ⟨hversion, hsrc, hdSrc, hdst, hdDst, hcmdSet, hcmdWord, hisAck, hlen⟩

theorem wireBytes_congr {p q : Pack} (h : frameHead p = frameHead q) (payload : List UInt8) :
    wireBytes p payload = wireBytes q payload := by
  simp only [wireBytes, wireCrc, wireBody, h]

variable (net printf) in
/-- The last byte of an accepted frame. -/
theorem Along.takeLast {s₀ s : Node} {pack : Pack} {payload done : List UInt8} {b : UInt8}
    (h : Along s₀ pack s done) (hacc : Accepts s₀ pack payload)
    (hbytes : wireBytes pack payload = done ++ [b]) :
    GoneThrough net printf s₀ pack payload (s.take net printf b) := by
  have heop : s.ctx.status = .eop ∧ s.ctx.eopFlag := by
    by_contra heop
    exact h.progress.short heop pack payload [b] hacc.sized (by simp) hbytes.symm
  have htake : s.take net printf b = s.takeEop net printf b := by
    rw [Node.take, if_neg (by simp [heop.1]), if_pos heop]
  rcases (h.progress.take_sound net printf 0 b).1 with hsilent | ⟨received, payload', hdone⟩
  · exact absurd hbytes.symm (hsilent.received_ne pack payload hacc.sized)
  · obtain ⟨hreceived, hvalid, hdispatched, hforwarded⟩ := hdone
    dsimp only at hreceived hvalid hdispatched hforwarded
    obtain ⟨hhead, rfl, -⟩ := frame_inj hacc.sized hvalid.len_eq (hbytes.trans hreceived)
    obtain ⟨-, -, -, hdst, -, hcmdSet, hcmdWord, -, hlen⟩ := frameHead_inj hhead
    refine ⟨by rw [htake]; rfl, by rw [htake]; rfl, fun hlocal => ?_, fun hother => ?_⟩
    · rw [← h.src_eq, hdst] at hlocal
      obtain ⟨func, hfound, hlog⟩ := hdispatched hlocal
      rw [← hcmdSet, ← hcmdWord, h.found_eq] at hfound
      obtain ⟨hsop, hver, haddr, hsized, hle, hcrc, heop'⟩ := hvalid
      rw [h.src_eq, h.dSrc_eq] at haddr
      rw [h.bufferSize_eq] at hle
      exact ⟨func, received, hfound, hhead.symm, ⟨hsop, hver, haddr, hsized, hle, hcrc, heop'⟩,
        by rw [hlog, h.log_eq]⟩
    · rw [← h.src_eq, hdst] at hother
      rw [hforwarded hother, h.log_eq, h.linkId_eq]
      simp only [forwarded, hdst, hlen, wireBytes_congr hhead]

variable (net printf) in
/-- **An accepted frame goes through when it arrives in time.** By induction on the
bytes that are left; each of them finds the parser not expired, because the one
before has left its tick. -/
theorem Along.arrive {s₀ s : Node} {pack : Pack} {payload done : List UInt8}
    (arrivals : List (UInt32 × UInt8)) (h : Along s₀ pack s done) (hacc : Accepts s₀ pack payload)
    (hbytes : wireBytes pack payload = done ++ arrivals.map Prod.snd) (hne : arrivals ≠ [])
    (hfirst : ∀ p ∈ arrivals.head?, s.ctx.status = .sop ∨
      p.1 - s.ctx.lastRxTick ≤ commFrameTimeoutTick) (htime : InTime arrivals) :
    GoneThrough net printf s₀ pack payload (arrive net printf arrivals s) := by
  induction arrivals generalizing s done with
  | nil => exact absurd rfl hne
  | cons p rest ih =>
    have hrecv := h.receive (hfirst p rfl)
    cases rest with
    | nil => exact hrecv.takeLast net printf hacc hbytes
    | cons q rest =>
      obtain ⟨hnext, hchain⟩ := List.isChain_cons_cons.mp htime
      have hstep := hrecv.take net printf hacc hbytes (by simp)
      refine ih hstep (by simpa using hbytes) (by simp) (fun p' hp' => Or.inr ?_) hchain
      obtain rfl := Option.some.inj hp'
      have htick : (commRun net printf p.1 p.2 s).ctx.lastRxTick = p.1 := commRun_lastRxTick p.2 s
      show q.1 - (commRun net printf p.1 p.2 s).ctx.lastRxTick ≤ _
      rw [htick]
      exact hnext

variable (net printf) in
/-- An accepted frame goes through from the start state. -/
theorem frame_arrives {s : Node} (hs : s.ctx.status = .sop) {pack : Pack} {payload : List UInt8}
    (hacc : Accepts s pack payload) {arrivals : List (UInt32 × UInt8)}
    (hbytes : arrivals.map Prod.snd = wireBytes pack payload) (htime : InTime arrivals) :
    GoneThrough net printf s pack payload (arrive net printf arrivals s) := by
  have hstart : Along s pack s [] := ⟨Node.progress_of_sop hs, rfl, rfl, rfl, rfl, rfl, rfl⟩
  refine hstart.arrive net printf arrivals hacc (by simpa using hbytes.symm) ?_
    (fun _ _ => Or.inl hs) htime
  rintro rfl
  have := congrArg List.length hbytes
  rw [length_wireBytes] at this
  simp at this
  omega

/-! ## End to end -/

/-- The received frame has the fields of the sent one. -/
structure SameHeader (received sent : Pack) : Prop where
  sop : received.sop = sent.sop
  src : received.src = sent.src
  dSrc : received.dSrc = sent.dSrc
  dst : received.dst = sent.dst
  dDst : received.dDst = sent.dDst
  cmdSet : received.cmdSet = sent.cmdSet
  cmdWord : received.cmdWord = sent.cmdWord
  isAck : received.isAck = sent.isAck
  len : received.len = sent.len

/-- **What is sent is received.** What the sender emits for a pack arrives in time at
a parser in its start state that the pack addresses, that has room for the payload
and a callback for the command: the callback is called once, with the fields and the
payload of the pack and the version the sender writes, and the parser is in its start
state again. -/
theorem comm_send_received (net : Network) (printf : Output) (pack : Pack) (data : Memory UInt8)
    (hsop : pack.sop = commSopByte) (output : ℕ) (frame : List UInt8)
    (hsent : (commSendData pack data (some output)).2 = [.sent output frame]) (s : Node) (func : ℕ)
    (hidle : s.ctx.status = .sop) (hsize : pack.len ≤ s.ctx.bufferSize)
    (hlocal : isAddrMatch pack.dst s.ctx.src ∧ isAddrMatch pack.dDst s.ctx.dSrc)
    (hfunc : (s.commands.findCommFunc pack.cmdSet pack.cmdWord).1 = some func)
    (arrivals : List (UInt32 × UInt8)) (hframe : arrivals.map Prod.snd = frame)
    (htime : InTime arrivals) :
    ∃ received, (arrive net printf arrivals s).log =
        s.log ++ [Event.dispatched func printf received (data.slice 0 pack.len.toNat)] ∧
      SameHeader received pack ∧ received.version = commVer1 ∧
      (arrive net printf arrivals s).ctx.status = .sop ∧
      (arrive net printf arrivals s).ctx.reset = (arrive net printf arrivals s).ctx := by
  have hdata : ¬ (0 < pack.len ∧ pack.pData = .null) := by
    intro hnull
    rw [commSendData, if_neg (by rw [hsop]; decide), if_neg (not_not_intro hsop), if_pos hnull]
      at hsent
    exact absurd hsent (by simp)
  rw [commSendData_eq hsop hdata] at hsent
  have hbytes :
      frame = wireBytes { pack with version := commVer1 } (data.slice 0 pack.len.toNat) := by
    split at hsent
    · simpa [transmit] using hsent.symm
    · exact absurd hsent (by simp)
  have hacc : Accepts s { pack with version := commVer1 } (data.slice 0 pack.len.toNat) :=
    ⟨rfl, by simp [Pack.Sized], hsize, fun _ => hlocal.2, fun _ => by simp [hfunc]⟩
  obtain ⟨hstatus, hreset, hdispatched, -⟩ :=
    frame_arrives net printf hidle hacc (hframe.trans hbytes) htime
  obtain ⟨func', received, hfound, hhead, hvalid, hlog⟩ := hdispatched hlocal.1
  obtain rfl : func = func' := Option.some.inj (hfunc.symm.trans hfound)
  obtain ⟨hversion, hsrc, hdSrc, hdst, hdDst, hcmdSet, hcmdWord, hisAck, hlen⟩ :=
    frameHead_inj hhead
  exact ⟨received, hlog,
    ⟨hvalid.sop_eq.trans hsop.symm, hsrc, hdSrc, hdst, hdDst, hcmdSet, hcmdWord, hisAck, hlen⟩,
    hversion, hstatus, hreset⟩

/-- **Routing, 0xE8.** In every run of bytes and blocks, a move that completes a frame
for another node with a route to an existing link sends just the bytes of the frame
on that link, once, if they fit the transmit buffer; and every such frame that arrives
in time at a parser in its start state is completed. -/
theorem routed_frame_forwarded (net : Network) (printf : Output) (s : Node)
    (hidle : s.ctx.status = .sop) (pack : Pack) (payload : List UInt8)
    (hsized : Pack.Sized pack payload) :
    (∀ (calls : List (Call UInt32 UInt8)), ∀ m ∈ (parser net printf).moves expired calls s,
      m.received = wireBytes pack payload → ¬ isAddrMatch pack.dst m.before.ctx.src →
      ∀ route link, net.findRoute m.before.ctx.linkId pack.dst = some route →
        net.findLinkById route.dstLinkId = some link →
        m.after.log = m.before.log ++
          if 15 + payload.length ≤ commTxBufferSize then
            transmit link.output (wireBytes pack payload)
          else []) ∧
    (pack.version = commVer1 → pack.len ≤ s.ctx.bufferSize → ¬ isAddrMatch pack.dst s.ctx.src →
      ∀ arrivals : List (UInt32 × UInt8), arrivals.map Prod.snd = wireBytes pack payload →
        InTime arrivals →
      ∀ route link, net.findRoute s.ctx.linkId pack.dst = some route →
        net.findLinkById route.dstLinkId = some link →
        (arrive net printf arrivals s).ctx.status = .sop ∧
        (arrive net printf arrivals s).log = s.log ++
          if 15 + payload.length ≤ commTxBufferSize then
            transmit link.output (wireBytes pack payload)
          else []) := by
  have hforwarded : ∀ linkId route link, net.findRoute linkId pack.dst = some route →
      net.findLinkById route.dstLinkId = some link → forwarded net linkId pack payload =
        if 15 + payload.length ≤ commTxBufferSize then transmit link.output (wireBytes pack payload)
        else [] := by
    intro linkId route link hroute hlink
    simp only [forwarded, hroute, hlink]
    rw [show pack.len.toNat = payload.length from hsized]
  constructor
  · intro calls m hm hreceived hdst route link hroute hlink
    rcases moves_sound net printf calls hidle m hm with hsilent | ⟨pack', payload', hdone⟩
    · exact absurd hreceived (hsilent.received_ne pack payload hsized)
    · have hwire := hreceived.symm.trans hdone.received_eq
      obtain ⟨hhead, rfl, -⟩ := frame_inj hsized hdone.valid.len_eq hwire
      obtain ⟨-, -, -, hdst', -, -, -, -, hlen⟩ := frameHead_inj hhead
      rw [hdst'] at hdst
      rw [hdone.forwarded hdst, ← hforwarded _ _ _ hroute hlink]
      simp only [forwarded, hdst', hlen, wireBytes_congr hhead]
  · intro hversion hsize hdst arrivals hbytes htime route link hroute hlink
    have hacc : Accepts s pack payload :=
      ⟨hversion, hsized, hsize, fun h => absurd h hdst, fun h => absurd h hdst⟩
    obtain ⟨hstatus, -, -, hsent⟩ := frame_arrives net printf hidle hacc hbytes htime
    exact ⟨hstatus, by rw [hsent hdst, hforwarded _ _ _ hroute hlink]⟩

/-- A node with address 1 and room for 512 bytes. -/
def routeNode : Node := ⟨.declare 512 1 0 3, ⟨[], none⟩, []⟩

/-- Frames for address 9 from link 3 go to link 4. -/
def routeNetwork : Network := ⟨[⟨3, 4, 9⟩], [⟨4, some 5⟩], fun _ _ pack data => (pack, data)⟩

/-- A frame for address 9 with a payload of some length. -/
def routePack (len : UInt16) : Pack :=
  { sop := commSopByte, version := commVer1, src := 2, dSrc := 0, dst := 9, dDst := 0, cmdSet := 1
    cmdWord := 2, isAck := 0, len := len, pData := .buffer, crc := 0, eop := 0, seq := 0 }

/-- Bytes that all arrive at one tick. -/
def atOnce (bytes : List UInt8) : List (UInt32 × UInt8) := bytes.map fun b => (0, b)

theorem atOnce_bytes (bytes : List UInt8) : (atOnce bytes).map Prod.snd = bytes := by
  simp [atOnce, Function.comp_def]

theorem inTime_atOnce (bytes : List UInt8) : InTime (atOnce bytes) := by
  unfold InTime atOnce
  rw [List.isChain_map]
  have hzero : (0 : UInt32) - 0 ≤ commFrameTimeoutTick := by decide
  exact List.Pairwise.isChain (List.pairwise_of_forall fun _ _ => hzero)

theorem routed_frame_forwarded_demo :
    Pack.Sized (routePack 1) [0x55] ∧
    (arrive routeNetwork none (atOnce (wireBytes (routePack 1) [0x55])) routeNode).log =
      [.sent 5 (wireBytes (routePack 1) [0x55])] := by
  have h := (routed_frame_forwarded routeNetwork none routeNode rfl (routePack 1) [0x55] rfl).2 rfl
    (by decide) (by decide) _ (atOnce_bytes _) (inTime_atOnce _) ⟨3, 4, 9⟩ ⟨4, some 5⟩ rfl rfl
  exact ⟨rfl, h.2⟩

/-- A frame with 498 payload bytes is accepted, but not sent on. -/
theorem long_frame_dropped :
    Accepts routeNode (routePack 498) (List.replicate 498 0) ∧
    routeNetwork.findRoute routeNode.ctx.linkId (routePack 498).dst = some ⟨3, 4, 9⟩ ∧
    routeNetwork.findLinkById 4 = some ⟨4, some 5⟩ ∧
    (arrive routeNetwork none (atOnce (wireBytes (routePack 498) (List.replicate 498 0)))
      routeNode).log = [] ∧
    (arrive routeNetwork none (atOnce (wireBytes (routePack 498) (List.replicate 498 0)))
      routeNode).log ≠ [.sent 5 (wireBytes (routePack 498) (List.replicate 498 0))] := by
  have hacc : Accepts routeNode (routePack 498) (List.replicate 498 0) :=
    ⟨rfl, by rw [Pack.Sized, List.length_replicate]; rfl, by decide, fun h => absurd h (by decide),
      fun h => absurd h (by decide)⟩
  have hlog : (arrive routeNetwork none (atOnce (wireBytes (routePack 498) (List.replicate 498 0)))
      routeNode).log = [] :=
    (frame_arrives routeNetwork none rfl hacc (atOnce_bytes _) (inTime_atOnce _)).forwarded
      (by decide)
  exact ⟨hacc, rfl, rfl, hlog, by rw [hlog]; exact (List.cons_ne_nil _ _).symm⟩

/-- One byte for the command of `demoNode`. -/
def demoPack : Pack :=
  { sop := commSopByte, version := 0, src := 2, dSrc := 0, dst := 1, dDst := 0, cmdSet := 1
    cmdWord := 2, isAck := 0, len := 1, pData := .buffer, crc := 0, eop := 0, seq := 0 }

/-- Its frame, every byte 1000 ticks after the one before. -/
def demoArrivals : List (UInt32 × UInt8) :=
  (demoHead ++ demoTail).mapIdx fun i b => (UInt32.ofNat (1000 * i), b)

theorem comm_send_received_demo :
    (commSendData demoPack (fun _ => 0x55) (some 0)).2 = [.sent 0 (demoHead ++ demoTail)] ∧
    ∃ received, (arrive demoNetwork none demoArrivals demoNode).log =
        demoNode.log ++ [Event.dispatched 7 none received
          (Memory.slice (fun _ => 0x55) 0 demoPack.len.toNat)] ∧
      SameHeader received demoPack ∧ received.version = commVer1 ∧
      (arrive demoNetwork none demoArrivals demoNode).ctx.status = .sop ∧
      (arrive demoNetwork none demoArrivals demoNode).ctx.reset =
        (arrive demoNetwork none demoArrivals demoNode).ctx := by
  have hsent : (commSendData demoPack (fun _ => 0x55) (some 0)).2 =
      [.sent 0 (demoHead ++ demoTail)] := by decide +kernel
  exact ⟨hsent, comm_send_received demoNetwork none demoPack (fun _ => 0x55) rfl 0 _ hsent
    demoNode 7
    rfl (by decide) (by decide) (by decide) demoArrivals (by decide +kernel) (by decide +kernel)⟩

end Atoman.Comm
