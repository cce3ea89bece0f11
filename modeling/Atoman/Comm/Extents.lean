import Atoman.Comm.Moves
import Atoman.Comm.V1Moves

/-!
# The stores of the parsers

Where the parsers store, byte by byte and in blocks. The payload of a 0xE8 frame
stays in the buffer because its length is checked against it. The two extents of a
0xE9 frame, payload and capture, stay six apart while the payload arrives, and the
decoder is given the size of its buffer. `Bounded` is the invariant of each parser.
-/

namespace Atoman.Comm
open Lib

variable {net : Network} {printf : Output} {now : UInt32}

/-- A memory after a step: the stores of the parser stay below cell `n`; then a callback
may have stored what it wants. -/
def StoredBelow (net : Network) (log : List Event) (n : ℕ) (mem mem' : Memory UInt8) : Prop :=
  ∃ own, Memory.AgreesFrom n own mem ∧
    (mem' = own ∨ ∃ func pack, mem' = (net.callback log func pack own).2)

theorem StoredBelow.own {log : List Event} {n : ℕ} {mem mem' : Memory UInt8}
    (h : Memory.AgreesFrom n mem' mem) : StoredBelow net log n mem mem' := ⟨mem', h, Or.inl rfl⟩

/-- Stores of the parser in front of others. -/
theorem StoredBelow.after {log : List Event} {n : ℕ} {mem mem' mem'' : Memory UInt8}
    (h : StoredBelow net log n mem' mem'') (hown : Memory.AgreesFrom n mem' mem) :
    StoredBelow net log n mem mem'' := by
  obtain ⟨own, hagree, hcallback⟩ := h
  exact ⟨own, fun i hi => (hagree i hi).trans (hown i hi), hcallback⟩

theorem StoredBelow.refl (log : List Event) (n : ℕ) (mem : Memory UInt8) :
    StoredBelow net log n mem mem := .own (Memory.AgreesFrom.refl n mem)

/-! ## 0xE8 -/

/-- The books of the payload: the buffer has the size it was declared with. -/
structure Ctx.Bounded (c : Ctx) (size : UInt16) : Prop where
  fits : c.Fits
  size_eq : c.bufferSize = size

/-- The bytes of a payload that a move stores fit behind what is stored. -/
def Ctx.RoomFor (c : Ctx) (n : ℕ) : Prop :=
  c.status = .data → c.len ≠ 0 → c.index.toNat + n ≤ c.bufferSize.toNat

theorem Ctx.Fits.roomFor {c : Ctx} (h : c.Fits) {n : ℕ} (hn : c.status = .data → n ≤ c.len.toNat) :
    c.RoomFor n := by
  intro hst _
  have := h hst
  have := hn hst
  omega

theorem Ctx.Fits.roomFor_one {c : Ctx} (h : c.Fits) : c.RoomFor 1 := by
  intro hst hlen
  have hpos : c.len.toNat ≠ 0 := fun h0 => hlen (UInt16.toNat_inj.mp h0)
  have := h hst
  omega

/-- A byte of a frame is stored in the buffer only. -/
theorem Ctx.Fits.take_stores {c : Ctx} (h : c.Fits) (b : UInt8) :
    Memory.AgreesFrom c.bufferSize.toNat (c.take b).dataBuffer c.dataBuffer := by
  cases hst : c.status <;> simp only [Ctx.take, hst]
  case data =>
    split
    · next hlen => exact Memory.write_agreesFrom _ (h.roomFor_one hst hlen)
    · exact Memory.AgreesFrom.refl _ _
  all_goals
    repeat' split
    all_goals exact Memory.AgreesFrom.refl _ _

theorem Ctx.receive_buffer (c : Ctx) (now : UInt32) :
    (c.receive now).dataBuffer = c.dataBuffer ∧ (c.receive now).bufferSize = c.bufferSize := by
  unfold Ctx.receive
  dsimp only
  split <;> exact ⟨rfl, rfl⟩

theorem Node.takeCmdWord_buffer (s : Node) (b : UInt8) :
    (s.takeCmdWord b).ctx.dataBuffer = s.ctx.dataBuffer ∧
      (s.takeCmdWord b).ctx.bufferSize = s.ctx.bufferSize := by
  unfold Node.takeCmdWord
  dsimp only
  split
  · exact ⟨rfl, rfl⟩
  · split <;> exact ⟨rfl, rfl⟩

/-- At the end of a frame only the callback stores. -/
theorem Node.takeEop_buffer (s : Node) (b : UInt8) (n : ℕ) :
    StoredBelow net s.log n s.ctx.dataBuffer (s.takeEop net printf b).ctx.dataBuffer ∧
      (s.takeEop net printf b).ctx.bufferSize = s.ctx.bufferSize := by
  unfold Node.takeEop
  dsimp only
  split
  · split
    · unfold Node.routeRun
      dsimp only
      split
      · exact ⟨.refl _ _ _, rfl⟩
      · split <;> exact ⟨.refl _ _ _, rfl⟩
    · unfold Node.callFunc
      dsimp only
      split
      · exact ⟨.refl _ _ _, rfl⟩
      · exact ⟨⟨_, Memory.AgreesFrom.refl _ _, Or.inr ⟨_, _, rfl⟩⟩, rfl⟩
  · exact ⟨.refl _ _ _, rfl⟩

theorem Ctx.take_bufferSize (c : Ctx) (b : UInt8) : (c.take b).bufferSize = c.bufferSize := by
  cases hst : c.status <;> simp only [Ctx.take, hst]
  all_goals
    repeat' split
    all_goals rfl

variable (net printf now) in
/-- **A byte is stored within the buffer.** -/
theorem commRun_stores {s : Node} (h : s.ctx.Fits) (b : UInt8) :
    StoredBelow net s.log s.ctx.bufferSize.toNat s.ctx.dataBuffer
      (commRun net printf now b s).ctx.dataBuffer ∧
    (commRun net printf now b s).ctx.bufferSize = s.ctx.bufferSize := by
  obtain ⟨hbuffer, hsize⟩ := s.ctx.receive_buffer now
  have htake := (h.receive now).take_stores b
  rw [← hbuffer, ← hsize]
  unfold commRun Node.take
  split
  · obtain ⟨hcells, hsame⟩ := Node.takeCmdWord_buffer { s with ctx := s.ctx.receive now } b
    exact ⟨by rw [hcells]; exact .refl _ _ _, hsame⟩
  · split
    · exact Node.takeEop_buffer { s with ctx := s.ctx.receive now } b _
    · exact ⟨.own htake, (s.ctx.receive now).take_bufferSize b⟩

/-- A block keeps the books. -/
theorem Ctx.Fits.copyData {c : Ctx} (h : c.Fits) {data : List UInt8} (hst : c.status = .data)
    (hlen : data.length ≤ c.len.toNat) : (c.copyData now data).Fits := by
  intro _
  have hfit := h hst
  have hbound := c.bufferSize.toNat_lt
  show (UInt16.ofNat (c.index.toNat + data.length)).toNat +
    (UInt16.ofNat (c.len.toNat - data.length)).toNat ≤ c.bufferSize.toNat
  rw [UInt16.toNat_ofNat', UInt16.toNat_ofNat']
  omega

/-! ## 0xE9 -/

namespace V1

/-- `COMM_V1_FRAME_MAX` -/
def frameMax : ℕ := 263

/-- The books of a declared context: the payload index and the capture stay in their
buffers. -/
structure Ctx.Bounded (c : Ctx) : Prop where
  inFrame : c.InFrame
  index_le : c.index.toNat ≤ maxData
  idle : c.status = .idle → c.wireLen = 0
  size_eq : c.candidateSize = 256

theorem Ctx.Bounded.wireLen_lt {c : Ctx} (h : c.Bounded) : c.wireLen.toNat < frameMax := by
  have hin := h.inFrame
  cases hst : c.status <;> simp only [Ctx.InFrame, hst] at hin
  case idle => rw [h.idle hst]; decide
  case data => simp only [maxData, frameMax] at hin ⊢; omega
  case sum =>
    rcases hin with hin | hin
    · rw [hin]; decide
    · simp only [maxData, frameMax] at hin ⊢; omega
  all_goals rw [hin]; decide

theorem Ctx.bounded_reset {c : Ctx} (h : c.candidateSize = 256) : c.reset.Bounded :=
  ⟨trivial, Nat.zero_le _, fun _ => rfl, h⟩

theorem Ctx.Bounded.receive {c : Ctx} (h : c.Bounded) : (c.receive now).Bounded := by
  have hin := h.inFrame.receive now
  unfold Ctx.receive at hin ⊢
  dsimp only at hin ⊢
  split
  · exact ⟨trivial, Nat.zero_le _, fun _ => rfl, h.size_eq⟩
  · next hlate =>
    rw [if_neg hlate] at hin
    exact ⟨hin, h.index_le, h.idle, h.size_eq⟩

variable (net) in
/-- What a byte does to the payload index. -/
theorem Ctx.take_index (c : Ctx) (b : UInt8) :
    (c.take net b).index = 0 ∨ (c.take net b).index = c.index ∨
      c.status = .data ∧ (c.take net b).index = c.index + 1 := by
  cases hst : c.status <;> simp only [Ctx.take, hst]
  case idle => split <;> simp
  case msgL0 => unfold Ctx.takeL0; dsimp only; split <;> simp [Ctx.capture, Ctx.reset]
  case msgL3 =>
    unfold Ctx.takeL3
    dsimp only
    repeat' split
    all_goals simp [Ctx.capture, Ctx.reset]
  case data => split <;> simp [Ctx.capture]
  all_goals simp [Ctx.capture]

theorem Ctx.take_idle_wireLen {c : Ctx} (h : c.status = .idle → c.wireLen = 0) (b : UInt8) :
    (c.take net b).status = .idle → (c.take net b).wireLen = 0 := by
  cases hst : c.status <;> simp only [Ctx.take, hst]
  case idle =>
    split
    · simp
    · exact fun _ => h hst
  case msgL0 => unfold Ctx.takeL0; dsimp only; split <;> simp [Ctx.capture, Ctx.reset]
  case msgL3 =>
    unfold Ctx.takeL3
    dsimp only
    repeat' split
    all_goals simp [Ctx.capture, Ctx.reset]
  case data => split <;> simp [Ctx.capture]
  all_goals simp [Ctx.capture]

theorem Ctx.take_candidate (c : Ctx) (b : UInt8) :
    (c.take net b).candidateSize = c.candidateSize ∧
      (c.take net b).candidateBuffer = c.candidateBuffer := by
  cases hst : c.status <;> simp only [Ctx.take, hst]
  case msgL0 => unfold Ctx.takeL0; dsimp only; split <;> exact ⟨rfl, rfl⟩
  case msgL3 =>
    unfold Ctx.takeL3
    dsimp only
    repeat' split
    all_goals exact ⟨rfl, rfl⟩
  case idle => split <;> exact ⟨rfl, rfl⟩
  case data => split <;> exact ⟨rfl, rfl⟩
  case sum => exact ⟨trivial, trivial⟩
  all_goals exact ⟨rfl, rfl⟩

theorem Ctx.Bounded.take {c : Ctx} (h : c.Bounded) (b : UInt8) : (c.take net b).Bounded := by
  refine ⟨h.inFrame.take b, ?_, take_idle_wireLen h.idle b, (c.take_candidate b).1.trans h.size_eq⟩
  rcases c.take_index net b with hidx | hidx | ⟨hst, hidx⟩
  · rw [hidx]; exact Nat.zero_le _
  · rw [hidx]; exact h.index_le
  · have hdata := h.inFrame.data hst
    rw [hidx, UInt16.toNat_add, UInt16.toNat_one]
    omega

variable (net) in
/-- A byte in front of the checksum is stored in the payload buffer and the capture only. -/
theorem Ctx.Bounded.take_stores {c : Ctx} (h : c.Bounded) (b : UInt8) :
    Memory.AgreesFrom maxData (c.take net b).dataBuffer c.dataBuffer ∧
      Memory.AgreesFrom frameMax (c.take net b).wireBuffer c.wireBuffer := by
  have hwire : Memory.AgreesFrom frameMax (c.wireBuffer.write c.wireLen.toNat [b]) c.wireBuffer :=
    Memory.write_agreesFrom _ h.wireLen_lt
  have hstart : Memory.AgreesFrom frameMax (c.wireBuffer.write 0 [b]) c.wireBuffer :=
    Memory.write_agreesFrom _ (by simp [frameMax])
  have hdata := Memory.AgreesFrom.refl maxData c.dataBuffer
  cases hst : c.status <;> simp only [Ctx.take, hst]
  case idle =>
    split
    · exact ⟨hdata, hstart⟩
    · exact ⟨hdata, Memory.AgreesFrom.refl _ _⟩
  case msgL0 =>
    unfold Ctx.takeL0
    dsimp only
    split
    · exact ⟨hdata, hwire⟩
    · exact ⟨hdata, Memory.AgreesFrom.refl _ _⟩
  case msgL3 =>
    unfold Ctx.takeL3
    dsimp only
    repeat' split
    all_goals exact ⟨hdata, hwire⟩
  case data =>
    have hidx : c.index.toNat + [b].length ≤ maxData := by
      have := h.inFrame.data hst
      simp only [List.length_singleton]
      omega
    split <;> exact ⟨Memory.write_agreesFrom _ hidx, hwire⟩
  case sum => exact ⟨hdata, Memory.AgreesFrom.refl _ _⟩
  all_goals exact ⟨hdata, hwire⟩

/-- A payload is decoded into its buffer, and is no longer than that. -/
theorem Ctx.decodePayload_stores {c d : Ctx} (h : c.decodePayload = some d) :
    d.dataBuffer = c.dataBuffer ∧ d.wireBuffer = c.wireBuffer ∧ d.candidateSize = c.candidateSize ∧
      Memory.AgreesFrom c.candidateSize.toNat d.candidateBuffer c.candidateBuffer ∧
      (d.pack.pData = .candidate → d.pack.len.toNat ≤ c.candidateSize.toNat) := by
  unfold Ctx.decodePayload at h
  dsimp only at h
  split at h
  · obtain ⟨raw, hraw, rfl⟩ := Option.map_eq_some_iff.mp h
    obtain ⟨hcap, hmax⟩ := decodeData_length hraw
    have hwrite : Memory.AgreesFrom c.candidateSize.toNat (c.candidateBuffer.write 0 raw)
      c.candidateBuffer := Memory.write_agreesFrom _ (by omega)
    refine ⟨rfl, rfl, rfl, hwrite, fun _ => ?_⟩
    show (UInt16.ofNat raw.length).toNat ≤ _
    rw [UInt16.toNat_ofNat']
    exact (Nat.mod_le _ _).trans hcap
  · obtain rfl := Option.some.inj h
    exact ⟨rfl, rfl, rfl, Memory.AgreesFrom.refl _ _, fun h => DataRef.noConfusion h⟩

/-- What a move leaves of the buffers. -/
structure Stored (net : Network) (log : List Event) (c d : Ctx) : Prop where
  data : StoredBelow net log maxData c.dataBuffer d.dataBuffer
  candidate : StoredBelow net log c.candidateSize.toNat c.candidateBuffer d.candidateBuffer
  wire : Memory.AgreesFrom frameMax d.wireBuffer c.wireBuffer

theorem Stored.of_eq (log : List Event) {c d : Ctx} (hdata : d.dataBuffer = c.dataBuffer)
    (hcandidate : d.candidateBuffer = c.candidateBuffer) (hwire : d.wireBuffer = c.wireBuffer) :
    Stored net log c d := by
  refine ⟨?_, ?_, ?_⟩
  · rw [hdata]; exact .refl _ _ _
  · rw [hcandidate]; exact .refl _ _ _
  · rw [hwire]; exact Memory.AgreesFrom.refl _ _

variable (net printf) in
/-- A complete frame is stored nowhere but by its callback. -/
theorem Node.deliver_stores (s : Node) :
    Stored net s.log s.ctx (s.deliver net printf).ctx ∧
      (s.deliver net printf).ctx.candidateSize = s.ctx.candidateSize := by
  unfold Node.deliver
  dsimp only
  split
  · exact ⟨.of_eq _ rfl rfl rfl, rfl⟩
  · split
    · exact ⟨.of_eq _ rfl rfl rfl, rfl⟩
    · split
      · exact ⟨.of_eq _ rfl rfl rfl, rfl⟩
      · have hown : ∀ n m, Memory.AgreesFrom n m m := Memory.AgreesFrom.refl (α := UInt8)
        unfold Node.callFunc
        dsimp only [Ctx.remember, Ctx.dataMemory]
        cases s.ctx.pack.pData
        case candidate => exact ⟨⟨.refl _ _ _, ⟨_, hown _ _, Or.inr ⟨_, _, rfl⟩⟩, hown _ _⟩, rfl⟩
        all_goals exact ⟨⟨⟨_, hown _ _, Or.inr ⟨_, _, rfl⟩⟩, .refl _ _ _, hown _ _⟩, rfl⟩

variable (net printf) in
theorem Node.deliver_reset (s : Node) :
    (s.deliver net printf).ctx.index = 0 ∧ (s.deliver net printf).ctx.wireLen = 0 := by
  unfold Node.deliver
  dsimp only
  repeat' split
  all_goals exact ⟨rfl, rfl⟩

variable (net printf) in
/-- **The checksum byte**: the payload is decoded within its buffer, and what else is
stored the callback stores. -/
theorem Node.takeSum_stores {s : Node} (h : s.ctx.candidateSize = 256) (b : UInt8) :
    Stored net s.log s.ctx (s.takeSum net printf b).ctx ∧ (s.takeSum net printf b).ctx.Bounded := by
  have hidle : (s.takeSum net printf b).ctx.status = .idle := s.takeSum_status b
  unfold Node.takeSum at hidle ⊢
  split at hidle <;> rename_i hsum
  · rw [if_pos hsum]
    exact ⟨.of_eq _ rfl rfl rfl, Ctx.bounded_reset h⟩
  · rw [if_neg hsum]
    cases hdecode : s.ctx.decodePayload with
    | none => exact ⟨.of_eq _ rfl rfl rfl, Ctx.bounded_reset h⟩
    | some d =>
      rw [hdecode] at hidle
      obtain ⟨hdata, hwire, hsize, hcandidate, -⟩ := Ctx.decodePayload_stores hdecode
      obtain ⟨hstored, hsize'⟩ := Node.deliver_stores net printf
        { s with ctx := d }
      obtain ⟨hindex, hwireLen⟩ := Node.deliver_reset net printf
        { s with ctx := d }
      have hsize : d.candidateSize.toNat = s.ctx.candidateSize.toNat := by rw [hsize]
      refine ⟨⟨?_, ?_, ?_⟩, ⟨?_, ?_, fun _ => hwireLen, ?_⟩⟩
      · rw [← hdata]; exact hstored.data
      · rw [← hsize]
        refine hstored.candidate.after ?_
        rw [hsize]; exact hcandidate
      · rw [← hwire]; exact hstored.wire
      · simp only [Ctx.InFrame, hidle]
      · rw [hindex]; exact Nat.zero_le _
      · rw [hsize']
        exact (UInt16.toNat_inj.mp hsize).trans h

variable (net printf now) in
/-- **A byte is stored within the buffers.** -/
theorem run_stores {s : Node} (h : s.ctx.Bounded) (b : UInt8) :
    Stored net s.log s.ctx (run net printf now b s).ctx ∧ (run net printf now b s).ctx.Bounded := by
  have hrecv : (s.ctx.receive now).Bounded := h.receive
  have hsame : Stored net s.log (s.ctx.receive now) (run net printf now b s).ctx →
      Stored net s.log s.ctx (run net printf now b s).ctx := by
    intro hstored
    have hctx : (s.ctx.receive now).dataBuffer = s.ctx.dataBuffer ∧
        (s.ctx.receive now).candidateBuffer = s.ctx.candidateBuffer ∧
        (s.ctx.receive now).wireBuffer = s.ctx.wireBuffer := by
      unfold Ctx.receive
      dsimp only
      split <;> exact ⟨rfl, rfl, rfl⟩
    obtain ⟨hdata, hcandidate, hwire⟩ := hctx
    obtain ⟨hdata', hcandidate', hwire'⟩ := hstored
    rw [hdata] at hdata'
    rw [hcandidate, hrecv.size_eq, ← h.size_eq] at hcandidate'
    rw [hwire] at hwire'
    exact ⟨hdata', hcandidate', hwire'⟩
  by_cases hst : (s.ctx.receive now).status = .sum
  · have hrun : run net printf now b s =
        ({ s with ctx := s.ctx.receive now } : Node).takeSum net printf b := by
      rw [run, Node.take, if_pos hst]
    rw [hrun] at hsame ⊢
    obtain ⟨hstored, hbounded⟩ := Node.takeSum_stores net printf
      (s := { s with ctx := s.ctx.receive now }) hrecv.size_eq b
    exact ⟨hsame hstored, hbounded⟩
  · have hrun : run net printf now b s = { s with ctx := (s.ctx.receive now).take net b } := by
      rw [run, Node.take, if_neg hst]
    rw [hrun] at hsame ⊢
    obtain ⟨hdata, hwire⟩ := hrecv.take_stores net b
    refine ⟨hsame ⟨.own hdata, ?_, hwire⟩, hrecv.take b⟩
    show StoredBelow net s.log _ _ ((s.ctx.receive now).take net b).candidateBuffer
    rw [((s.ctx.receive now).take_candidate b).2]
    exact .refl _ _ _

/-- Payload bytes that are awaited fit behind both extents. -/
theorem Ctx.Bounded.room {c : Ctx} (h : c.Bounded) (hst : c.status = .data) {n : ℕ}
    (hn : n ≤ c.len.toNat) : c.index.toNat + n ≤ maxData ∧ c.wireLen.toNat + n ≤ frameMax := by
  obtain ⟨-, hsum, hwire⟩ := h.inFrame.data hst
  simp only [maxData, frameMax] at hsum ⊢
  omega

variable (net now) in
/-- **A block is stored within the buffers.** -/
theorem Ctx.Bounded.copyData {c : Ctx} (h : c.Bounded) (log : List Event) (hst : c.status = .data)
    {data : List UInt8} (hlen : data.length ≤ c.len.toNat) :
    Stored net log c (c.copyData now data) ∧ (c.copyData now data).Bounded := by
  obtain ⟨hdata, hcapture⟩ := h.room hst hlen
  obtain ⟨-, hsum, hwire⟩ := h.inFrame.data hst
  have hidx : (UInt16.ofNat (c.index.toNat + data.length)).toNat = c.index.toNat + data.length := by
    rw [UInt16.toNat_ofNat']; simp only [maxData] at hdata; omega
  have hwireLen : (UInt16.ofNat (c.wireLen.toNat + data.length)).toNat =
      c.wireLen.toNat + data.length := by
    rw [UInt16.toNat_ofNat']; simp only [frameMax] at hcapture; omega
  have hrest : (UInt16.ofNat (c.len.toNat - data.length)).toNat = c.len.toNat - data.length := by
    rw [UInt16.toNat_ofNat']; have := c.len.toNat_lt; omega
  refine ⟨⟨.own (Memory.write_agreesFrom _ hdata), .refl _ _ _,
    Memory.write_agreesFrom _ hcapture⟩,
      ⟨?_, by show (UInt16.ofNat _).toNat ≤ _; omega, ?_, h.size_eq⟩⟩
  · by_cases hlast : UInt16.ofNat (c.len.toNat - data.length) = 0
    · have hst' : (c.copyData now data).status = .sum := by simp [Ctx.copyData, hlast]
      simp only [Ctx.InFrame, hst']
      refine Or.inr ⟨?_, ?_⟩
      · show (UInt16.ofNat _).toNat ≤ _; omega
      · show (UInt16.ofNat _).toNat = 6 + (UInt16.ofNat _).toNat; omega
    · have hst' : (c.copyData now data).status = .data := by simp [Ctx.copyData, hlast, hst]
      have hmore : (UInt16.ofNat (c.len.toNat - data.length)).toNat ≠ 0 :=
        fun h0 => hlast (UInt16.toNat_inj.mp h0)
      simp only [Ctx.InFrame, hst']
      refine ⟨?_, ?_, ?_⟩
      · show 0 < (UInt16.ofNat _).toNat; omega
      · show (UInt16.ofNat _).toNat + (UInt16.ofNat _).toNat ≤ maxData; omega
      · show (UInt16.ofNat _).toNat = 6 + (UInt16.ofNat _).toNat; omega
  · intro hidle
    by_cases hlast : UInt16.ofNat (c.len.toNat - data.length) = 0
    · simp [Ctx.copyData, hlast] at hidle
    · simp [Ctx.copyData, hlast, hst] at hidle

end V1

/-! ## All runs -/

/-- **The parsers store within their buffers.** In every run of bytes and blocks at any
ticks, from declared contexts: the bytes a 0xE8 move stores fit behind the payload
index in a buffer of any size; the payload index of a 0xE9 context is at most 256, its
capture at most 263 bytes long, what is stored fits behind both, and a decoded payload
is no longer than its buffer. So behind the buffers nothing is stored but by
callbacks. -/
theorem stores_in_bounds (net : Network) (printf : Output) (calls : List (Call UInt32 UInt8))
    (size : UInt16) (src dSrc linkId : UInt8) (commands : CommandList) :
    (∀ m ∈ (parser net printf).moves expired calls ⟨.declare size src dSrc linkId, commands, []⟩,
      m.before.ctx.bufferSize = size ∧ m.before.ctx.RoomFor m.data.length ∧
      StoredBelow net m.before.log size.toNat m.before.ctx.dataBuffer m.after.ctx.dataBuffer) ∧
    ∀ m ∈ (V1.parser net printf).moves V1.expired calls
        ⟨.declare src dSrc linkId, commands, []⟩,
      m.before.ctx.candidateSize = 256 ∧
      (m.before.ctx.index.toNat ≤ V1.maxData ∧ m.after.ctx.index.toNat ≤ V1.maxData) ∧
      (m.before.ctx.wireLen.toNat ≤ V1.frameMax ∧ m.after.ctx.wireLen.toNat ≤ V1.frameMax) ∧
      (m.before.ctx.status = .data → m.before.ctx.index.toNat + m.data.length ≤ V1.maxData) ∧
      m.before.ctx.wireLen.toNat + m.data.length ≤ V1.frameMax ∧
      (∀ d, m.before.ctx.decodePayload = some d → d.pack.pData = .candidate →
        d.pack.len.toNat ≤ 256) ∧
      V1.Stored net m.before.log m.before.ctx m.after.ctx := by
  constructor
  · refine BlockParser.recorded_rule (fun s _ => s.ctx.Bounded size) ?_ ?_ calls
      ⟨Ctx.fits_of_status (by simp [Ctx.declare]), rfl⟩
    · rintro t b s r ⟨hfits, hsize⟩
      obtain ⟨hstored, hsize'⟩ := commRun_stores net printf t hfits b
      rw [hsize] at hstored
      exact ⟨⟨hsize, hfits.roomFor_one, hstored⟩, commRun_fits hfits b, hsize'.trans hsize⟩
    · rintro t data s r ⟨hfits, hsize⟩ hne hlen
      have hst : s.ctx.status = .data := by
        by_contra hst
        exact hne (by simpa [parser, hst] using hlen)
      have hlen' : data.length ≤ s.ctx.len.toNat := by simpa [parser, hst] using hlen
      have hroom := hfits hst
      have hstored : Memory.AgreesFrom size.toNat
          (s.ctx.dataBuffer.write s.ctx.index.toNat data) s.ctx.dataBuffer :=
        Memory.write_agreesFrom _ (by rw [← hsize]; omega)
      exact ⟨⟨hsize, hfits.roomFor fun _ => hlen', .own hstored⟩, hfits.copyData hst hlen', hsize⟩
  · have hdecoded : ∀ c d : V1.Ctx, c.Bounded → c.decodePayload = some d →
        d.pack.pData = .candidate → d.pack.len.toNat ≤ 256 := by
      intro c d h hd hp
      have := (V1.Ctx.decodePayload_stores hd).2.2.2.2 hp
      rwa [h.size_eq] at this
    refine BlockParser.recorded_rule (fun s _ => s.ctx.Bounded) ?_ ?_ calls
      ⟨trivial, Nat.zero_le _, fun _ => rfl, rfl⟩
    · intro t b s r h
      obtain ⟨hstored, h'⟩ := V1.run_stores net printf t h b
      refine ⟨⟨h.size_eq, ⟨h.index_le, h'.index_le⟩, ⟨h.wireLen_lt.le, h'.wireLen_lt.le⟩,
        fun hst => ?_, h.wireLen_lt, fun d => hdecoded _ d h, hstored⟩, h'⟩
      exact (h.room hst (h.inFrame.data hst).1).1
    · intro t data s r h hne hlen
      have hst : s.ctx.status = .data := by
        by_contra hst
        exact hne (by simpa [V1.parser, hst] using hlen)
      have hlen' : data.length ≤ s.ctx.len.toNat := by simpa [V1.parser, hst] using hlen
      obtain ⟨hstored, h'⟩ := h.copyData net t s.log hst hlen'
      obtain ⟨hdata, hcapture⟩ := h.room hst hlen'
      exact ⟨⟨h.size_eq, ⟨h.index_le, h'.index_le⟩, ⟨h.wireLen_lt.le, h'.wireLen_lt.le⟩,
        fun _ => hdata, hcapture, fun d => hdecoded _ d h, hstored⟩, h'⟩

end Atoman.Comm
