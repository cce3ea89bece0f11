import Atoman.Codec.Token
import Atoman.Lib.Memory

/-!
# Codec calls on the caller's buffer

The eight entry points take the caller's buffer with its capacity in
`*p_output_len` and write into it directly. A call is modelled with the buffer as
a memory, so that a store behind the capacity is a store like any other, and with
the list of all indices of `p_output` it stores to. The list-level codecs say what
such a call computes; `Tracks` relates the two.
-/

namespace Atoman.Codec.Entry
open Lib (Memory)

/-- What a running codec has written. -/
structure Output where
  /-- `p_output`; the cells behind the capacity belong to someone else -/
  bytes : Memory UInt8
  /-- `out_len` -/
  outLen : ℕ
  /-- `*p_output_len` -/
  reported : ℕ
  /-- every index of `p_output` stored to so far -/
  stores : List ℕ

namespace Output

/-- The output on entry, with `*p_output_len` set to zero. -/
def start (buffer : Memory UInt8) : Output := ⟨buffer, 0, 0, []⟩

/-- Store `data` at `&p_output[out_len]` and advance `out_len`. -/
def append (s : Output) (data : List UInt8) : Output where
  bytes := s.bytes.write s.outLen data
  outLen := s.outLen + data.length
  reported := s.reported
  stores := s.stores ++ List.range' s.outLen data.length

/-- `codec_*_fail` -/
def fail (s : Output) : Output := { s with reported := 0 }

/-- The check of the encoders before `n` more bytes: a full buffer returns at once. -/
def encoderRoom (capacity limit n : ℕ) (s : Output) : Except Output Output :=
  if capacity < s.outLen + n then .error s
  else if limit ≤ s.outLen + n then .error s.fail
  else .ok s

/-- The check of the decoders before `n` more bytes. -/
def decoderRoom (capacity limit n : ℕ) (s : Output) : Except Output Output :=
  if capacity < s.outLen + n then .error s.fail
  else if limit ≤ s.outLen + n then .error s.fail
  else .ok s

/-- The end of a call: a successful result is not empty and shorter than the limit. -/
def finish (limit : ℕ) (s : Output) : Except Output Output :=
  if s.outLen = 0 ∨ limit ≤ s.outLen then .error s.fail
  else .ok { s with reported := s.outLen }

@[simp] theorem append_outLen (s : Output) (data : List UInt8) :
    (s.append data).outLen = s.outLen + data.length := rfl

/-- Two pieces stored one behind the other. -/
theorem append_append (s : Output) (xs ys : List UInt8) :
    (s.append xs).append ys = s.append (xs ++ ys) := by
  simp only [append, Output.mk.injEq, List.length_append, true_and]
  refine ⟨(Memory.write_append _ _ _ _).symm, Nat.add_assoc _ _ _, ?_⟩
  rw [List.append_assoc, List.range'_append_1]

end Output

/-! ## Calls -/

/-- What the caller sees of a call. -/
structure Outcome where
  ret : ℕ
  /-- `*p_output_len`, when the pointer is not `NULL` -/
  outputLen : Option ℕ
  /-- `p_output`, when the pointer is not `NULL` -/
  output : Option (Memory UInt8)
  stores : List ℕ

/-- A codec after its checks on entry: capacity, limit and input. -/
abbrev Body := ℕ → ℕ → List UInt8 → Output → Except Output Output

/-- What every entry point does around its loop; `none` is a `NULL` pointer. -/
def call (body : Body) (p_input : Option (List UInt8)) (p_output_len : Option UInt16)
    (p_output : Option (Memory UInt8)) (limit_len : UInt16) : Outcome :=
  match p_output_len with
  | none => ⟨0, none, p_output, []⟩
  | some capacity =>
    match p_input, p_output with
    | some input, some buffer =>
      if input = [] ∨ limit_len = 0 then ⟨0, some 0, p_output, []⟩
      else if capacity = 0 then ⟨0, some 0, p_output, []⟩
      else
        match body capacity.toNat limit_len.toNat input (.start buffer) with
        | .ok s => ⟨1, some s.reported, some s.bytes, s.stores⟩
        | .error s => ⟨0, some s.reported, some s.bytes, s.stores⟩
    | _, _ => ⟨0, some 0, p_output, []⟩

namespace Outcome

/-- The bytes the caller may read after a call. -/
def produced (o : Outcome) : List UInt8 :=
  match o.output, o.outputLen with
  | some buffer, some n => buffer.slice 0 n
  | _, _ => []

/-- The call succeeds with `data`. -/
def Returns (o : Outcome) (data : List UInt8) : Prop :=
  o.ret = 1 ∧ o.outputLen = some data.length ∧ o.produced = data

/-- No store at or behind the capacity, and no length reported with a failure. -/
def Safe (o : Outcome) (capacity : Option UInt16) : Prop :=
  (∀ i ∈ o.stores, ∃ c, capacity = some c ∧ i < c.toNat) ∧
    (o.ret = 0 → o.outputLen = capacity.map fun _ => 0)

end Outcome

/-! ## Against the list-level codecs -/

section Tracks
variable {capacity limit : ℕ} {s : Output} {out piece : List UInt8}

/-- The stores made and the length reported so far. -/
structure Output.Clean (capacity : ℕ) (s : Output) : Prop where
  stores : ∀ i ∈ s.stores, i < capacity
  reported : s.reported = 0

/-- The buffer holds what a list-level codec has produced. -/
structure Output.Holds (capacity : ℕ) (s : Output) (out : List UInt8) : Prop
    extends s.Clean capacity where
  length : s.outLen = out.length
  fits : out.length ≤ capacity
  bytes : s.bytes.slice 0 out.length = out

/-- A step on the buffer follows a step on lists: both go on, or both give up. -/
def Tracks (capacity : ℕ) : Except Output Output → Option (List UInt8) → Prop
  | .ok s, some out => s.Holds capacity out
  | .error s, none => s.Clean capacity
  | _, _ => False

theorem Output.Clean.fail (h : s.Clean capacity) : s.fail.Clean capacity := ⟨h.stores, rfl⟩

/-- Storing a piece that fits. -/
theorem Output.Holds.append (h : s.Holds capacity out)
    (hfit : out.length + piece.length ≤ capacity) :
    (s.append piece).Holds capacity (out ++ piece) where
  stores := by
    intro i hi
    rcases List.mem_append.mp hi with hi | hi
    · exact h.stores i hi
    · have := List.mem_range'_1.mp hi
      have := h.length
      omega
  reported := h.reported
  length := by simp [h.length]
  fits := by simpa using hfit
  bytes := by
    have := Memory.slice_write_extend piece h.bytes
    rw [Nat.zero_add] at this
    rw [List.length_append, Output.append, h.length]
    exact this

/-- A check of the room for `n` more bytes: it lets the output through unchanged,
or gives up with no length reported. -/
def Guards (capacity limit n : ℕ) (s : Output) (room : Except Output Output) : Prop :=
  (Fits capacity limit (s.outLen + n) → room = .ok s) ∧
    (¬ Fits capacity limit (s.outLen + n) →
      ∃ s', room = .error s' ∧ (s.Clean capacity → s'.Clean capacity))

theorem guards_encoderRoom (capacity limit n : ℕ) (s : Output) :
    Guards capacity limit n s (s.encoderRoom capacity limit n) := by
  unfold Output.encoderRoom Guards Fits
  split
  · next hcap =>
    refine ⟨fun h => absurd h.1 (Nat.not_le.mpr hcap), fun _ => ⟨s, rfl, id⟩⟩
  · next hcap =>
    split
    · next hlim =>
      refine ⟨fun h => absurd h.2 (Nat.not_lt.mpr hlim), fun _ => ⟨_, rfl, Output.Clean.fail⟩⟩
    · next hlim =>
      exact ⟨fun _ => rfl, fun h => absurd ⟨Nat.not_lt.mp hcap, Nat.not_le.mp hlim⟩ h⟩

theorem guards_decoderRoom (capacity limit n : ℕ) (s : Output) :
    Guards capacity limit n s (s.decoderRoom capacity limit n) := by
  unfold Output.decoderRoom Guards Fits
  split
  · next hcap =>
    refine ⟨fun h => absurd h.1 (Nat.not_le.mpr hcap), fun _ => ⟨_, rfl, Output.Clean.fail⟩⟩
  · next hcap =>
    split
    · next hlim =>
      refine ⟨fun h => absurd h.2 (Nat.not_lt.mpr hlim), fun _ => ⟨_, rfl, Output.Clean.fail⟩⟩
    · next hlim =>
      exact ⟨fun _ => rfl, fun h => absurd ⟨Nat.not_lt.mp hcap, Nat.not_le.mp hlim⟩ h⟩

/-- Checking the room, storing a piece and going on is emitting the piece and going
on. -/
theorem Guards.tracks {n : ℕ} {room : Except Output Output} (hroom : Guards capacity limit n s room)
    (h : s.Holds capacity out) (hn : piece.length = n) {f : Output → Except Output Output}
    {g : List UInt8 → Option (List UInt8)}
    (hnext : ∀ s', s'.Holds capacity (out ++ piece) → Tracks capacity (f s') (g (out ++ piece))) :
    Tracks capacity (room.bind fun s => f (s.append piece))
      ((emit capacity limit out piece).bind g) := by
  subst hn
  have hlen := h.length
  by_cases hfit : Fits capacity limit (out.length + piece.length)
  · rw [hroom.1 (by rw [hlen]; exact hfit), emit_of_fits hfit]
    exact hnext _ (h.append hfit.1)
  · obtain ⟨s', hs', hclean⟩ := hroom.2 (by rw [hlen]; exact hfit)
    rw [hs', emit, if_neg hfit]
    exact hclean h.toClean

/-! ### Literal runs -/

/-- Store the literal run `p_input[literal_start .. literal_start + literal_len)`. -/
def storeLiteral (capacity limit : ℕ) (input : List UInt8) (literalStart literalLen : ℕ)
    (s : Output) : Except Output Output :=
  (s.encoderRoom capacity limit (1 + literalLen)).bind fun s =>
    let s := s.append [UInt8.ofNat (literalLen - 1)]
    .ok (s.append ((input.drop literalStart).take literalLen))

/-- Store the pending literal run, if there is one. -/
def flushLiteral (capacity limit : ℕ) (input : List UInt8) (literalStart literalLen : ℕ)
    (s : Output) : Except Output Output :=
  if literalLen = 0 then .ok s else storeLiteral capacity limit input literalStart literalLen s

/-- `pending` is the literal run collected between `literal_start` and `index`. -/
structure Collected (input : List UInt8) (literalStart literalLen index : ℕ)
    (pending : List UInt8) : Prop where
  bytes : pending = (input.drop literalStart).take literalLen
  ends : literalStart + literalLen = index
  inside : index ≤ input.length

theorem Collected.length {input pending : List UInt8} {start len index : ℕ}
    (hc : Collected input start len index pending) : pending.length = len := by
  rw [hc.bytes, List.length_take_of_le]
  rw [List.length_drop]
  have := hc.ends
  have := hc.inside
  omega

/-- No literal run is pending at `index`. -/
theorem Collected.start {input : List UInt8} {index : ℕ} (h : index ≤ input.length) :
    Collected input index 0 index [] := ⟨rfl, rfl, h⟩

/-- One more byte is collected. -/
theorem Collected.push {input pending : List UInt8} {start len index : ℕ}
    (hc : Collected input start len index pending) (h : index < input.length) :
    Collected input start (len + 1) (index + 1) (pending ++ [input[index]]) where
  bytes := by
    have hget : (input.drop start)[len]? = some input[index] := by
      rw [List.getElem?_drop, hc.ends, List.getElem?_eq_getElem h]
    rw [List.take_add_one, hget, hc.bytes]
    rfl
  ends := by rw [← hc.ends, Nat.add_assoc]
  inside := h

theorem tracks_storeLiteral {input pending : List UInt8} {start len index : ℕ}
    (h : s.Holds capacity out) (hc : Collected input start len index pending)
    {f : Output → Except Output Output} {g : List UInt8 → Option (List UInt8)}
    (hnext : ∀ s', s'.Holds capacity (out ++ literalToken pending) →
      Tracks capacity (f s') (g (out ++ literalToken pending))) :
    Tracks capacity ((storeLiteral capacity limit input start len s).bind f)
      ((emit capacity limit out (literalToken pending)).bind g) := by
  have hlen : (literalToken pending).length = 1 + len := by
    rw [literalToken, List.length_cons, hc.length, Nat.add_comm]
  have := (guards_encoderRoom capacity limit (1 + len) s).tracks h hlen hnext
  have htoken : literalToken pending =
      UInt8.ofNat (len - 1) :: (input.drop start).take len := by
    rw [literalToken, hc.length, ← hc.bytes]
  rw [htoken] at this ⊢
  unfold storeLiteral
  cases hroom : s.encoderRoom capacity limit (1 + len) with
  | error s' => rwa [hroom] at this
  | ok s' =>
    rw [hroom] at this
    simpa only [Except.bind, Output.append_append, List.singleton_append] using this

theorem tracks_flushLiteral {input pending : List UInt8} {start len index : ℕ}
    (h : s.Holds capacity out) (hc : Collected input start len index pending)
    {f : Output → Except Output Output} {g : List UInt8 → Option (List UInt8)}
    (hnext : ∀ s' out', s'.Holds capacity out' → Tracks capacity (f s') (g out')) :
    Tracks capacity ((flushLiteral capacity limit input start len s).bind f)
      ((flush capacity limit out pending).bind g) := by
  have hempty : pending = [] ↔ len = 0 := by rw [← hc.length, List.length_eq_zero_iff]
  unfold flushLiteral flush
  by_cases hlen : len = 0
  · rw [if_pos hlen, if_pos (hempty.mpr hlen)]
    exact hnext s out h
  · rw [if_neg hlen, if_neg (mt hempty.mp hlen)]
    exact tracks_storeLiteral h hc fun s' => hnext s' _

/-- A flush at the end of a loop. -/
theorem tracks_flushLiteral_end {input pending : List UInt8} {start len index : ℕ}
    (h : s.Holds capacity out) (hc : Collected input start len index pending) :
    Tracks capacity (flushLiteral capacity limit input start len s)
      (flush capacity limit out pending) := by
  have hflush : Tracks capacity ((flushLiteral capacity limit input start len s).bind .ok)
      ((flush capacity limit out pending).bind some) :=
    tracks_flushLiteral h hc fun _ _ => id
  have hlist : (flush capacity limit out pending).bind some = flush capacity limit out pending := by
    cases flush capacity limit out pending <;> rfl
  rw [hlist] at hflush
  cases hc : flushLiteral capacity limit input start len s with
  | error s' => rwa [hc] at hflush
  | ok s' => rwa [hc] at hflush

/-- A decoder's literal run of `n` bytes at `index`: too few bytes left are an error,
else the bytes are stored and decoding goes on behind them. -/
theorem tracks_takeLiteral {input : List UInt8} {index n : ℕ} (h : s.Holds capacity out)
    {f : Output → Except Output Output} {g : List UInt8 → Option (List UInt8)}
    (hnext : n ≤ input.length - index → ∀ s',
      s'.Holds capacity (out ++ (input.drop index).take n) →
      Tracks capacity (f s') (g (out ++ (input.drop index).take n))) :
    Tracks capacity
      (if input.length - index < n then .error s.fail
        else (s.decoderRoom capacity limit n).bind fun s =>
          f (s.append ((input.drop index).take n)))
      (if (input.drop index).length < n then none
        else (emit capacity limit out ((input.drop index).take n)).bind g) := by
  rw [List.length_drop]
  by_cases hshort : input.length - index < n
  · rw [if_pos hshort, if_pos hshort]
    exact h.toClean.fail
  · rw [if_neg hshort, if_neg hshort]
    have hlen : ((input.drop index).take n).length = n :=
      List.length_take_of_le (by rw [List.length_drop]; omega)
    refine (guards_decoderRoom capacity limit n s).tracks h hlen ?_
    exact hnext (Nat.not_lt.mp hshort)

/-! ### Whole calls -/

/-- The frame of a codec: its loop on an empty output, then the check of the result. -/
def frame (loop : ℕ → ℕ → List UInt8 → Output → Except Output Output) : Body :=
  fun capacity limit input s => (loop capacity limit input s).bind (Output.finish limit)

/-- A codec on the buffer computes what its list-level form does, for every
capacity and limit. -/
structure Implements (body : Body) (codec : List UInt8 → ℕ → ℕ → Option (List UInt8)) :
    Prop where
  returns : ∀ (input : List UInt8) (buffer : Memory UInt8) (capacity limit : UInt16)
    (data : List UInt8), codec input capacity.toNat limit.toNat = some data →
      (call body (some input) (some capacity) (some buffer) limit).Returns data
  fails : ∀ (input : List UInt8) (buffer : Memory UInt8) (capacity limit : UInt16),
    codec input capacity.toNat limit.toNat = none →
      (call body (some input) (some capacity) (some buffer) limit).ret = 0

/-- A call that succeeds returns what the list-level codec computes. -/
theorem Implements.of_ret {body : Body} {codec : List UInt8 → ℕ → ℕ → Option (List UInt8)}
    (h : Implements body codec) {input : List UInt8} {buffer : Memory UInt8}
    {capacity limit : UInt16}
    (hret : (call body (some input) (some capacity) (some buffer) limit).ret = 1) :
    ∃ data, codec input capacity.toNat limit.toNat = some data ∧
      (call body (some input) (some capacity) (some buffer) limit).Returns data := by
  cases hcodec : codec input capacity.toNat limit.toNat with
  | none =>
    have := h.fails input buffer capacity limit hcodec
    omega
  | some data => exact ⟨data, rfl, h.returns input buffer capacity limit data hcodec⟩

/-- The output a codec leaves behind, whether it succeeds or not. -/
def left : Except Output Output → Output
  | .ok s => s
  | .error s => s

/-- A codec ends with the data: the reported part of the buffer holds it. Or it
fails with no length reported. -/
def Ends : Except Output Output → Option (List UInt8) → Prop
  | .ok s, some data => s.reported = data.length ∧ s.bytes.slice 0 data.length = data
  | .error s, none => s.reported = 0
  | _, _ => False

theorem Output.Holds.start (capacity : ℕ) (buffer : Memory UInt8) :
    (Output.start buffer).Holds capacity [] where
  stores := fun _ hi => absurd hi List.not_mem_nil
  reported := rfl
  length := rfl
  fits := Nat.zero_le _
  bytes := rfl

section Body
variable {body : Body} {codec : List UInt8 → ℕ → ℕ → Option (List UInt8)}

/-- Behind the checks on entry the codec ends as its list-level form does, and that
form refuses what the checks refuse. -/
structure BodyEnds (body : Body) (codec : List UInt8 → ℕ → ℕ → Option (List UInt8)) : Prop where
  ends : ∀ (input : List UInt8) (buffer : Memory UInt8) (capacity limit : UInt16),
    input ≠ [] → capacity ≠ 0 → limit ≠ 0 →
    Ends (body capacity.toNat limit.toNat input (Output.start buffer))
      (codec input capacity.toNat limit.toNat)
  refuses : ∀ (input : List UInt8) (capacity limit : ℕ),
    input = [] ∨ limit = 0 ∨ capacity = 0 → codec input capacity limit = none

/-- Behind the checks on entry, a call is its body. -/
theorem call_eq {input : List UInt8} {buffer : Memory UInt8} {capacity limit : UInt16}
    (hinput : input ≠ []) (hcap : capacity ≠ 0) (hlim : limit ≠ 0) :
    call body (some input) (some capacity) (some buffer) limit =
      match body capacity.toNat limit.toNat input (Output.start buffer) with
      | .ok s => ⟨1, some s.reported, some s.bytes, s.stores⟩
      | .error s => ⟨0, some s.reported, some s.bytes, s.stores⟩ := by
  simp only [call, hinput, hcap, hlim, or_self, if_false]

theorem BodyEnds.implements (h : BodyEnds body codec) : Implements body codec := by
  have hrefuse (input : List UInt8) (capacity limit : UInt16) {data : List UInt8}
      (hdata : codec input capacity.toNat limit.toNat = some data) :
      input ≠ [] ∧ capacity ≠ 0 ∧ limit ≠ 0 := by
    have := mt (h.refuses input capacity.toNat limit.toNat) (by rw [hdata]; simp)
    rw [not_or, not_or] at this
    refine ⟨this.1, ?_, ?_⟩
    · rintro rfl; exact this.2.2 rfl
    · rintro rfl; exact this.2.1 rfl
  constructor
  · intro input buffer capacity limit data hdata
    obtain ⟨hinput, hcap, hlim⟩ := hrefuse input capacity limit hdata
    have hends := h.ends input buffer capacity limit hinput hcap hlim
    rw [hdata] at hends
    rw [call_eq hinput hcap hlim]
    cases hbody : body capacity.toNat limit.toNat input (Output.start buffer) with
    | error s => rw [hbody] at hends; exact hends.elim
    | ok s =>
      rw [hbody] at hends
      refine ⟨rfl, by rw [← hends.1], ?_⟩
      simp only [Outcome.produced, hends.1, hends.2]
  · intro input buffer capacity limit hnone
    by_cases hentry : input ≠ [] ∧ capacity ≠ 0 ∧ limit ≠ 0
    · have hends := h.ends input buffer capacity limit hentry.1 hentry.2.1 hentry.2.2
      rw [hnone] at hends
      rw [call_eq hentry.1 hentry.2.1 hentry.2.2]
      cases hbody : body capacity.toNat limit.toNat input (Output.start buffer) with
      | error s => rfl
      | ok s => rw [hbody] at hends; exact hends.elim
    · unfold call
      dsimp only
      split
      · rfl
      · split
        · rfl
        · tauto

/-- A codec is safe when it ends as its list-level form does and its body stores
below the capacity. -/
theorem BodyEnds.safe_iff (h : BodyEnds body codec) (p_input : Option (List UInt8))
    (p_output_len : Option UInt16) (p_output : Option (Memory UInt8)) (limit_len : UInt16) :
    (call body p_input p_output_len p_output limit_len).Safe p_output_len ↔
      ∀ input capacity buffer, p_input = some input → p_output_len = some capacity →
        p_output = some buffer → input ≠ [] → capacity ≠ 0 → limit_len ≠ 0 →
        ∀ i ∈ (left (body capacity.toNat limit_len.toNat input (Output.start buffer))).stores,
          i < capacity.toNat := by
  constructor
  · rintro hsafe input capacity buffer rfl rfl rfl hinput hcap hlim i hi
    rw [call_eq hinput hcap hlim] at hsafe
    have hstores := hsafe.1 i
    cases hbody : body capacity.toNat limit_len.toNat input (Output.start buffer) with
    | error s => simpa [hbody] using hstores (by simpa [hbody, left] using hi)
    | ok s => simpa [hbody] using hstores (by simpa [hbody, left] using hi)
  · intro hstores
    have hempty (o : Option (Memory UInt8)) (c : UInt16) :
        Outcome.Safe ⟨0, some 0, o, []⟩ (some c) :=
      ⟨fun i hi => absurd hi List.not_mem_nil, fun _ => rfl⟩
    match p_output_len, p_input, p_output with
    | none, _, _ => exact ⟨fun i hi => absurd hi List.not_mem_nil, fun _ => rfl⟩
    | some c, none, _ => exact hempty _ c
    | some c, some _, none => exact hempty _ c
    | some c, some input, some buffer =>
      by_cases hin : input = [] ∨ limit_len = 0
      · simp only [call, if_pos hin]; exact hempty _ c
      · by_cases hcap : c = 0
        · simp only [call, if_neg hin, if_pos hcap]; exact hempty _ c
        · rw [not_or] at hin
          have hin' := hstores input c buffer rfl rfl rfl hin.1 hcap hin.2
          have hends := h.ends input buffer c limit_len hin.1 hcap hin.2
          rw [call_eq hin.1 hcap hin.2]
          cases hbody : body c.toNat limit_len.toNat input (Output.start buffer) with
          | ok s =>
            rw [hbody] at hin'
            exact ⟨fun i hi => ⟨c, rfl, hin' i hi⟩, fun h0 => absurd h0 Nat.one_ne_zero⟩
          | error s =>
            rw [hbody] at hin' hends
            refine ⟨fun i hi => ⟨c, rfl, hin' i hi⟩, fun _ => ?_⟩
            cases hcodec : codec input c.toNat limit_len.toNat with
            | none => rw [hcodec] at hends; exact congrArg some hends
            | some data => rw [hcodec] at hends; exact hends.elim

end Body

/-- What one call produces, the other call takes back, wherever the input fits. -/
theorem Implements.round_trip {encoder decoder : Body}
    {encode decode : List UInt8 → ℕ → ℕ → Option (List UInt8)} (henc : Implements encoder encode)
    (hdec : Implements decoder decode)
    (hinv : ∀ {input code : List UInt8} {capacity limit capacity' limit' : ℕ},
      encode input capacity limit = some code → input.length ≤ capacity' →
      input.length < limit' → decode code capacity' limit' = some input)
    {input : List UInt8} {buffer : Memory UInt8} {capacity limit : UInt16}
    (hret : (call encoder (some input) (some capacity) (some buffer) limit).ret = 1)
    (buffer' : Memory UInt8) {capacity' limit' : UInt16} (hcap : input.length ≤ capacity'.toNat)
    (hlim : input.length < limit'.toNat) :
    (call decoder (some (call encoder (some input) (some capacity) (some buffer) limit).produced)
      (some capacity') (some buffer') limit').Returns input := by
  obtain ⟨code, hcode, hreturns⟩ := henc.of_ret hret
  rw [hreturns.2.2]
  exact hdec.returns _ _ _ _ _ (hinv hcode hcap hlim)

section Frame
variable {loop : ℕ → ℕ → List UInt8 → Output → Except Output Output}
variable {listLoop : ℕ → ℕ → List UInt8 → Option (List UInt8)}

/-- The loop on the buffer follows the loop on lists from an empty output on. -/
def LoopTracks (loop : ℕ → ℕ → List UInt8 → Output → Except Output Output)
    (listLoop : ℕ → ℕ → List UInt8 → Option (List UInt8)) : Prop :=
  ∀ capacity limit input s, s.Holds capacity [] →
    Tracks capacity (loop capacity limit input s) (listLoop capacity limit input)

/-- The check at the end of a loop keeps what the loop has done. -/
theorem Tracks.finish {c : Except Output Output} {l : Option (List UInt8)}
    (h : Tracks capacity c l) :
    Ends (c.bind (Output.finish limit))
        (l.bind fun out => if out = [] ∨ limit ≤ out.length then none else some out) ∧
      ∀ i ∈ (left (c.bind (Output.finish limit))).stores, i < capacity := by
  match c, l, h with
  | .error s, none, h => exact ⟨h.reported, h.stores⟩
  | .ok s, some out, h =>
    have hiff : (s.outLen = 0 ∨ limit ≤ s.outLen) ↔ (out = [] ∨ limit ≤ out.length) := by
      rw [h.length, List.length_eq_zero_iff]
    by_cases hend : out = [] ∨ limit ≤ out.length
    · have hfin : Output.finish limit s = .error s.fail := if_pos (hiff.mpr hend)
      simp only [Except.bind, Option.bind_some, hfin, if_pos hend]
      exact ⟨rfl, h.stores⟩
    · have hfin : Output.finish limit s = .ok { s with reported := s.outLen } :=
        if_neg (mt hiff.mp hend)
      simp only [Except.bind, Option.bind_some, hfin, if_neg hend]
      exact ⟨⟨h.length, h.bytes⟩, h.stores⟩

/-- The list-level codec of a loop. -/
def boundedCodec (listLoop : ℕ → ℕ → List UInt8 → Option (List UInt8)) (input : List UInt8)
    (capacity limit : ℕ) : Option (List UInt8) :=
  bounded capacity limit input (listLoop capacity limit input)

theorem LoopTracks.bodyEnds (h : LoopTracks loop listLoop) :
    BodyEnds (frame loop) (boundedCodec listLoop) where
  ends := by
    intro input buffer capacity limit hinput hcap hlim
    have hcap' : capacity.toNat ≠ 0 := fun h0 => hcap (UInt16.toNat_inj.mp h0)
    have hlim' : limit.toNat ≠ 0 := fun h0 => hlim (UInt16.toNat_inj.mp h0)
    rw [boundedCodec, bounded, if_neg (by rw [not_or, not_or]; exact ⟨hinput, hlim', hcap'⟩)]
    exact (h _ _ input _ (.start _ buffer)).finish.1
  refuses := fun input capacity limit hentry => by rw [boundedCodec, bounded, if_pos hentry]

/-- **No call stores at or behind the capacity, and every failing call reports the
length zero.** -/
theorem LoopTracks.safe (h : LoopTracks loop listLoop) (p_input : Option (List UInt8))
    (p_output_len : Option UInt16) (p_output : Option (Memory UInt8)) (limit_len : UInt16) :
    (call (frame loop) p_input p_output_len p_output limit_len).Safe p_output_len := by
  refine (h.bodyEnds.safe_iff _ _ _ _).mpr ?_
  intro input capacity buffer _ _ _ _ _ _
  exact (h _ _ input _ (.start _ buffer)).finish.2

end Frame
end Tracks

end Atoman.Codec.Entry
