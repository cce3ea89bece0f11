import Atoman.Codec.Entry.Output
import Atoman.Codec.Rle

/-!
# The run-length entry points

`codec_rle_encode` and `codec_rle_decode` with the indices of the source. Both
inner loops of the encoder count equal bytes ahead; the second one stops in front of
a run that is long enough for a repeat token.
-/

namespace Atoman.Codec.Entry
open Rle (repeatMin repeatMax literalMax runLength literalLength)
open Lib (Memory)

/-- Count the bytes from `index + run` on that continue the run at `index`. -/
def rleRun (input : List UInt8) (index run : ℕ) : ℕ :=
  if index + run < input.length ∧ input[index + run]? = input[index]? ∧ run < repeatMax then
    rleRun input index (run + 1)
  else run
termination_by repeatMax - run

/-! ## Runs ahead -/

/-- A run goes on at the bytes it has, and at no other. -/
theorem getElem?_run {rest : List UInt8} {b : UInt8} {j : ℕ}
    (hj : j ≤ (rest.takeWhile (· == b)).length) :
    rest[j]? = some b ↔ j < (rest.takeWhile (· == b)).length := by
  induction rest generalizing j with
  | nil => simp
  | cons c rest ih =>
    by_cases hc : c = b
    · subst hc
      simp only [List.takeWhile_cons, BEq.rfl, if_true, List.length_cons] at hj ⊢
      cases j with
      | zero => simp
      | succ j => simpa using ih (Nat.le_of_succ_le_succ hj)
    · have hnil : (c :: rest).takeWhile (· == b) = [] := by simp [hc]
      rw [hnil] at hj ⊢
      obtain rfl := Nat.le_zero.mp hj
      simp [hc]

/-- Counting from inside the run counts the whole run. -/
theorem rleRun_eq {input rest : List UInt8} {b : UInt8} {index run : ℕ}
    (h : input.drop index = b :: rest) (hpos : 1 ≤ run) (hrun : run ≤ runLength (b :: rest)) :
    rleRun input index run = runLength (b :: rest) := by
  have hhead : input[index]? = some b := by
    have := congrArg (·[0]?) h
    simpa using this
  have hnext (j : ℕ) : input[index + (j + 1)]? = rest[j]? := by
    have := congrArg (·[j + 1]?) h
    simpa using this
  have hlen : runLength (b :: rest) = min repeatMax (1 + (rest.takeWhile (· == b)).length) := rfl
  induction hm : repeatMax - run using Nat.strong_induction_on generalizing run with
  | _ m ih =>
    obtain ⟨j, rfl⟩ : ∃ j, run = j + 1 := ⟨run - 1, by omega⟩
    have hcond : (index + (j + 1) < input.length ∧ input[index + (j + 1)]? = input[index]? ∧
        j + 1 < repeatMax) ↔ j + 1 < runLength (b :: rest) := by
      rw [hhead, hnext, getElem?_run (by omega), hlen, Nat.lt_min]
      refine ⟨fun h => ⟨h.2.2, by omega⟩, fun h => ⟨?_, by omega, h.1⟩⟩
      have hin : rest[j]? = some b := (getElem?_run (by omega)).mpr (by omega)
      rw [← hnext] at hin
      exact (List.getElem?_eq_some_iff.mp hin).1
    rw [rleRun]
    by_cases hlt : j + 1 < runLength (b :: rest)
    · rw [if_pos (hcond.mpr hlt)]
      exact ih _ (by omega) (by omega) hlt rfl
    · rw [if_neg (mt hcond.mp hlt)]
      omega

theorem rleRun_pos (input : List UInt8) (index : ℕ) : 1 ≤ rleRun input index 1 := by
  have hmono (run : ℕ) : run ≤ rleRun input index run := by
    induction run using rleRun.induct input index with
    | case1 run h ih => rw [rleRun, if_pos h]; omega
    | case2 run h => rw [rleRun, if_neg h]
  exact hmono 1

/-- Collect a literal run from `index` on: where it ends and how long it is. -/
def rleLiteral (input : List UInt8) (index literalLen : ℕ) : ℕ × ℕ :=
  if index < input.length ∧ literalLen < literalMax then
    let ahead := rleRun input index 1
    if repeatMin ≤ ahead then (index, literalLen)
    else if literalMax < literalLen + ahead then (index, literalLen)
    else rleLiteral input (index + ahead) (literalLen + ahead)
  else (index, literalLen)
termination_by input.length - index
decreasing_by
  have := rleRun_pos input index
  omega

/-- The literal run of the source is the one of the list. -/
theorem rleLiteral_eq {input : List UInt8} {index len : ℕ} (hin : index ≤ input.length) :
    rleLiteral input index len = (index + (literalLength len (input.drop index) - len),
      literalLength len (input.drop index)) := by
  induction hm : input.length - index using Nat.strong_induction_on generalizing index len with
  | _ m ih =>
    rw [rleLiteral]
    rcases hdrop : input.drop index with _ | ⟨b, rest⟩
    · have := List.drop_eq_nil_iff.mp hdrop
      rw [if_neg (by omega), literalLength]
      simp
    · have hlt : index < input.length := by
        by_contra hge
        rw [List.drop_eq_nil_of_le (by omega)] at hdrop
        exact absurd hdrop (List.cons_ne_nil _ _).symm
      have hrun := rleRun_eq hdrop (Nat.le_refl 1) (Rle.runLength_pos b rest)
      have hpos := Rle.runLength_pos b rest
      have hdropLen : (b :: rest).length = input.length - index := by
        rw [← hdrop, List.length_drop]
      have hle := (Rle.runLength_le b rest).2
      by_cases hstop : literalMax ≤ len ∨ repeatMin ≤ runLength (b :: rest) ∨
          literalMax < len + runLength (b :: rest)
      · rw [Rle.literalLength_stop hstop, Nat.sub_self, Nat.add_zero]
        dsimp only
        rw [hrun]
        split
        · rw [ite_eq_left_iff]
          intro h3
          rw [ite_eq_left_iff]
          intro h4
          omega
        · rfl
      · rw [Rle.literalLength_step hstop]
        simp only [not_or, Nat.not_le, Nat.not_lt] at hstop
        dsimp only
        rw [if_pos ⟨hlt, hstop.1⟩, hrun, if_neg (by omega), if_neg (by omega),
          ih _ (by omega) (by omega) rfl, ← List.drop_drop, hdrop]
        have := Rle.le_literalLength (len + runLength (b :: rest))
          ((b :: rest).drop (runLength (b :: rest)))
        refine Prod.ext ?_ rfl
        dsimp only
        omega

/-- Where no repeat token fits, a literal run of at least one byte is collected. -/
theorem rleLiteral_at {input : List UInt8} {index : ℕ} (h : index < input.length)
    (hrun : ¬ repeatMin ≤ rleRun input index 1) :
    rleLiteral input index 0 =
        (index + literalLength 0 (input.drop index), literalLength 0 (input.drop index)) ∧
      index < (rleLiteral input index 0).1 := by
  have hdrop := List.drop_eq_getElem_cons h
  rw [rleRun_eq hdrop (Nat.le_refl 1) (Rle.runLength_pos _ _)] at hrun
  have hpos := Rle.literalLength_pos _ _ hrun
  rw [← hdrop] at hpos
  have heq : rleLiteral input index 0 = (index + (literalLength 0 (input.drop index) - 0),
      literalLength 0 (input.drop index)) := rleLiteral_eq (Nat.le_of_lt h)
  rw [Nat.sub_zero] at heq
  exact ⟨heq, by rw [heq]; dsimp only; omega⟩

/-! ## The entry points -/

/-- The loop of `codec_rle_encode`. -/
def rleEncodeLoop (capacity limit : ℕ) (input : List UInt8) (index : ℕ) (s : Output) :
    Except Output Output :=
  if h : index < input.length then
    let run := rleRun input index 1
    if hrun : repeatMin ≤ run then
      (s.encoderRoom capacity limit 2).bind fun s =>
        let s := s.append [0x80 ||| UInt8.ofNat (run - repeatMin)]
        let s := s.append [input[index]]
        rleEncodeLoop capacity limit input (index + run) s
    else
      let literal := rleLiteral input index 0
      (storeLiteral capacity limit input index literal.2 s).bind
        (rleEncodeLoop capacity limit input literal.1)
  else .ok s
termination_by input.length - index
decreasing_by
  · have := rleRun_pos input index
    omega
  · have := (rleLiteral_at h hrun).2
    omega

/-- `codec_rle_encode` -/
def codecRleEncode : Option (List UInt8) → Option UInt16 → Option (Memory UInt8) → UInt16 →
    Outcome :=
  call (frame fun capacity limit input s => rleEncodeLoop capacity limit input 0 s)

/-- The loop of `codec_rle_decode`. -/
def rleDecodeLoop (capacity limit : ℕ) (input : List UInt8) (index : ℕ) (s : Output) :
    Except Output Output :=
  if h : index < input.length then
    let token := input[index]
    let index := index + 1
    if token ≤ 0x7F then
      let literalLen := token.toNat + 1
      if input.length - index < literalLen then .error s.fail
      else
        (s.decoderRoom capacity limit literalLen).bind fun s =>
          let s := s.append ((input.drop index).take literalLen)
          rleDecodeLoop capacity limit input (index + literalLen) s
    else
      let repeatLen := (token &&& 0x7F).toNat + repeatMin
      if hv : index < input.length then
        (s.decoderRoom capacity limit repeatLen).bind fun s =>
          let s := s.append (List.replicate repeatLen input[index])
          rleDecodeLoop capacity limit input (index + 1) s
      else .error s.fail
  else .ok s
termination_by input.length - index

/-- `codec_rle_decode` -/
def codecRleDecode : Option (List UInt8) → Option UInt16 → Option (Memory UInt8) → UInt16 →
    Outcome :=
  call (frame fun capacity limit input s => rleDecodeLoop capacity limit input 0 s)

/-! ## Against the lists -/

variable {capacity limit : ℕ} {input out : List UInt8} {index : ℕ} {s : Output}

/-- The encoder's loop from `index` on is the list's on the rest of the input. -/
theorem tracks_rleEncodeLoop (h : s.Holds capacity out) (hin : index ≤ input.length) :
    Tracks capacity (rleEncodeLoop capacity limit input index s)
      (Rle.encodeLoop capacity limit (input.drop index) out) := by
  induction hm : input.length - index using Nat.strong_induction_on generalizing index s out with
  | _ m ih =>
    rw [rleEncodeLoop]
    by_cases hlt : index < input.length
    · have hdrop := List.drop_eq_getElem_cons hlt
      have hrun := rleRun_eq hdrop (Nat.le_refl 1) (Rle.runLength_pos _ _)
      have hpos := rleRun_pos input index
      have hle := (Rle.runLength_le input[index] (input.drop (index + 1))).2
      rw [← hrun, ← hdrop, List.length_drop] at hle
      rw [dif_pos hlt, hdrop, Rle.encodeLoop]
      dsimp only
      rw [← hrun]
      by_cases hmin : repeatMin ≤ rleRun input index 1
      · rw [dif_pos hmin, dif_pos hmin, ← hdrop, List.drop_drop]
        simp only [Output.append_append, List.singleton_append]
        refine (guards_encoderRoom capacity limit 2 s).tracks h rfl fun s' hs' => ?_
        exact ih _ (by omega) hs' (by omega) rfl
      · rw [dif_neg hmin, dif_neg hmin, ← hdrop, List.drop_drop]
        obtain ⟨hlit, hnext⟩ := rleLiteral_at hlt hmin
        have hlen := (Rle.literalLength_le 0 (input.drop index) (Nat.zero_le _)).2
        rw [List.length_drop] at hlen
        rw [hlit] at hnext ⊢
        dsimp only at hnext ⊢
        have hcollected : Collected input index (literalLength 0 (input.drop index))
            (index + literalLength 0 (input.drop index))
            ((input.drop index).take (literalLength 0 (input.drop index))) :=
          ⟨rfl, rfl, by omega⟩
        refine tracks_storeLiteral h hcollected fun s' hs' => ?_
        exact ih _ (by omega) hs' (by omega) rfl
    · rw [dif_neg hlt, List.drop_eq_nil_of_le (by omega), Rle.encodeLoop]
      exact h

/-- The decoder's loop from `index` on is the list's on the rest of the input. -/
theorem tracks_rleDecodeLoop (h : s.Holds capacity out) (hin : index ≤ input.length) :
    Tracks capacity (rleDecodeLoop capacity limit input index s)
      (Rle.decodeLoop capacity limit (input.drop index) out) := by
  induction hm : input.length - index using Nat.strong_induction_on generalizing index s out with
  | _ m ih =>
    rw [rleDecodeLoop]
    by_cases hlt : index < input.length
    · have hdrop := List.drop_eq_getElem_cons hlt
      rw [dif_pos hlt, hdrop, Rle.decodeLoop.eq_def]
      dsimp only
      by_cases htoken : input[index] ≤ 0x7F
      · rw [if_pos htoken, if_pos htoken, List.drop_drop]
        refine tracks_takeLiteral h fun hroom s' hs' => ?_
        exact ih _ (by omega) hs' (by omega) rfl
      · rw [if_neg htoken, if_neg htoken]
        by_cases hvalue : index + 1 < input.length
        · rw [dif_pos hvalue, List.drop_eq_getElem_cons hvalue]
          refine (guards_decoderRoom capacity limit _ s).tracks h List.length_replicate
            fun s' hs' => ?_
          exact ih _ (by omega) hs' (by omega) rfl
        · rw [dif_neg hvalue, List.drop_eq_nil_of_le (by omega)]
          exact h.toClean.fail
    · rw [dif_neg hlt, List.drop_eq_nil_of_le (by omega), Rle.decodeLoop]
      exact h

theorem rleEncode_loopTracks :
    LoopTracks (fun capacity limit input s => rleEncodeLoop capacity limit input 0 s)
      fun capacity limit input => Rle.encodeLoop capacity limit input [] :=
  fun _ _ _ _ h => tracks_rleEncodeLoop h (Nat.zero_le _)

theorem rleDecode_loopTracks :
    LoopTracks (fun capacity limit input s => rleDecodeLoop capacity limit input 0 s)
      fun capacity limit input => Rle.decodeLoop capacity limit input [] :=
  fun _ _ _ _ h => tracks_rleDecodeLoop h (Nat.zero_le _)

/-- **Run-length coding loses nothing.** Whatever `codec_rle_encode` succeeds in
encoding, `codec_rle_decode` takes back from the bytes produced, into every buffer
that holds the input and under every limit above its length. -/
theorem rle_round_trip (input : List UInt8) (buffer buffer' : Memory UInt8)
    (capacity limit capacity' limit' : UInt16)
    (hencode : (codecRleEncode (some input) (some capacity) (some buffer) limit).ret = 1)
    (hcap : input.length ≤ capacity'.toNat) (hlim : input.length < limit'.toNat) :
    (codecRleDecode
      (some (codecRleEncode (some input) (some capacity) (some buffer) limit).produced)
      (some capacity') (some buffer') limit').Returns input :=
  rleEncode_loopTracks.bodyEnds.implements.round_trip rleDecode_loopTracks.bodyEnds.implements
    Rle.decode_encode hencode buffer' hcap hlim

/-- Six equal bytes are a repeat token. -/
theorem rle_round_trip_run :
    (codecRleDecode
      (some (codecRleEncode (some [7, 7, 7, 7, 7, 7]) (some 8) (some fun _ => 0) 6).produced)
      (some 6) (some fun _ => 0) 7).Returns [7, 7, 7, 7, 7, 7] := by
  have hrun : runLength [7, 7, 7, 7, 7, 7] = 6 := by decide
  exact rle_round_trip _ _ _ 8 6 6 7
    (rleEncode_loopTracks.bodyEnds.implements.returns _ _ 8 6 [0x83, 7]
      (by simp [boundedCodec, bounded, Rle.encodeLoop, hrun, repeatMin, emit, Fits]; rfl)).1
    (by decide) (by decide)

end Atoman.Codec.Entry
