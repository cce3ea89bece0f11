import Atoman.Codec.Token
import Mathlib.Data.List.TakeWhile
import Mathlib.Data.Nat.Basic
import Mathlib.Data.Option.Basic

/-!
# Run-length coding

A token up to `0x7F` starts a literal run, a larger one repeats the next byte.
-/

namespace Atoman.Codec.Rle

/-- `CODEC_RLE_LITERAL_MAX` -/
abbrev literalMax : ℕ := 128
/-- `CODEC_RLE_REPEAT_MAX` -/
abbrev repeatMax : ℕ := 130
/-- `CODEC_RLE_REPEAT_MIN` -/
abbrev repeatMin : ℕ := 3

/-- Equal bytes at the head of the input, as many as one token can express. -/
def runLength : List UInt8 → ℕ
  | [] => 0
  | b :: rest => min repeatMax (1 + (rest.takeWhile (· == b)).length)

theorem runLength_pos (b : UInt8) (rest : List UInt8) : 0 < runLength (b :: rest) := by
  simp only [runLength, repeatMax]; omega

/-- Bytes the literal run takes before a repeat or its own length limit stops it. -/
def literalLength (len : ℕ) (input : List UInt8) : ℕ :=
  match input with
  | [] => len
  | b :: rest =>
    let ahead := runLength (b :: rest)
    if literalMax ≤ len ∨ repeatMin ≤ ahead ∨ literalMax < len + ahead then len
    else literalLength (len + ahead) ((b :: rest).drop ahead)
termination_by input.length
decreasing_by
  have := runLength_pos b rest
  simp only [List.length_drop, List.length_cons]; omega

theorem literalLength_stop {len : ℕ} {b : UInt8} {rest : List UInt8}
    (h : literalMax ≤ len ∨ repeatMin ≤ runLength (b :: rest) ∨
      literalMax < len + runLength (b :: rest)) : literalLength len (b :: rest) = len := by
  rw [literalLength]; exact if_pos h

theorem literalLength_step {len : ℕ} {b : UInt8} {rest : List UInt8}
    (h : ¬ (literalMax ≤ len ∨ repeatMin ≤ runLength (b :: rest) ∨
      literalMax < len + runLength (b :: rest))) :
    literalLength len (b :: rest) =
      literalLength (len + runLength (b :: rest)) ((b :: rest).drop (runLength (b :: rest))) := by
  rw [literalLength]; exact if_neg h

theorem le_literalLength (len : ℕ) (input : List UInt8) : len ≤ literalLength len input := by
  induction len, input using literalLength.induct with
  | case1 len => simp [literalLength]
  | case2 len b rest ahead h => exact Nat.le_of_eq (literalLength_stop h).symm
  | case3 len b rest ahead h ih =>
    rw [literalLength_step h]
    exact Nat.le_of_add_right_le ih

theorem literalLength_pos (b : UInt8) (rest : List UInt8)
    (h : ¬ repeatMin ≤ runLength (b :: rest)) : 0 < literalLength 0 (b :: rest) := by
  have hrun := runLength_pos b rest
  rw [literalLength_step (by simp only [literalMax, repeatMin] at h ⊢; omega)]
  exact Nat.lt_of_lt_of_le (by omega) (le_literalLength _ _)

/-- The encoder's loop: a repeat token where a run is long enough, a literal run elsewhere. -/
def encodeLoop (capacity limit : ℕ) (input out : List UInt8) : Option (List UInt8) :=
  match input with
  | [] => some out
  | b :: rest =>
    let run := runLength (b :: rest)
    if h : repeatMin ≤ run then
      (emit capacity limit out [0x80 ||| UInt8.ofNat (run - repeatMin), b]).bind
        (encodeLoop capacity limit ((b :: rest).drop run))
    else
      let n := literalLength 0 (b :: rest)
      (emit capacity limit out (literalToken ((b :: rest).take n))).bind
        (encodeLoop capacity limit ((b :: rest).drop n))
termination_by input.length
decreasing_by
  · have := runLength_pos b rest
    simp only [List.length_drop, List.length_cons]; omega
  · have := literalLength_pos b rest h
    simp only [List.length_drop, List.length_cons]; omega

/-- `codec_rle_encode` -/
def encode (input : List UInt8) (capacity limit : ℕ) : Option (List UInt8) :=
  bounded capacity limit input (encodeLoop capacity limit input [])

/-- The decoder's loop. -/
def decodeLoop (capacity limit : ℕ) (input out : List UInt8) : Option (List UInt8) :=
  match input with
  | [] => some out
  | token :: rest =>
    if token ≤ 0x7F then
      let n := token.toNat + 1
      if rest.length < n then none
      else (emit capacity limit out (rest.take n)).bind (decodeLoop capacity limit (rest.drop n))
    else
      match rest with
      | [] => none
      | value :: rest =>
        let n := (token &&& 0x7F).toNat + repeatMin
        (emit capacity limit out (List.replicate n value)).bind (decodeLoop capacity limit rest)
termination_by input.length
decreasing_by
  all_goals
    simp only [List.length_drop, List.length_cons]
    omega

/-- `codec_rle_decode` -/
def decode (input : List UInt8) (capacity limit : ℕ) : Option (List UInt8) :=
  bounded capacity limit input (decodeLoop capacity limit input [])

/-! ## Round trip -/

theorem decodeLoop_nil (capacity limit : ℕ) (done : List UInt8) :
    decodeLoop capacity limit [] done = some done := by rw [decodeLoop]

theorem takesLiterals : TakesLiterals decodeLoop := by
  intro capacity limit token rest done htoken
  rw [decodeLoop.eq_def]
  simp only [htoken, if_true]

/-- A repeat token is read as its run. -/
theorem reads_repeat (done : List UInt8) (b : UInt8) {n : ℕ} (hmin : repeatMin ≤ n)
    (hmax : n ≤ repeatMax) :
    Reads decodeLoop done [0x80 ||| UInt8.ofNat (n - repeatMin), b] (List.replicate n b) := by
  intro capacity limit rest hfit
  obtain ⟨htoken, hn⟩ := run_byte hmin hmax
  rw [List.cons_append, decodeLoop.eq_def]
  simp only [htoken, if_false, List.cons_append, List.nil_append, hn]
  rw [emit_of_fits hfit, Option.bind_some]

/-- The run at the head of the input. -/
theorem take_runLength (b : UInt8) (rest : List UInt8) :
    (b :: rest).take (runLength (b :: rest)) = List.replicate (runLength (b :: rest)) b := by
  have hall : ∀ c ∈ rest.takeWhile (· == b), c = b := fun c hc => by
    simpa using List.mem_takeWhile_imp hc
  obtain ⟨m, hm⟩ : ∃ m, runLength (b :: rest) = m + 1 :=
    Nat.exists_eq_succ_of_ne_zero (Nat.ne_of_gt (runLength_pos b rest))
  have hle : m ≤ (rest.takeWhile (· == b)).length := by
    have : runLength (b :: rest) ≤ 1 + (rest.takeWhile (· == b)).length := Nat.min_le_right _ _
    omega
  have htake : rest.take m = (rest.takeWhile (· == b)).take m := by
    conv_lhs => rw [← List.takeWhile_append_dropWhile (p := (· == b)) (l := rest)]
    exact List.take_append_of_le_length hle
  rw [hm, List.take_succ_cons, List.replicate_succ, htake]
  congr 1
  refine List.eq_replicate_iff.mpr ⟨List.length_take_of_le hle, fun c hc => ?_⟩
  exact hall c (List.mem_of_mem_take hc)

theorem runLength_le (b : UInt8) (rest : List UInt8) :
    runLength (b :: rest) ≤ repeatMax ∧ runLength (b :: rest) ≤ (b :: rest).length := by
  refine ⟨Nat.min_le_left _ _, ?_⟩
  have := List.IsPrefix.length_le (List.takeWhile_prefix (p := (· == b)) (l := rest))
  simp only [runLength, List.length_cons]; omega

theorem literalLength_le (len : ℕ) (input : List UInt8) (hlen : len ≤ literalMax) :
    literalLength len input ≤ literalMax ∧ literalLength len input ≤ len + input.length := by
  induction len, input using literalLength.induct with
  | case1 len => simp [literalLength, hlen]
  | case2 len b rest ahead h => rw [literalLength_stop h]; omega
  | case3 len b rest ahead h ih =>
    rw [literalLength_step h]
    have hrun := (runLength_le b rest).2
    simp only [ahead, List.length_drop] at h ih
    have := ih (by omega)
    omega

/-- What the encoder appends is read as the input. -/
theorem encodeLoop_reads {capacity limit : ℕ} {input out r : List UInt8}
    (h : encodeLoop capacity limit input out = some r) (done : List UInt8) :
    ∃ code, r = out ++ code ∧ Reads decodeLoop done code input := by
  induction input, out using encodeLoop.induct generalizing done with
  | case1 out =>
    rw [encodeLoop] at h
    exact ⟨[], by simpa using h.symm, Reads.nil⟩
  | case2 out b rest run hrun ih =>
    rw [encodeLoop] at h
    simp only [run] at hrun
    simp only [hrun, dif_pos] at h
    obtain ⟨out', hout, h⟩ := Option.bind_eq_some_iff.mp h
    obtain ⟨code, rfl, hreads⟩ := ih out' h (done ++ List.replicate (runLength (b :: rest)) b)
    refine ⟨_, by rw [emit_eq_some hout, List.append_assoc], ?_⟩
    have := (reads_repeat done b hrun (runLength_le b rest).1).append hreads
    rwa [← take_runLength, List.take_append_drop] at this
  | case3 out b rest run hrun n ih =>
    rw [encodeLoop] at h
    simp only [run] at hrun
    simp only [hrun, dif_neg, not_false_eq_true] at h
    obtain ⟨out', hout, h⟩ := Option.bind_eq_some_iff.mp h
    obtain ⟨code, rfl, hreads⟩ := ih out' h (done ++ (b :: rest).take n)
    refine ⟨_, by rw [emit_eq_some hout, List.append_assoc], ?_⟩
    have hpos := literalLength_pos b rest hrun
    have hle := literalLength_le 0 (b :: rest) (by decide)
    have hlen : ((b :: rest).take n).length = n := List.length_take_of_le (by omega)
    have hlit : Reads decodeLoop done (literalToken ((b :: rest).take n)) ((b :: rest).take n) :=
      takesLiterals.reads done (by omega) (by rw [hlen]; exact hle.1)
    have := hlit.append hreads
    rwa [List.take_append_drop] at this

/-- What the encoder produces is decoded to the input, wherever the input fits. -/
theorem decode_encode {input code : List UInt8} {capacity limit capacity' limit' : ℕ}
    (h : encode input capacity limit = some code) (hcap : input.length ≤ capacity')
    (hlim : input.length < limit') : decode code capacity' limit' = some input := by
  obtain ⟨⟨hne, -, -⟩, hloop, hcode, -⟩ := bounded_eq_some.mp h
  obtain ⟨code', rfl, hreads⟩ := encodeLoop_reads hloop []
  exact hreads.bounded_eq hcode hne (decodeLoop_nil _ _) hcap hlim

end Atoman.Codec.Rle
