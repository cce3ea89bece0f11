import Atoman.Codec.Token
import Mathlib.Data.Nat.Basic
import Mathlib.Data.Option.Basic

/-!
# LZSS coding

A token up to `0x7F` starts a literal run, a larger one copies earlier output. The
encoder takes the longest match in a window of 256 bytes, the nearest one among
equals.
-/

namespace Atoman.Codec.Lzss

/-- `CODEC_LZSS_LITERAL_MAX` -/
abbrev literalMax : ℕ := 128
/-- `CODEC_LZSS_REF_LEN_MAX` -/
abbrev refLenMax : ℕ := 130
/-- `CODEC_LZSS_REF_LEN_MIN` -/
abbrev refLenMin : ℕ := 3
/-- `CODEC_LZSS_WINDOW` -/
abbrev window : ℕ := 256

/-- Length of the common prefix. -/
def commonPrefix : List UInt8 → List UInt8 → ℕ
  | a :: as, b :: bs => if a = b then commonPrefix as bs + 1 else 0
  | _, _ => 0

/-- Bytes from `index` on that repeat those `offset` positions before. -/
def matchLen (input : List UInt8) (index offset : ℕ) : ℕ :=
  min refLenMax (commonPrefix (input.drop index) (input.drop (index - offset)))

/-- The longest match and its offset; no longer one follows a match of the
greatest length, where the search of the source breaks off. -/
def bestMatch (input : List UInt8) (index : ℕ) : ℕ × ℕ :=
  (List.range' 1 (min index window)).foldl
    (fun best offset =>
      if best.1 < matchLen input index offset then (matchLen input index offset, offset) else best)
    (0, 0)

/-- The encoder's loop; `pending` is the literal run collected so far. -/
def encodeLoop (capacity limit : ℕ) (input : List UInt8) (index : ℕ) (pending out : List UInt8) :
    Option (List UInt8) :=
  if h : index < input.length then
    let best := bestMatch input index
    if hb : refLenMin ≤ best.1 then
      (flush capacity limit out pending).bind fun out =>
        (emit capacity limit out [0x80 ||| UInt8.ofNat (best.1 - refLenMin),
          UInt8.ofNat (best.2 - 1)]).bind
          (encodeLoop capacity limit input (index + best.1) [])
    else
      let pending := pending ++ [input[index]]
      if pending.length = literalMax then
        (emit capacity limit out (literalToken pending)).bind
          (encodeLoop capacity limit input (index + 1) [])
      else encodeLoop capacity limit input (index + 1) pending out
  else flush capacity limit out pending
termination_by input.length - index
decreasing_by
  · have hpos : 0 < (bestMatch input index).1 := Nat.lt_of_lt_of_le (by decide) hb
    omega
  · omega
  · omega

/-- `codec_lzss_encode` -/
def encode (input : List UInt8) (capacity limit : ℕ) : Option (List UInt8) :=
  bounded capacity limit input (encodeLoop capacity limit input 0 [] [])

/-- Copy `n` bytes from `offset` positions back, one at a time, so that a
reference may overlap what it produces. -/
def copyBack (offset : ℕ) : ℕ → List UInt8 → List UInt8
  | 0, out => out
  | n + 1, out => copyBack offset n (out ++ [out.getD (out.length - offset) 0])

/-- The decoder's loop. -/
def decodeLoop (capacity limit : ℕ) (input out : List UInt8) : Option (List UInt8) :=
  match input with
  | [] => some out
  | token :: rest =>
    if token ≤ 0x7F then
      let n := token.toNat + 1
      if rest.length < n then none
      else (emit capacity limit out (rest.take n)).bind (decodeLoop capacity limit (rest.drop n))
    else
      let n := (token &&& 0x7F).toNat + refLenMin
      match rest with
      | [] => none
      | back :: rest =>
        let offset := back.toNat + 1
        if out.length < offset then none
        else if Fits capacity limit (out.length + n) then
          decodeLoop capacity limit rest (copyBack offset n out)
        else none
termination_by input.length
decreasing_by
  all_goals
    simp only [List.length_drop, List.length_cons]
    omega

/-- `codec_lzss_decode` -/
def decode (input : List UInt8) (capacity limit : ℕ) : Option (List UInt8) :=
  bounded capacity limit input (decodeLoop capacity limit input [])

/-! ## Matches -/

theorem commonPrefix_le (as bs : List UInt8) : commonPrefix as bs ≤ as.length := by
  induction as, bs using commonPrefix.induct with
  | case1 as b bs ih => simp [commonPrefix]; omega
  | case2 a as b bs h => simp [commonPrefix, h]
  | case3 as bs h => simp [commonPrefix]

/-- Inside the common prefix the lists agree. -/
theorem getElem?_commonPrefix {as bs : List UInt8} {k : ℕ} (h : k < commonPrefix as bs) :
    as[k]? = bs[k]? := by
  induction as, bs using commonPrefix.induct generalizing k with
  | case1 as b bs ih =>
    cases k with
    | zero => rfl
    | succ k =>
      simp only [commonPrefix, if_true] at h
      simpa using ih (by omega)
  | case2 a as b bs hne => simp [commonPrefix, hne] at h
  | case3 as bs hne => simp [commonPrefix] at h

theorem matchLen_le (input : List UInt8) (index offset : ℕ) :
    matchLen input index offset ≤ refLenMax ∧
      matchLen input index offset ≤ input.length - index := by
  refine ⟨Nat.min_le_left _ _, ?_⟩
  have := commonPrefix_le (input.drop index) (input.drop (index - offset))
  rw [List.length_drop] at this
  exact Nat.le_trans (Nat.min_le_right _ _) this

/-- The matched bytes repeat those `offset` positions before. -/
theorem getElem?_match {input : List UInt8} {index offset k : ℕ} (hoff : offset ≤ index)
    (h : k < matchLen input index offset) : input[index + k]? = input[index + k - offset]? := by
  have hk := getElem?_commonPrefix (Nat.lt_of_lt_of_le h (Nat.min_le_right _ _))
  rw [List.getElem?_drop, List.getElem?_drop] at hk
  rw [hk]
  congr 1
  omega

/-- Copying back continues the input as far as it repeats itself. -/
theorem copyBack_take {input : List UInt8} {offset : ℕ} (hoff : 0 < offset) :
    ∀ (n : ℕ) {index : ℕ}, offset ≤ index → index + n ≤ input.length →
      (∀ k < n, input[index + k]? = input[index + k - offset]?) →
      copyBack offset n (input.take index) = input.take (index + n) := by
  intro n
  induction n with
  | zero => intro index _ _ _; rfl
  | succ n ih =>
    intro index hle hlen hrep
    have hback : index - offset < input.length := by omega
    have hlast : input[index]? = some input[index - offset] := by
      rw [← List.getElem?_eq_getElem]
      exact hrep 0 (Nat.succ_pos n)
    have hget : (input.take index).getD ((input.take index).length - offset) 0 =
        input[index - offset] := by
      rw [List.length_take_of_le (by omega), List.getD_eq_getElem?_getD,
        List.getElem?_take_of_lt (by omega), List.getElem?_eq_getElem (by omega)]
      rfl
    have hstep : input.take index ++ [(input.take index).getD
        ((input.take index).length - offset) 0] = input.take (index + 1) := by
      rw [hget, List.take_add_one, hlast]
      rfl
    rw [copyBack, hstep, ih (by omega) (by omega) (fun k hk => ?_)]
    · congr 1; omega
    · have := hrep (k + 1) (by omega)
      rw [show index + (k + 1) = index + 1 + k by omega] at this
      exact this

/-- The best match is the match at its offset, which lies in the window. -/
theorem bestMatch_spec (input : List UInt8) (index : ℕ) :
    (bestMatch input index).1 = 0 ∨
      (0 < (bestMatch input index).2 ∧ (bestMatch input index).2 ≤ min index window) ∧
        (bestMatch input index).1 = matchLen input index (bestMatch input index).2 := by
  unfold bestMatch
  refine List.foldlRecOn (motive := fun (best : ℕ × ℕ) => best.1 = 0 ∨
    (0 < best.2 ∧ best.2 ≤ min index window) ∧ best.1 = matchLen input index best.2) _ _
    (Or.inl rfl) ?_
  intro best hbest offset hoffset
  have hrange := List.mem_range'_1.mp hoffset
  split
  · exact Or.inr ⟨⟨by omega, by omega⟩, rfl⟩
  · exact hbest

/-! ## Round trip -/

theorem decodeLoop_nil (capacity limit : ℕ) (done : List UInt8) :
    decodeLoop capacity limit [] done = some done := by rw [decodeLoop]

theorem takesLiterals : TakesLiterals decodeLoop := by
  intro capacity limit token rest done htoken
  rw [decodeLoop.eq_def]
  simp only [htoken, if_true]

/-- A reference token is read as what copying back appends. -/
theorem reads_reference (done piece : List UInt8) {offset : ℕ} (hpos : 0 < offset)
    (hwindow : offset ≤ window) (hdone : offset ≤ done.length) (hmin : refLenMin ≤ piece.length)
    (hmax : piece.length ≤ refLenMax)
    (hcopy : copyBack offset piece.length done = done ++ piece) :
    Reads decodeLoop done
      [0x80 ||| UInt8.ofNat (piece.length - refLenMin), UInt8.ofNat (offset - 1)] piece := by
  intro capacity limit rest hfit
  simp only [window] at hwindow
  obtain ⟨htoken, hn⟩ := run_byte hmin hmax
  have hback : (UInt8.ofNat (offset - 1)).toNat + 1 = offset := by
    rw [UInt8.toNat_ofNat']; omega
  rw [List.cons_append, decodeLoop.eq_def]
  simp only [htoken, if_false, List.cons_append, List.nil_append, hn, hback, hcopy,
    Nat.not_lt.mpr hdone, if_pos hfit]

/-- What the encoder appends is read as the pending literal run and the rest of the
input, by a decoder that has decoded what comes before. -/
theorem encodeLoop_reads {capacity limit : ℕ} {input : List UInt8} {index : ℕ}
    {pending out r : List UInt8} (h : encodeLoop capacity limit input index pending out = some r)
    (hpending : pending.length < literalMax) (done : List UInt8)
    (hdone : done ++ pending = input.take index) :
    ∃ code, r = out ++ code ∧ Reads decodeLoop done code (pending ++ input.drop index) := by
  induction index, pending, out using encodeLoop.induct input generalizing done with
  | case1 index pending out hlt best hbest ih =>
    rw [encodeLoop] at h
    simp only [best] at hbest
    simp only [dif_pos hlt, dif_pos hbest] at h
    obtain ⟨out₁, hflush, h⟩ := Option.bind_eq_some_iff.mp h
    obtain ⟨out₂, hemit, hrest⟩ := Option.bind_eq_some_iff.mp h
    obtain ⟨code₁, rfl, hread₁⟩ := takesLiterals.reads_flush done hflush
      (Nat.le_of_lt hpending)
    have hne : (bestMatch input index).1 ≠ 0 := fun h0 => by
      rw [h0] at hbest; exact absurd hbest (by decide)
    obtain ⟨⟨hpos, hwin⟩, hmatch⟩ := (bestMatch_spec input index).resolve_left hne
    obtain ⟨hmax, hroom⟩ := matchLen_le input index (bestMatch input index).2
    rw [← hmatch] at hmax hroom
    have hpiece : ((input.drop index).take (bestMatch input index).1).length =
        (bestMatch input index).1 := by
      rw [List.length_take_of_le]; rw [List.length_drop]; omega
    have hread₂ := reads_reference (done ++ pending)
      ((input.drop index).take (bestMatch input index).1) hpos (by omega)
      (by rw [hdone, List.length_take_of_le (by omega)]; omega)
      (by rw [hpiece]; exact hbest) (by rw [hpiece]; exact hmax) (by
        rw [hpiece, hdone, copyBack_take hpos _ (by omega) (by omega)
          (fun k hk => getElem?_match (by omega) (hmatch ▸ hk)), List.take_add])
    rw [hpiece] at hread₂
    obtain ⟨code, rfl, hread⟩ := ih out₂ hrest (by decide)
      (done ++ pending ++ (input.drop index).take (bestMatch input index).1)
      (by rw [List.append_nil, hdone, List.take_add])
    refine ⟨_, by rw [emit_eq_some hemit, List.append_assoc, List.append_assoc], ?_⟩
    have := hread₁.append (hread₂.append hread)
    rwa [List.nil_append, ← List.drop_drop, List.take_append_drop] at this
  | case2 index pending out hlt best hbest pending' hfull ih =>
    rw [encodeLoop] at h
    simp only [best] at hbest
    simp only [pending'] at hfull
    simp only [dif_pos hlt, dif_neg hbest, if_pos hfull] at h
    obtain ⟨out₁, hemit, h⟩ := Option.bind_eq_some_iff.mp h
    have hread₁ : Reads decodeLoop done (literalToken (pending ++ [input[index]]))
        (pending ++ [input[index]]) := takesLiterals.reads done (by simp) (Nat.le_of_eq hfull)
    obtain ⟨code, rfl, hread⟩ := ih out₁ h (by decide) (done ++ (pending ++ [input[index]]))
      (by rw [List.append_nil, ← List.append_assoc, hdone, List.take_append_getElem])
    refine ⟨_, by rw [emit_eq_some hemit, List.append_assoc], ?_⟩
    have := hread₁.append hread
    rwa [List.nil_append, List.append_assoc, List.singleton_append,
      List.getElem_cons_drop] at this
  | case3 index pending out hlt best hbest pending' hfull ih =>
    rw [encodeLoop] at h
    simp only [best] at hbest
    simp only [pending'] at hfull ih
    simp only [dif_pos hlt, dif_neg hbest, if_neg hfull] at h
    simp only [List.length_append, List.length_singleton] at hfull
    obtain ⟨code, rfl, hread⟩ :=
      ih h (by simp only [List.length_append, List.length_singleton]; omega)
      done (by rw [← List.append_assoc, hdone, List.take_append_getElem])
    refine ⟨code, rfl, ?_⟩
    rwa [List.append_assoc, List.singleton_append, List.getElem_cons_drop] at hread
  | case4 index pending out hge =>
    rw [encodeLoop, dif_neg hge] at h
    rw [List.drop_of_length_le (by omega), List.append_nil]
    exact takesLiterals.reads_flush done h (Nat.le_of_lt hpending)

/-- What the encoder produces is decoded to the input, wherever the input fits. -/
theorem decode_encode {input code : List UInt8} {capacity limit capacity' limit' : ℕ}
    (h : encode input capacity limit = some code) (hcap : input.length ≤ capacity')
    (hlim : input.length < limit') : decode code capacity' limit' = some input := by
  obtain ⟨⟨hne, -, -⟩, hloop, hcode, -⟩ := bounded_eq_some.mp h
  obtain ⟨code', rfl, hreads⟩ := encodeLoop_reads hloop (by decide) [] (by simp)
  rw [List.drop_zero] at hreads
  exact hreads.bounded_eq hcode hne (decodeLoop_nil _ _) hcap hlim

end Atoman.Codec.Lzss
