import Atoman.Codec.Dict
import Atoman.Codec.Lzss
import Atoman.Codec.Rle
import Atoman.Lib.TokenGrammar
import Mathlib.Data.List.GetD

/-!
# The token grammars of the byte codecs

The layouts of the run-length, LZSS and dictionary codes as token grammars, and their
decoders as readers of them.

## Main definitions

* `Rle.grammar`, `Lzss.grammar`, `Dict.grammar` — the tokens, where they may stand and
  what they stand for.
* `Rle.decode_iff`, `Lzss.decode_iff`, `Dict.decode_iff` — the decoders accept exactly
  the token sequences.
-/

namespace Atoman.Codec
open Lib

variable {capacity limit : ℕ} {input out piece r : List UInt8}

/-- What goes on behind a piece goes on when the piece fits. -/
theorem emit_bind (f : List UInt8 → Option (List UInt8)) :
    (emit capacity limit out piece).bind f =
      if Fits capacity limit (out ++ piece).length then f (out ++ piece) else none := by
  rw [emit, ← List.length_append]
  split <;> rfl

/-- The checks around a decoder's loop add nothing to what its grammar asks for. -/
theorem bounded_reader {τ α : Type} {G : TokenGrammar τ α UInt8}
    {loop : List α → List UInt8 → Option (List UInt8)} (h : G.Reader (Fits capacity limit) loop)
    {symbols : List α} (hsymbols : symbols ≠ [] → input ≠ []) :
    bounded capacity limit input (loop symbols []) = some r ↔
      G.Denotes symbols r ∧ Fits capacity limit r.length := by
  rw [bounded_eq_some, ← h.accepts_iff]
  constructor
  · rintro ⟨-, hloop, hout, -⟩
    exact ⟨hloop, hout⟩
  · rintro ⟨hloop, hout⟩
    obtain ⟨hdata, hcap, hlim⟩ := h.accepts_iff.mp ⟨hloop, hout⟩
    have hpos := List.length_pos_iff.mpr hout
    exact ⟨⟨hsymbols (h.input_ne_nil hdata), by omega, by omega⟩, hloop, hout, hlim⟩

/-! ## Token bytes -/

/-- A byte with the top bit set is that bit and the rest of it. -/
theorem eq_marked {b : UInt8} (h : ¬ b ≤ 0x7F) :
    (b &&& 0x7F).toNat < 128 ∧ 0x80 ||| (b &&& 0x7F) = b := by
  have hlow : (b &&& 0x7F).toNat < 128 := by
    rw [low_bits]
    omega
  have hb := b.toNat_lt
  have hge : 127 < b.toNat := UInt8.lt_iff_toNat_lt.mp (UInt8.not_le.mp h)
  have hmark := (marked_byte hlow).2
  rw [UInt8.ofNat_toNat, low_bits] at hmark
  refine ⟨hlow, UInt8.toNat_inj.mp (hmark.trans ?_)⟩
  omega

/-- A byte from `0x80` to `0xBF` is its top bit and an index. -/
theorem eq_index {b : UInt8} (h : ¬ b ≤ 0x7F) (h' : b ≤ 0xBF) :
    (b &&& 0x3F).toNat < 64 ∧ 0x80 ||| (b &&& 0x3F) = b := by
  have hlow : (b &&& 0x3F).toNat < 64 := by
    rw [index_bits]
    omega
  have hge : 127 < b.toNat := UInt8.lt_iff_toNat_lt.mp (UInt8.not_le.mp h)
  have hle : b.toNat ≤ 191 := UInt8.le_iff_toNat_le.mp h'
  have hmark := (marked_byte (hlow.trans (by decide))).2
  rw [UInt8.ofNat_toNat, index_bits] at hmark
  refine ⟨hlow, UInt8.toNat_inj.mp (hmark.trans ?_)⟩
  omega

/-! ## Literal runs -/

/-- The lengths a literal token can express. -/
abbrev LiteralValid (bytes : List UInt8) : Prop := 0 < bytes.length ∧ bytes.length ≤ 128

section Literal
variable {decodeLoop : ℕ → ℕ → List UInt8 → List UInt8 → Option (List UInt8)}

/-- A literal token is taken when its bytes fit. -/
theorem TakesLiterals.token (hdec : TakesLiterals decodeLoop) (done : List UInt8)
    {bytes : List UInt8} (h : LiteralValid bytes) (rest : List UInt8) :
    decodeLoop capacity limit (literalToken bytes ++ rest) done =
      if Fits capacity limit (done ++ bytes).length then
        decodeLoop capacity limit rest (done ++ bytes)
      else none := by
  obtain ⟨htoken, hn⟩ := literal_byte h.1 h.2
  rw [literalToken, List.cons_append, hdec _ _ _ _ _ htoken, hn, if_neg (by simp),
    List.take_left, List.drop_left, emit_bind]

/-- A byte up to `0x7F` begins a literal token, or is not followed by enough bytes. -/
theorem TakesLiterals.stuck (hdec : TakesLiterals decodeLoop) {done rest : List UInt8}
    {token : UInt8} (htoken : token ≤ 0x7F)
    (h : ∀ bytes rest', LiteralValid bytes → token :: rest ≠ literalToken bytes ++ rest') :
    decodeLoop capacity limit (token :: rest) done = none := by
  rw [hdec _ _ _ _ _ htoken]
  have hle : token.toNat ≤ 127 := UInt8.le_iff_toNat_le.mp htoken
  split
  · rfl
  · next hlen =>
    have htake : (rest.take (token.toNat + 1)).length = token.toNat + 1 :=
      List.length_take_of_le (Nat.not_lt.mp hlen)
    refine absurd ?_ (h (rest.take (token.toNat + 1)) (rest.drop (token.toNat + 1))
      ⟨by omega, by omega⟩)
    rw [literalToken, htake, Nat.add_sub_cancel, UInt8.ofNat_toNat, List.cons_append,
      List.take_append_drop]

end Literal

/-! ## Run-length coding -/

namespace Rle

/-- A literal run, or copies of one byte. -/
inductive Token
  | literal (bytes : List UInt8)
  | repeated (n : ℕ) (value : UInt8)

/-- `0x00..0x7F`: a literal run of `token + 1` bytes; `0x80..0xFF`: `(token & 0x7F) + 3`
copies of the next byte. -/
def grammar : TokenGrammar Token UInt8 UInt8 where
  wire
    | .literal bytes => literalToken bytes
    | .repeated n value => [0x80 ||| UInt8.ofNat (n - repeatMin), value]
  Valid
    | _, .literal bytes => LiteralValid bytes
    | _, .repeated n _ => repeatMin ≤ n ∧ n ≤ repeatMax
  expand
    | _, .literal bytes => bytes
    | _, .repeated n value => List.replicate n value
  Padding := (· = [])

theorem decodeLoop_marked {token : UInt8} (htoken : ¬ token ≤ 0x7F) (value : UInt8)
    (rest done : List UInt8) :
    decodeLoop capacity limit (token :: value :: rest) done =
      let piece := List.replicate ((token &&& 0x7F).toNat + repeatMin) value
      if Fits capacity limit (done ++ piece).length then
        decodeLoop capacity limit rest (done ++ piece)
      else none := by
  rw [decodeLoop.eq_def]
  simp only [htoken, if_false, emit_bind]

theorem reader : grammar.Reader (Fits capacity limit) (decodeLoop capacity limit) where
  padding := by
    rintro done _ rfl
    exact decodeLoop_nil capacity limit done
  token := by
    intro done t rest h
    cases t with
    | literal bytes => exact takesLiterals.token done h rest
    | repeated n value =>
      obtain ⟨htoken, hn⟩ := run_byte h.1 h.2
      have hstep : decodeLoop capacity limit _ _ = _ := decodeLoop_marked htoken value rest done
      rw [hn] at hstep
      exact hstep
  stuck := by
    intro done input hinput h
    obtain ⟨token, rest, rfl⟩ := List.exists_cons_of_ne_nil hinput
    by_cases htoken : token ≤ 0x7F
    · exact takesLiterals.stuck htoken fun bytes rest' hbytes => h (.literal bytes) rest' hbytes
    · cases rest with
      | nil =>
        rw [decodeLoop.eq_def]
        simp only [htoken, if_false]
      | cons value rest =>
        obtain ⟨hlow, heq⟩ := eq_marked htoken
        refine absurd ?_ (h (.repeated ((token &&& 0x7F).toNat + repeatMin) value) rest
          ⟨Nat.le_add_left _ _, by simp only [repeatMin, repeatMax]; omega⟩)
        simp only [grammar, Nat.add_sub_cancel, UInt8.ofNat_toNat, heq, List.cons_append,
          List.nil_append]
  wire_ne_nil := by
    intro _ t _
    cases t <;> exact List.cons_ne_nil _ _
  expand_ne_nil := by
    intro done t h
    cases t with
    | literal bytes => exact List.ne_nil_of_length_pos h.1
    | repeated n value =>
      have hmin : 3 ≤ n := h.1
      simp only [grammar, ne_eq, List.replicate_eq_nil_iff]
      omega
  mono := fun _ _ hle hfit => hfit.mono hle

/-- The decoder accepts exactly the token sequences. -/
theorem decode_iff : decode input capacity limit = some r ↔
    grammar.Denotes input r ∧ Fits capacity limit r.length :=
  bounded_reader reader id

end Rle

/-! ## LZSS coding -/

namespace Lzss

/-- `n` bytes that repeat the last `offset` bytes of `done` over and over. -/
def repetition (done : List UInt8) (offset n : ℕ) : List UInt8 :=
  (List.range n).map fun i => done.getD (done.length - offset + i % offset) 0

@[simp] theorem length_repetition (done : List UInt8) (offset n : ℕ) :
    (repetition done offset n).length = n := by
  simp [repetition]

/-- The byte `offset` positions back is the next one of the repetition. -/
theorem getD_repetition {done : List UInt8} {offset n : ℕ} (hpos : 0 < offset)
    (hle : offset ≤ done.length) :
    (done ++ repetition done offset n).getD
        ((done ++ repetition done offset n).length - offset) 0 =
      done.getD (done.length - offset + n % offset) 0 := by
  rw [List.length_append, length_repetition]
  rcases Nat.lt_or_ge n offset with hlt | hge
  · have hindex : done.length + n - offset = done.length - offset + n := by omega
    rw [Nat.mod_eq_of_lt hlt, hindex, List.getD_append _ _ _ _ (by omega)]
  · have hindex : done.length + n - offset - done.length = n - offset := by omega
    have hn : n - offset < n := by omega
    rw [List.getD_append_right _ _ _ _ (by omega), hindex, repetition,
      List.getD_eq_getElem _ _ (by simpa using hn), List.getElem_map, List.getElem_range,
      Nat.mod_eq_sub_mod hge]

/-- Copying back byte by byte, a reference may overlap what it produces. -/
theorem copyBack_eq {done : List UInt8} {offset : ℕ} (hpos : 0 < offset)
    (hle : offset ≤ done.length) (n : ℕ) :
    copyBack offset n done = done ++ repetition done offset n := by
  have hcopy (m k : ℕ) : copyBack offset m (done ++ repetition done offset k) =
      done ++ repetition done offset (k + m) := by
    induction m generalizing k with
    | zero => rfl
    | succ m ih =>
      have hnext : done ++ repetition done offset k ++
          [done.getD (done.length - offset + k % offset) 0] =
            done ++ repetition done offset (k + 1) := by
        simp [repetition, List.range_succ]
      rw [copyBack, getD_repetition hpos hle, hnext, ih]
      congr 2
      omega
  have hzero := hcopy n 0
  rwa [Nat.zero_add, repetition, List.range_zero, List.map_nil, List.append_nil] at hzero

/-- A literal run, or a back reference. -/
inductive Token
  | literal (bytes : List UInt8)
  | reference (offset n : ℕ)

/-- `0x00..0x7F`: a literal run of `token + 1` bytes; `0x80..0xFF`: `(token & 0x7F) + 3`
bytes copied from `offset_minus_1 + 1` bytes before, inside the decoded history. -/
def grammar : TokenGrammar Token UInt8 UInt8 where
  wire
    | .literal bytes => literalToken bytes
    | .reference offset n => [0x80 ||| UInt8.ofNat (n - refLenMin), UInt8.ofNat (offset - 1)]
  Valid
    | _, .literal bytes => LiteralValid bytes
    | done, .reference offset n =>
      (0 < offset ∧ offset ≤ window ∧ offset ≤ done.length) ∧ refLenMin ≤ n ∧ n ≤ refLenMax
  expand
    | _, .literal bytes => bytes
    | done, .reference offset n => repetition done offset n
  Padding := (· = [])

theorem decodeLoop_marked {token : UInt8} (htoken : ¬ token ≤ 0x7F) (back : UInt8)
    (rest done : List UInt8) :
    decodeLoop capacity limit (token :: back :: rest) done =
      if done.length < back.toNat + 1 then none
      else
        let piece := repetition done (back.toNat + 1) ((token &&& 0x7F).toNat + refLenMin)
        if Fits capacity limit (done ++ piece).length then
          decodeLoop capacity limit rest (done ++ piece)
        else none := by
  rw [decodeLoop.eq_def]
  simp only [htoken, if_false]
  split
  · rfl
  · next hle =>
    rw [copyBack_eq (Nat.succ_pos _) (Nat.not_lt.mp hle), List.length_append, length_repetition]

theorem reader : grammar.Reader (Fits capacity limit) (decodeLoop capacity limit) where
  padding := by
    rintro done _ rfl
    exact decodeLoop_nil capacity limit done
  token := by
    intro done t rest h
    cases t with
    | literal bytes => exact takesLiterals.token done h rest
    | reference offset n =>
      obtain ⟨⟨hpos, hwindow, hle⟩, hmin, hmax⟩ := h
      simp only [window] at hwindow
      obtain ⟨htoken, hn⟩ := run_byte hmin hmax
      have hback : (UInt8.ofNat (offset - 1)).toNat + 1 = offset := by
        rw [UInt8.toNat_ofNat']
        omega
      have hstep : decodeLoop capacity limit _ _ = _ :=
        decodeLoop_marked htoken (UInt8.ofNat (offset - 1)) rest done
      rw [hback, hn, if_neg (Nat.not_lt.mpr hle)] at hstep
      exact hstep
  stuck := by
    intro done input hinput h
    obtain ⟨token, rest, rfl⟩ := List.exists_cons_of_ne_nil hinput
    by_cases htoken : token ≤ 0x7F
    · exact takesLiterals.stuck htoken fun bytes rest' hbytes => h (.literal bytes) rest' hbytes
    · cases rest with
      | nil =>
        rw [decodeLoop.eq_def]
        simp only [htoken, if_false]
      | cons back rest =>
        rw [decodeLoop_marked htoken]
        split
        · rfl
        · next hle =>
          obtain ⟨hlow, heq⟩ := eq_marked htoken
          have hback := back.toNat_lt
          refine absurd ?_ (h (.reference (back.toNat + 1) ((token &&& 0x7F).toNat + refLenMin))
            rest ⟨⟨Nat.succ_pos _, by simp only [window]; omega, Nat.not_lt.mp hle⟩,
              Nat.le_add_left _ _, by simp only [refLenMin, refLenMax]; omega⟩)
          simp only [grammar, Nat.add_sub_cancel, UInt8.ofNat_toNat, heq, List.cons_append,
            List.nil_append]
  wire_ne_nil := by
    intro _ t _
    cases t <;> exact List.cons_ne_nil _ _
  expand_ne_nil := by
    intro done t h
    cases t with
    | literal bytes => exact List.ne_nil_of_length_pos h.1
    | reference offset n =>
      have hmin : 3 ≤ n := h.2.1
      refine List.ne_nil_of_length_pos ?_
      simp only [grammar, length_repetition]
      omega
  mono := fun _ _ hle hfit => hfit.mono hle

/-- The decoder accepts exactly the token sequences. -/
theorem decode_iff : decode input capacity limit = some r ↔
    grammar.Denotes input r ∧ Fits capacity limit r.length :=
  bounded_reader reader id

end Lzss

/-! ## Dictionary coding -/

namespace Dict

/-- A literal run, or a word of the codebook. -/
inductive Token
  | literal (bytes : List UInt8)
  | reference (index : ℕ)

/-- `0x00..0x7F`: a literal run of `token + 1` bytes; `0x80..0xBF`: the word with index
`token & 0x3F`, which the codebook must have. -/
def grammar : TokenGrammar Token UInt8 UInt8 where
  wire
    | .literal bytes => literalToken bytes
    | .reference index => [0x80 ||| UInt8.ofNat index]
  Valid
    | _, .literal bytes => LiteralValid bytes
    | _, .reference index => index < entries.length
  expand
    | _, .literal bytes => bytes
    | _, .reference index => word (entries.getD index (0, 0))
  Padding := (· = [])

theorem getD_entries {index : ℕ} (h : index < entries.length) :
    entries[index]? = some (entries.getD index (0, 0)) := by
  rw [List.getElem?_eq_getElem h, List.getD_eq_getElem _ _ h]

theorem decodeLoop_marked {token : UInt8} (htoken : ¬ token ≤ 0x7F) (hsmall : token ≤ 0xBF)
    (hindex : (token &&& 0x3F).toNat < entries.length) (rest done : List UInt8) :
    decodeLoop capacity limit (token :: rest) done =
      let piece := word (entries.getD (token &&& 0x3F).toNat (0, 0))
      if Fits capacity limit (done ++ piece).length then
        decodeLoop capacity limit rest (done ++ piece)
      else none := by
  rw [decodeLoop.eq_def]
  simp only [htoken, if_false, hsmall, if_true, getD_entries hindex, emit_bind]

theorem reader : grammar.Reader (Fits capacity limit) (decodeLoop capacity limit) where
  padding := by
    rintro done _ rfl
    exact decodeLoop_nil capacity limit done
  token := by
    intro done t rest h
    cases t with
    | literal bytes => exact takesLiterals.token done h rest
    | reference index =>
      obtain ⟨htoken, hsmall, hlow⟩ := index_byte (Nat.lt_of_lt_of_le h (by decide))
      have hstep : decodeLoop capacity limit _ _ = _ :=
        decodeLoop_marked htoken hsmall (hlow.symm ▸ h) rest done
      rw [hlow] at hstep
      exact hstep
  stuck := by
    intro done input hinput h
    obtain ⟨token, rest, rfl⟩ := List.exists_cons_of_ne_nil hinput
    by_cases htoken : token ≤ 0x7F
    · exact takesLiterals.stuck htoken fun bytes rest' hbytes => h (.literal bytes) rest' hbytes
    rw [decodeLoop.eq_def]
    by_cases hsmall : token ≤ 0xBF
    · obtain ⟨-, heq⟩ := eq_index htoken hsmall
      have hindex : entries.length ≤ (token &&& 0x3F).toNat := by
        rw [← Nat.not_lt]
        intro hlt
        refine h (.reference (token &&& 0x3F).toNat) rest hlt ?_
        simp only [grammar, UInt8.ofNat_toNat, heq, List.cons_append, List.nil_append]
      simp only [htoken, if_false, hsmall, if_true, List.getElem?_eq_none hindex]
    · simp only [htoken, if_false, hsmall]
  wire_ne_nil := by
    intro _ t _
    cases t <;> exact List.cons_ne_nil _ _
  expand_ne_nil := by
    intro done t h
    cases t with
    | literal bytes => exact List.ne_nil_of_length_pos h.1
    | reference index =>
      have hword := word_length _ (List.mem_of_getElem? (getD_entries h))
      exact List.ne_nil_of_length_pos (hword.1 ▸ hword.2)
  mono := fun _ _ hle hfit => hfit.mono hle

/-- The decoder accepts exactly the token sequences. -/
theorem decode_iff : decode input capacity limit = some r ↔
    grammar.Denotes input r ∧ Fits capacity limit r.length :=
  bounded_reader reader id

end Dict

end Atoman.Codec
