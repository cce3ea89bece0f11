import Mathlib.Data.List.Basic
import Mathlib.Data.List.TakeDrop
import Mathlib.Tactic.Tauto

/-!
# Token streams with a capacity and a limit

The dictionary, run-length and LZSS codecs share their frame: an encoder or
decoder appends pieces to its output, each piece only when it fits the buffer and
keeps the length below the exclusive limit, and answers with nothing when one
does not. `none` is the result 0 with the output length set to zero.
-/

namespace Atoman.Codec

/-- The length fits the buffer and stays below the limit. -/
abbrev Fits (capacity limit length : ℕ) : Prop := length ≤ capacity ∧ length < limit

/-- Append a piece of output. -/
def emit (capacity limit : ℕ) (out piece : List UInt8) : Option (List UInt8) :=
  if Fits capacity limit (out.length + piece.length) then some (out ++ piece) else none

/-- A literal run: its length minus one, then the bytes. -/
def literalToken (bytes : List UInt8) : List UInt8 :=
  UInt8.ofNat (bytes.length - 1) :: bytes

/-- Emit the pending literal run, if there is one. -/
def flush (capacity limit : ℕ) (out pending : List UInt8) : Option (List UInt8) :=
  if pending = [] then some out else emit capacity limit out (literalToken pending)

/-- The checks every codec makes on entry and on its result. -/
def bounded (capacity limit : ℕ) (input : List UInt8) (body : Option (List UInt8)) :
    Option (List UInt8) :=
  if input = [] ∨ limit = 0 ∨ capacity = 0 then none
  else body.bind fun out => if out = [] ∨ limit ≤ out.length then none else some out

/-! ## Emitting -/

variable {capacity limit : ℕ} {out piece pending input : List UInt8}

theorem Fits.mono {m n : ℕ} (h : Fits capacity limit n) (hmn : m ≤ n) : Fits capacity limit m :=
  ⟨Nat.le_trans hmn h.1, Nat.lt_of_le_of_lt hmn h.2⟩

theorem emit_eq_some {r : List UInt8} (h : emit capacity limit out piece = some r) :
    r = out ++ piece := by
  unfold emit at h
  split at h
  · exact (Option.some.inj h).symm
  · exact absurd h (by simp)

theorem emit_of_fits (h : Fits capacity limit (out.length + piece.length)) :
    emit capacity limit out piece = some (out ++ piece) := if_pos h

theorem bounded_eq_some {body : Option (List UInt8)} {r : List UInt8} :
    bounded capacity limit input body = some r ↔
      (input ≠ [] ∧ limit ≠ 0 ∧ capacity ≠ 0) ∧ body = some r ∧ r ≠ [] ∧ r.length < limit := by
  unfold bounded
  by_cases hentry : input = [] ∨ limit = 0 ∨ capacity = 0
  · simp only [if_pos hentry, reduceCtorEq, false_iff]
    tauto
  · rw [if_neg hentry]
    cases body with
    | none => simp
    | some b =>
      simp only [not_or] at hentry
      by_cases hend : b = [] ∨ limit ≤ b.length
      · simp only [Option.bind_some, if_pos hend, reduceCtorEq, false_iff]
        rintro ⟨-, hb, hne, hlt⟩
        obtain rfl := Option.some.inj hb
        rcases hend with h | h
        · exact hne h
        · omega
      · simp only [Option.bind_some, if_neg hend, Option.some.injEq]
        simp only [not_or, Nat.not_le] at hend
        constructor
        · rintro rfl; exact ⟨hentry, rfl, hend⟩
        · rintro ⟨-, rfl, -⟩; rfl

/-! ## Token bytes -/

/-- The length byte of a literal run. -/
theorem literal_byte {n : ℕ} (h : 0 < n) (hn : n ≤ 128) :
    UInt8.ofNat (n - 1) ≤ 0x7F ∧ (UInt8.ofNat (n - 1)).toNat + 1 = n := by
  have hval : (UInt8.ofNat (n - 1)).toNat = n - 1 := by
    rw [UInt8.toNat_ofNat']; omega
  refine ⟨UInt8.le_iff_toNat_le.mpr ?_, by omega⟩
  rw [hval]
  change n - 1 ≤ 127
  omega

/-- A byte with the top bit set and a smaller number below it. -/
theorem marked_byte {n : ℕ} (h : n < 128) :
    ¬ (0x80 ||| UInt8.ofNat n) ≤ 0x7F ∧ (0x80 ||| UInt8.ofNat n).toNat = 128 + n := by
  have hval : (0x80 ||| UInt8.ofNat n).toNat = 128 + n := by
    rw [UInt8.toNat_or, UInt8.toNat_ofNat', Nat.mod_eq_of_lt (by omega)]
    exact (Nat.two_pow_add_eq_or_of_lt (i := 7) h 1).symm
  refine ⟨fun hle => ?_, hval⟩
  have := UInt8.le_iff_toNat_le.mp hle
  rw [hval] at this
  change 128 + n ≤ 127 at this
  omega

theorem low_bits (b : UInt8) : (b &&& 0x7F).toNat = b.toNat % 128 := by
  rw [UInt8.toNat_and]
  exact Nat.and_two_pow_sub_one_eq_mod b.toNat 7

/-- The length byte of a run of 3 to 130 bytes. -/
theorem run_byte {n : ℕ} (hmin : 3 ≤ n) (hmax : n ≤ 130) :
    ¬ (0x80 ||| UInt8.ofNat (n - 3)) ≤ 0x7F ∧
      ((0x80 ||| UInt8.ofNat (n - 3)) &&& 0x7F).toNat + 3 = n := by
  obtain ⟨htoken, hval⟩ := marked_byte (n := n - 3) (by omega)
  refine ⟨htoken, ?_⟩
  rw [low_bits, hval]
  omega

theorem index_bits (b : UInt8) : (b &&& 0x3F).toNat = b.toNat % 64 := by
  rw [UInt8.toNat_and]
  exact Nat.and_two_pow_sub_one_eq_mod b.toNat 6

/-- A byte that names one of 64 words. -/
theorem index_byte {i : ℕ} (h : i < 64) :
    ¬ (0x80 ||| UInt8.ofNat i) ≤ 0x7F ∧ (0x80 ||| UInt8.ofNat i) ≤ 0xBF ∧
      ((0x80 ||| UInt8.ofNat i) &&& 0x3F).toNat = i := by
  obtain ⟨htoken, hval⟩ := marked_byte (n := i) (by omega)
  refine ⟨htoken, ?_, ?_⟩
  · rw [UInt8.le_iff_toNat_le, hval]
    change 128 + i ≤ 191
    omega
  · rw [index_bits, hval]
    omega

/-! ## Reading back

A decoder reads a code as a piece when, wherever the piece fits, it turns the code
into the piece and goes on behind it. -/

/-- The decoder, with `done` already decoded, turns `code` into `piece`. -/
def Reads (decodeLoop : ℕ → ℕ → List UInt8 → List UInt8 → Option (List UInt8))
    (done code piece : List UInt8) : Prop :=
  ∀ capacity limit rest, Fits capacity limit (done.length + piece.length) →
    decodeLoop capacity limit (code ++ rest) done = decodeLoop capacity limit rest (done ++ piece)

section Reads
variable {decodeLoop : ℕ → ℕ → List UInt8 → List UInt8 → Option (List UInt8)}
variable {done code code' piece' : List UInt8}

theorem Reads.nil : Reads decodeLoop done [] [] := fun _ _ _ _ => by simp

/-- Codes read one after the other. -/
theorem Reads.append (h : Reads decodeLoop done code piece)
    (h' : Reads decodeLoop (done ++ piece) code' piece') :
    Reads decodeLoop done (code ++ code') (piece ++ piece') := by
  intro capacity limit rest hfit
  simp only [List.length_append] at hfit
  rw [List.append_assoc, h _ _ _ (hfit.mono (by omega)),
    h' _ _ _ (by simp only [List.length_append]; exact hfit.mono (by omega)), List.append_assoc]

/-- What reads as the whole input is decoded to it. -/
theorem Reads.bounded_eq (h : Reads decodeLoop [] code input) (hcode : code ≠ [])
    (hinput : input ≠ []) (hend : ∀ done, decodeLoop capacity limit [] done = some done)
    (hcap : input.length ≤ capacity) (hlim : input.length < limit) :
    bounded capacity limit code (decodeLoop capacity limit code []) = some input := by
  have hpos := List.length_pos_iff.mpr hinput
  have hread := h capacity limit [] ⟨by simpa using hcap, by simpa using hlim⟩
  rw [List.append_nil, List.nil_append, hend] at hread
  exact bounded_eq_some.mpr ⟨⟨hcode, by omega, by omega⟩, hread, hinput, hlim⟩

/-- A token up to `0x7F` starts a literal run. -/
def TakesLiterals (decodeLoop : ℕ → ℕ → List UInt8 → List UInt8 → Option (List UInt8)) : Prop :=
  ∀ capacity limit token rest done, token ≤ 0x7F →
    decodeLoop capacity limit (token :: rest) done =
      if rest.length < token.toNat + 1 then none
      else
        (emit capacity limit done (rest.take (token.toNat + 1))).bind
          (decodeLoop capacity limit (rest.drop (token.toNat + 1)))

/-- A literal token is read as its bytes. -/
theorem TakesLiterals.reads (hdec : TakesLiterals decodeLoop) (done : List UInt8)
    {bytes : List UInt8} (hpos : 0 < bytes.length) (hlen : bytes.length ≤ 128) :
    Reads decodeLoop done (literalToken bytes) bytes := by
  intro capacity limit rest hfit
  obtain ⟨htoken, hn⟩ := literal_byte hpos hlen
  rw [literalToken, List.cons_append, hdec _ _ _ _ _ htoken, hn, if_neg (by simp),
    List.take_left, List.drop_left, emit_of_fits hfit, Option.bind_some]

/-- What a flush appends is read as the pending literal run. -/
theorem TakesLiterals.reads_flush (hdec : TakesLiterals decodeLoop) (done : List UInt8)
    {r : List UInt8} (h : flush capacity limit out pending = some r) (hlen : pending.length ≤ 128) :
    ∃ code, r = out ++ code ∧ Reads decodeLoop done code pending := by
  unfold flush at h
  split at h
  · next hp => subst hp; exact ⟨[], by simpa using h.symm, Reads.nil⟩
  · next hp =>
    exact ⟨literalToken pending, emit_eq_some h, hdec.reads done (List.length_pos_iff.mpr hp) hlen⟩

end Reads

end Atoman.Codec
