import Atoman.Codec.Dict
import Atoman.Codec.Lzss
import Atoman.Codec.Rle
import Atoman.Codec.Zero

/-!
# Decoded lengths

What a decoder stores fits the buffer and stays below the limit: every piece is
checked before it is appended.
-/

namespace Atoman.Codec

variable {capacity limit : ℕ} {out piece input r : List UInt8}

theorem emit_length (h : emit capacity limit out piece = some r) : r.length ≤ capacity := by
  unfold emit at h
  split at h
  · next hfit =>
    obtain rfl := Option.some.inj h
    simpa using hfit.1
  · exact absurd h (by simp)

theorem bounded_length {body : Option (List UInt8)}
    (hbody : ∀ done, body = some done → done.length ≤ capacity)
    (h : bounded capacity limit input body = some r) : r.length ≤ capacity ∧ r.length < limit := by
  obtain ⟨-, hr, -, hlimit⟩ := bounded_eq_some.mp h
  exact ⟨hbody r hr, hlimit⟩

/-- A literal run keeps the bound. -/
theorem emit_bind_length {rest : List UInt8 → Option (List UInt8)}
    (ih : ∀ done, done.length ≤ capacity → rest done = some r → r.length ≤ capacity)
    (h : (emit capacity limit out piece).bind rest = some r) : r.length ≤ capacity := by
  obtain ⟨done, hdone, hrest⟩ := Option.bind_eq_some_iff.mp h
  exact ih done (emit_length hdone) hrest

theorem Rle.decodeLoop_length (hout : out.length ≤ capacity)
    (h : Rle.decodeLoop capacity limit input out = some r) : r.length ≤ capacity := by
  induction hn : input.length using Nat.strong_induction_on generalizing input out with
  | _ n ih =>
    rw [Rle.decodeLoop.eq_def] at h
    dsimp only at h
    split at h
    · obtain rfl := Option.some.inj h; exact hout
    · next token rest =>
      simp only [List.length_cons] at hn
      split at h
      · split at h
        · exact absurd h (by simp)
        · refine emit_bind_length (fun done hdone hr => ih _ ?_ hdone hr rfl) h
          rw [List.length_drop]; omega
      · split at h
        · exact absurd h (by simp)
        · simp only [List.length_cons] at hn
          exact emit_bind_length (fun done hdone hr => ih _ (by omega) hdone hr rfl) h

theorem Dict.decodeLoop_length (hout : out.length ≤ capacity)
    (h : Dict.decodeLoop capacity limit input out = some r) : r.length ≤ capacity := by
  induction hn : input.length using Nat.strong_induction_on generalizing input out with
  | _ n ih =>
    rw [Dict.decodeLoop.eq_def] at h
    dsimp only at h
    split at h
    · obtain rfl := Option.some.inj h; exact hout
    · next token rest =>
      simp only [List.length_cons] at hn
      split at h
      · split at h
        · exact absurd h (by simp)
        · refine emit_bind_length (fun done hdone hr => ih _ ?_ hdone hr rfl) h
          rw [List.length_drop]; omega
      · split at h
        · split at h
          · exact absurd h (by simp)
          · exact emit_bind_length (fun done hdone hr => ih _ (by omega) hdone hr rfl) h
        · exact absurd h (by simp)

theorem Lzss.length_copyBack (offset n : ℕ) (out : List UInt8) :
    (Lzss.copyBack offset n out).length = out.length + n := by
  induction n generalizing out with
  | zero => rfl
  | succ n ih => rw [Lzss.copyBack, ih]; simp; omega

theorem Lzss.decodeLoop_length (hout : out.length ≤ capacity)
    (h : Lzss.decodeLoop capacity limit input out = some r) : r.length ≤ capacity := by
  induction hn : input.length using Nat.strong_induction_on generalizing input out with
  | _ n ih =>
    rw [Lzss.decodeLoop.eq_def] at h
    dsimp only at h
    split at h
    · obtain rfl := Option.some.inj h; exact hout
    · next token rest =>
      simp only [List.length_cons] at hn
      split at h
      · split at h
        · exact absurd h (by simp)
        · refine emit_bind_length (fun done hdone hr => ih _ ?_ hdone hr rfl) h
          rw [List.length_drop]; omega
      · split at h
        · exact absurd h (by simp)
        · simp only [List.length_cons] at hn
          split at h
          · exact absurd h (by simp)
          · split at h
            · next hfit =>
              exact ih _ (by omega) (by rw [Lzss.length_copyBack]; exact hfit.1) h rfl
            · exact absurd h (by simp)

theorem Zero.decodeLoop_length {bits : List Bool} {pending : Option ℕ}
    (hout : out.length ≤ capacity)
    (h : Zero.decodeLoop capacity limit bits pending out = some r) : r.length ≤ capacity := by
  induction hn : bits.length using Nat.strong_induction_on generalizing bits pending out with
  | _ n ih =>
    rw [Zero.decodeLoop.eq_def] at h
    split at h
    · split at h
      · obtain rfl := Option.some.inj h; exact hout
      · exact absurd h (by simp)
    · next zero more hb =>
      dsimp only at h
      split at h
      · exact absurd h (by simp)
      · split at h
        · exact absurd h (by simp)
        · next one rest hc =>
          have hshort : rest.length < n := by
            have h₁ := (List.dropWhile_suffix id (l := bits)).length_le
            have h₂ := (List.dropWhile_suffix not (l := zero :: more)).length_le
            rw [hb] at h₁; rw [hc] at h₂
            simp only [List.length_cons] at h₁ h₂; omega
          split at h
          · exact absurd h (by simp)
          · split at h
            · exact ih _ hshort hout h rfl
            · split at h
              · exact absurd h (by simp)
              · next hroom =>
                refine ih _ hshort ?_ h rfl
                simp only [List.length_append, List.length_singleton]; omega

/-! ## Whole decoders -/

theorem Rle.decode_length (h : Rle.decode input capacity limit = some r) :
    r.length ≤ capacity ∧ r.length < limit :=
  bounded_length (fun _ => Rle.decodeLoop_length (Nat.zero_le _)) h

theorem Dict.decode_length (h : Dict.decode input capacity limit = some r) :
    r.length ≤ capacity ∧ r.length < limit :=
  bounded_length (fun _ => Dict.decodeLoop_length (Nat.zero_le _)) h

theorem Lzss.decode_length (h : Lzss.decode input capacity limit = some r) :
    r.length ≤ capacity ∧ r.length < limit :=
  bounded_length (fun _ => Lzss.decodeLoop_length (Nat.zero_le _)) h

theorem Zero.decode_length (h : Zero.decode input capacity limit = some r) :
    r.length ≤ capacity ∧ r.length < limit :=
  bounded_length (fun _ => Zero.decodeLoop_length (Nat.zero_le _)) h

end Atoman.Codec
