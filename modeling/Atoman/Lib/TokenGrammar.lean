import Mathlib.Data.List.Basic
import Mathlib.Data.List.TakeDrop
import Mathlib.Data.Nat.Init
import Mathlib.Order.Nat

/-!
# Token grammars

A token has a written form and stands for a piece of output; whether it may stand at a
place, and what it stands for, can depend on the output in front of it. Behind the tokens
there may be padding. A reader of the grammar takes one token after the other and stops
where none begins.

## Main definitions

* `TokenGrammar` — the tokens, how they are written and what they stand for.
* `TokenGrammar.Denotes` — an input is a token sequence, and this is its output.
* `TokenGrammar.Reader` — a loop that reads token by token.
* `TokenGrammar.Reader.accepts_iff` — it accepts exactly the token sequences.
-/

namespace Atoman.Lib
universe u v w

/-- The tokens `τ`, written over `α` and standing for output over `β`. -/
structure TokenGrammar (τ : Type u) (α : Type v) (β : Type w) where
  /-- how a token is written -/
  wire : τ → List α
  /-- the token may stand behind this output -/
  Valid : List β → τ → Prop
  /-- what the token adds behind this output -/
  expand : List β → τ → List β
  /-- what may stand behind the last token -/
  Padding : List α → Prop

namespace TokenGrammar
variable {τ : Type u} {α : Type v} {β : Type w} (G : TokenGrammar τ α β)

/-- Every token may stand where it does. -/
def WellFormed : List β → List τ → Prop
  | _, [] => True
  | done, t :: ts => G.Valid done t ∧ WellFormed (done ++ G.expand done t) ts

/-- The output behind `done` and the tokens. -/
def denote : List β → List τ → List β
  | done, [] => done
  | done, t :: ts => denote (done ++ G.expand done t) ts

/-- The input is a sequence of at least one token with its padding, and `data` is what
the tokens stand for. -/
def Denotes (input : List α) (data : List β) : Prop :=
  ∃ ts pad, ts ≠ [] ∧ G.WellFormed [] ts ∧ G.Padding pad ∧ input = ts.flatMap G.wire ++ pad ∧
    data = G.denote [] ts

theorem length_le_denote (ts : List τ) (done : List β) :
    done.length ≤ (G.denote done ts).length := by
  induction ts generalizing done with
  | nil => exact le_rfl
  | cons t ts ih =>
    have hstep : done.length ≤ (done ++ G.expand done t).length := by simp
    exact hstep.trans (ih _)

/-- A loop that reads the tokens one by one, each as long as the output up to it is
permitted, and gives up where neither a token nor the padding begins. -/
structure Reader (permits : ℕ → Prop) [DecidablePred permits]
    (loop : List α → List β → Option (List β)) : Prop where
  padding : ∀ done pad, G.Padding pad → loop pad done = some done
  token : ∀ done t rest, G.Valid done t → loop (G.wire t ++ rest) done =
    if permits (done ++ G.expand done t).length then loop rest (done ++ G.expand done t) else none
  stuck : ∀ done input, ¬ G.Padding input →
    (∀ t rest, G.Valid done t → input ≠ G.wire t ++ rest) → loop input done = none
  wire_ne_nil : ∀ done t, G.Valid done t → G.wire t ≠ []
  expand_ne_nil : ∀ done t, G.Valid done t → G.expand done t ≠ []
  mono : ∀ m n, m ≤ n → permits n → permits m

namespace Reader
variable {G} {permits : ℕ → Prop} [DecidablePred permits]
variable {loop : List α → List β → Option (List β)}

/-- Well formed tokens are read, as long as the whole output is permitted. -/
theorem reads (h : G.Reader permits loop) {ts : List τ} {done : List β} {pad : List α}
    (hts : G.WellFormed done ts) (hpad : G.Padding pad)
    (hall : ts = [] ∨ permits (G.denote done ts).length) :
    loop (ts.flatMap G.wire ++ pad) done = some (G.denote done ts) := by
  induction ts generalizing done with
  | nil => exact h.padding done pad hpad
  | cons t ts ih =>
    have hpermits : permits (G.denote done (t :: ts)).length :=
      hall.resolve_left (List.cons_ne_nil t ts)
    have hfirst : permits (done ++ G.expand done t).length :=
      h.mono _ _ (G.length_le_denote ts _) hpermits
    rw [List.flatMap_cons, List.append_assoc, h.token _ _ _ hts.1, if_pos hfirst]
    exact ih hts.2 (.inr hpermits)

/-- What is read is a well formed token sequence, and permitted. -/
theorem of_reads (h : G.Reader permits loop) {input : List α} {done out : List β}
    (hloop : loop input done = some out) :
    ∃ ts pad, G.WellFormed done ts ∧ G.Padding pad ∧ input = ts.flatMap G.wire ++ pad ∧
      out = G.denote done ts ∧ (ts = [] ∨ permits out.length) := by
  induction hn : input.length using Nat.strong_induction_on generalizing input done with
  | _ n ih =>
    by_cases hpad : G.Padding input
    · rw [h.padding done input hpad] at hloop
      exact ⟨[], input, trivial, hpad, rfl, (Option.some.inj hloop).symm, .inl rfl⟩
    · by_cases hbegins : ∃ t rest, G.Valid done t ∧ input = G.wire t ++ rest
      · obtain ⟨t, rest, hvalid, rfl⟩ := hbegins
        have hpos := List.length_pos_iff.mpr (h.wire_ne_nil done t hvalid)
        rw [List.length_append] at hn
        rw [h.token _ _ _ hvalid] at hloop
        split at hloop
        · next hfirst =>
          obtain ⟨ts, pad, hts, htail, rfl, hout, hpermits⟩ := ih _ (by omega) hloop rfl
          refine ⟨t :: ts, pad, ⟨hvalid, hts⟩, htail, (List.append_assoc _ _ _).symm, hout,
            .inr ?_⟩
          rcases hpermits with rfl | hpermits
          · rw [hout]
            exact hfirst
          · exact hpermits
        · simp at hloop
      · rw [h.stuck done input hpad fun t rest hvalid heq => hbegins ⟨t, rest, hvalid, heq⟩]
          at hloop
        simp at hloop

/-- A token sequence stands for something, as every token does. -/
theorem denote_ne_nil (h : G.Reader permits loop) {ts : List τ} (hne : ts ≠ [])
    (hts : G.WellFormed [] ts) : G.denote [] ts ≠ [] := by
  obtain ⟨t, ts, rfl⟩ := List.exists_cons_of_ne_nil hne
  have hpos := List.length_pos_iff.mpr (h.expand_ne_nil [] t hts.1)
  have hle := G.length_le_denote ts ([] ++ G.expand [] t)
  rw [List.nil_append] at hle
  exact List.ne_nil_of_length_pos (hpos.trans_le hle)

/-- A token sequence is not the empty input. -/
theorem input_ne_nil (h : G.Reader permits loop) {input : List α} {data : List β}
    (hdata : G.Denotes input data) : input ≠ [] := by
  obtain ⟨ts, pad, hne, hts, -, rfl, -⟩ := hdata
  obtain ⟨t, ts, rfl⟩ := List.exists_cons_of_ne_nil hne
  rw [List.flatMap_cons, List.append_assoc]
  exact List.append_ne_nil_of_left_ne_nil (h.wire_ne_nil [] t hts.1) _

/-- **A reader accepts exactly the token sequences** whose output is permitted, and
returns that output. -/
theorem accepts_iff (h : G.Reader permits loop) {input : List α} {out : List β} :
    loop input [] = some out ∧ out ≠ [] ↔ G.Denotes input out ∧ permits out.length := by
  constructor
  · rintro ⟨hloop, hout⟩
    obtain ⟨ts, pad, hts, hpad, rfl, rfl, hpermits⟩ := h.of_reads hloop
    have hne : ts ≠ [] := by
      rintro rfl
      exact hout rfl
    exact ⟨⟨ts, pad, hne, hts, hpad, rfl, rfl⟩, hpermits.resolve_left hne⟩
  · rintro ⟨⟨ts, pad, hne, hts, hpad, rfl, rfl⟩, hpermits⟩
    exact ⟨h.reads hts hpad (.inr hpermits), h.denote_ne_nil hne hts⟩

end Reader
end TokenGrammar
end Atoman.Lib
