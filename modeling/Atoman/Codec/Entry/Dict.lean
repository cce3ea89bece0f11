import Atoman.Codec.Dict
import Atoman.Codec.Entry.Output
import Mathlib.Data.List.GetD
import Mathlib.Data.Nat.Bitwise
import Mathlib.Data.Nat.Init
import Mathlib.Logic.Function.Basic

/-!
# The dictionary entry points

`codec_dict_encode` and `codec_dict_decode` with the indices of the source, and the
table of first bytes with one bit for each entry, filled in by the first call of a
build that skips the initialisation.
-/

namespace Atoman.Codec.Entry
open Dict (entries entryData word literalMax bestEntry)
open Lib (Memory)

/-! ## The table of first bytes -/

/-- The first byte of an entry. -/
def dictFirstByte (i : ℕ) : UInt8 := entryData.getD (entries.getD i (0, 0)).1 0

/-- The loop of `codec_dict_init` over the first `n` entries. -/
def dictFill : ℕ → UInt8 → UInt64
  | 0 => fun _ => 0
  | n + 1 =>
    let bucket := dictFill n
    Function.update bucket (dictFirstByte n) (bucket (dictFirstByte n) ||| 1 <<< UInt64.ofNat n)

/-- `codec_dict_init` -/
def codecDictInit : UInt8 → UInt64 := dictFill entries.length

/-- `s_codec_dict_first_byte_bucket` and `s_codec_dict_ready`. -/
structure DictTable where
  firstByteBucket : UInt8 → UInt64
  ready : Bool
  filled : ready = true → firstByteBucket = codecDictInit

/-- The table before `codec_dict_init`. -/
def DictTable.blank : DictTable := ⟨fun _ => 0, false, fun h => absurd h Bool.false_ne_true⟩

/-- Fill the table unless it is ready. -/
def DictTable.prepare (t : DictTable) : DictTable :=
  if t.ready = false then ⟨codecDictInit, true, fun _ => rfl⟩ else t

theorem DictTable.prepare_bucket (t : DictTable) : t.prepare.firstByteBucket = codecDictInit := by
  unfold prepare
  split
  · rfl
  · next h => exact t.filled (Bool.eq_true_of_not_eq_false h)

/-- The bit of an entry, as a mask. -/
theorem toNat_one_shiftLeft {i : ℕ} (hi : i < 64) :
    (1 <<< UInt64.ofNat i : UInt64).toNat = 2 ^ i := by
  rw [UInt64.toNat_shiftLeft, UInt64.toNat_ofNat', Nat.mod_eq_of_lt (a := i) (by omega),
    Nat.mod_eq_of_lt hi, UInt64.toNat_one, Nat.shiftLeft_eq, Nat.one_mul,
    Nat.mod_eq_of_lt (Nat.pow_lt_pow_right (by omega) hi)]

theorem and_mask_eq_zero {x : UInt64} {i : ℕ} (hi : i < 64) :
    x &&& 1 <<< UInt64.ofNat i = 0 ↔ x.toNat.testBit i = false := by
  rw [← UInt64.toNat_inj, UInt64.toNat_and, toNat_one_shiftLeft hi, Nat.and_two_pow]
  cases x.toNat.testBit i <;> simp

/-- The bit of entry `i` is set at its first byte only. -/
theorem testBit_dictFill {n i : ℕ} (hn : n ≤ 64) (b : UInt8) :
    (dictFill n b).toNat.testBit i = decide (i < n ∧ dictFirstByte i = b) := by
  induction n with
  | zero => simp [dictFill]
  | succ n ih =>
    rw [dictFill]
    by_cases hb : b = dictFirstByte n
    · subst hb
      rw [Function.update_self, UInt64.toNat_or, Nat.testBit_or, toNat_one_shiftLeft (by omega),
        Nat.testBit_two_pow, ih (by omega), ← Bool.decide_or, decide_eq_decide]
      constructor
      · rintro (h | rfl)
        · exact ⟨by omega, h.2⟩
        · exact ⟨Nat.lt_succ_self _, rfl⟩
      · rintro ⟨hlt, hfirst⟩
        rcases Nat.lt_succ_iff_lt_or_eq.mp hlt with h | h
        · exact Or.inl ⟨h, hfirst⟩
        · exact Or.inr h.symm
    · rw [Function.update_of_ne hb, ih (by omega), decide_eq_decide]
      constructor
      · exact fun h => ⟨by omega, h.2⟩
      · rintro ⟨hlt, hfirst⟩
        refine ⟨Nat.lt_of_le_of_ne (Nat.le_of_lt_succ hlt) ?_, hfirst⟩
        rintro rfl
        exact hb hfirst.symm

/-! ## The search -/

/-- Look for the longest entry that matches at `index`, the first one among equals. -/
def dictSearch (bucket : UInt8 → UInt64) (input : List UInt8) (index : ℕ) : ℕ × ℕ :=
  let candidates := bucket (input.getD index 0)
  (List.range entries.length).foldl
    (fun best i =>
      if candidates &&& 1 <<< UInt64.ofNat i = 0 then best
      else
        let entry := entries.getD i (0, 0)
        if input.length - index < entry.2 then best
        else if (input.drop index).take entry.2 ≠ word entry then best
        else if best.1 < entry.2 ∨ entry.2 = best.1 ∧ i < best.2 then (entry.2, i)
        else best)
    (0, 0)

theorem firstByte_eq {i : ℕ} (hi : i < entries.length) (b : UInt8) :
    dictFirstByte i = b ↔ Dict.firstByteBucket b (entries.getD i (0, 0)) = true := by
  have hoffset : ∀ i < entries.length, (entries.getD i (0, 0)).1 < entryData.length := by
    decide +kernel
  rw [dictFirstByte, Dict.firstByteBucket, List.getD_eq_getElem _ _ (hoffset i hi),
    List.getElem?_eq_getElem (hoffset i hi)]
  simp

/-- The search of the source is the one of the list. -/
theorem dictSearch_eq {input : List UInt8} {index : ℕ} (h : index < input.length) :
    dictSearch codecDictInit input index = bestEntry (input.drop index) := by
  have hdrop := List.drop_eq_getElem_cons h
  rw [hdrop, bestEntry, dictSearch]
  refine List.foldl_ext _ _ _ fun best i hi => ?_
  have hi' : i < entries.length := List.mem_range.mp hi
  have hlen : entries.length = 16 := rfl
  have hbit : codecDictInit (input.getD index 0) &&& 1 <<< UInt64.ofNat i = 0 ↔
      ¬ Dict.firstByteBucket input[index] (entries.getD i (0, 0)) = true := by
    rw [and_mask_eq_zero (by omega), codecDictInit, testBit_dictFill (by omega),
      List.getD_eq_getElem _ _ h, ← firstByte_eq hi', decide_eq_false_iff_not, not_and]
    exact ⟨fun hne => hne hi', fun hne _ => hne⟩
  have hmatch : Dict.entryMatches input[index] (input[index] :: input.drop (index + 1))
      (entries.getD i (0, 0)) = true ↔
      Dict.firstByteBucket input[index] (entries.getD i (0, 0)) = true ∧
        ¬ input.length - index < (entries.getD i (0, 0)).2 ∧
        (input.drop index).take (entries.getD i (0, 0)).2 = word (entries.getD i (0, 0)) := by
    rw [← hdrop, Dict.entryMatches, Bool.and_eq_true, Bool.and_eq_true, decide_eq_true_iff,
      beq_iff_eq, List.length_drop, Nat.not_lt, and_assoc]
  dsimp only
  by_cases hfirst : Dict.firstByteBucket input[index] (entries.getD i (0, 0)) = true
  · rw [if_neg (by rw [hbit]; exact not_not_intro hfirst)]
    by_cases hshort : input.length - index < (entries.getD i (0, 0)).2
    · rw [if_pos hshort, if_neg (fun hh => (hmatch.mp hh.1).2.1 hshort)]
    · rw [if_neg hshort]
      by_cases hword : (input.drop index).take (entries.getD i (0, 0)).2 =
          word (entries.getD i (0, 0))
      · rw [if_neg (not_not_intro hword)]
        simp only [hmatch.mpr ⟨hfirst, hshort, hword⟩, true_and]
      · rw [if_pos hword, if_neg (fun hh => hword (hmatch.mp hh.1).2.2)]
  · rw [if_pos (hbit.mpr hfirst), if_neg (fun hh => hfirst (hmatch.mp hh.1).1)]

/-- An entry whose word starts the input matches. -/
theorem entryMatches_of_prefix {b : UInt8} {rest : List UInt8} {entry : ℕ × ℕ}
    (hmem : entry ∈ entries) (hword : word entry <+: b :: rest) :
    Dict.entryMatches b (b :: rest) entry = true := by
  obtain ⟨hlen, hpos⟩ := Dict.word_length entry hmem
  have hle := hword.length_le
  have htake := List.prefix_iff_eq_take.mp hword
  rw [hlen] at hle htake
  have hfirst : entryData[entry.1]? = some b := by
    have hhead : (word entry)[0]? = some b := by
      rw [htake, List.getElem?_take_of_lt hpos]; rfl
    rwa [word, List.getElem?_take_of_lt hpos, List.getElem?_drop] at hhead
  rw [List.length_cons] at hle
  simp [Dict.entryMatches, Dict.firstByteBucket, hfirst, hle, htake]

/-- The better of the best entry so far and entry `i`. -/
def betterEntry (b : UInt8) (input : List UInt8) (best : ℕ × ℕ) (i : ℕ) : ℕ × ℕ :=
  let entry := entries.getD i (0, 0)
  if Dict.entryMatches b input entry ∧ (best.1 < entry.2 ∨ entry.2 = best.1 ∧ i < best.2) then
    (entry.2, i)
  else best

/-- The best entry is at least as long as every entry looked at that matches. -/
theorem le_foldl_betterEntry (b : UInt8) (input : List UInt8) (is : List ℕ) (best : ℕ × ℕ) :
    best.1 ≤ (is.foldl (betterEntry b input) best).1 ∧
      ∀ i ∈ is, Dict.entryMatches b input (entries.getD i (0, 0)) = true →
        (entries.getD i (0, 0)).2 ≤ (is.foldl (betterEntry b input) best).1 := by
  induction is generalizing best with
  | nil => exact ⟨Nat.le_refl _, fun i hi => absurd hi List.not_mem_nil⟩
  | cons i is ih =>
    obtain ⟨hgrow, hall⟩ := ih (betterEntry b input best i)
    have hstep : best.1 ≤ (betterEntry b input best i).1 ∧
        (Dict.entryMatches b input (entries.getD i (0, 0)) = true →
          (entries.getD i (0, 0)).2 ≤ (betterEntry b input best i).1) := by
      unfold betterEntry
      dsimp only
      split
      · next h => exact ⟨by dsimp only; omega, fun _ => Nat.le_refl _⟩
      · next h =>
        refine ⟨Nat.le_refl _, fun hmatch => Nat.not_lt.mp fun hlt => h ⟨hmatch, Or.inl hlt⟩⟩
    rw [List.foldl_cons]
    refine ⟨Nat.le_trans hstep.1 hgrow, fun j hj hmatch => ?_⟩
    rcases List.mem_cons.mp hj with rfl | hj
    · exact Nat.le_trans (hstep.2 hmatch) hgrow
    · exact hall j hj hmatch

/-- No entry that matches is longer than the one found. -/
theorem le_bestEntry {b : UInt8} {rest : List UInt8} {entry : ℕ × ℕ} (hmem : entry ∈ entries)
    (hword : word entry <+: b :: rest) : entry.2 ≤ (bestEntry (b :: rest)).1 := by
  have hmatch := entryMatches_of_prefix hmem hword
  obtain ⟨i, hi, rfl⟩ := List.getElem_of_mem hmem
  have hget : entries.getD i (0, 0) = entries[i] := List.getD_eq_getElem _ _ hi
  have hall := (le_foldl_betterEntry b (b :: rest) (List.range entries.length) (0, 0)).2 i
    (List.mem_range.mpr hi) (by rw [hget]; exact hmatch)
  rw [hget] at hall
  rw [bestEntry]
  exact hall

/-! ## The entry points -/

/-- The loop of `codec_dict_encode`. -/
def dictEncodeLoop (bucket : UInt8 → UInt64) (capacity limit : ℕ) (input : List UInt8)
    (index literalStart literalLen : ℕ) (s : Output) : Except Output Output :=
  if index < input.length then
    let best := dictSearch bucket input index
    if hbest : best.1 = 0 then
      let literalLen := literalLen + 1
      if literalLen = literalMax then
        (storeLiteral capacity limit input literalStart literalLen s).bind
          (dictEncodeLoop bucket capacity limit input (index + 1) (index + 1) 0)
      else dictEncodeLoop bucket capacity limit input (index + 1) literalStart literalLen s
    else
      (flushLiteral capacity limit input literalStart literalLen s).bind fun s =>
        (s.encoderRoom capacity limit 1).bind fun s =>
          let s := s.append [0x80 ||| UInt8.ofNat best.2]
          dictEncodeLoop bucket capacity limit input (index + best.1) (index + best.1) 0 s
  else flushLiteral capacity limit input literalStart literalLen s
termination_by input.length - index
decreasing_by
  · omega
  · omega
  · have hpos : 0 < best.1 := Nat.pos_of_ne_zero hbest
    simp only [best] at hpos
    omega

/-- `codec_dict_encode`, with the table it leaves behind. -/
def codecDictEncode (t : DictTable) (p_input : Option (List UInt8))
    (p_output_len : Option UInt16) (p_output : Option (Memory UInt8)) (limit_len : UInt16) :
    DictTable × Outcome :=
  (match p_input, p_output_len, p_output with
    | some input, some capacity, some _ =>
      if input = [] ∨ limit_len = 0 ∨ capacity = 0 then t else t.prepare
    | _, _, _ => t,
    call (frame fun capacity limit input s =>
        dictEncodeLoop t.prepare.firstByteBucket capacity limit input 0 0 0 s)
      p_input p_output_len p_output limit_len)

/-- The loop of `codec_dict_decode`. -/
def dictDecodeLoop (capacity limit : ℕ) (input : List UInt8) (index : ℕ) (s : Output) :
    Except Output Output :=
  if h : index < input.length then
    let token := input[index]
    let index := index + 1
    if token ≤ 0x7F then
      let literalLen := token.toNat + 1
      if input.length - index < literalLen then .error s.fail
      else
        (s.decoderRoom capacity limit literalLen).bind fun s =>
          let s := s.append ((input.drop index).take literalLen)
          dictDecodeLoop capacity limit input (index + literalLen) s
    else if token ≤ 0xBF then
      let entryIndex := (token &&& 0x3F).toNat
      if hentry : entries.length ≤ entryIndex then .error s.fail
      else
        let entry := entries[entryIndex]
        (s.decoderRoom capacity limit entry.2).bind fun s =>
          dictDecodeLoop capacity limit input index (s.append (word entry))
    else .error s.fail
  else .ok s
termination_by input.length - index

/-- `codec_dict_decode` -/
def codecDictDecode : Option (List UInt8) → Option UInt16 → Option (Memory UInt8) → UInt16 →
    Outcome :=
  call (frame fun capacity limit input s => dictDecodeLoop capacity limit input 0 s)

/-! ## Against the lists -/

variable {capacity limit : ℕ} {input out pending : List UInt8} {index start len : ℕ} {s : Output}

/-- The length found does not pass the end of the input. -/
theorem bestEntry_le (b : UInt8) (rest : List UInt8) :
    (bestEntry (b :: rest)).1 ≤ (b :: rest).length := by
  rcases Dict.bestEntry_spec b rest with h0 | ⟨entry, hentry, hlen, htake⟩
  · omega
  · have hword := (Dict.word_length entry (List.mem_of_getElem? hentry)).1
    have := List.length_take_le' entry.2 (b :: rest)
    rw [htake] at this
    omega

/-- The encoder's loop is the list's, with the literal run collected so far pending. -/
theorem tracks_dictEncodeLoop (h : s.Holds capacity out)
    (hc : Collected input start len index pending) :
    Tracks capacity (dictEncodeLoop codecDictInit capacity limit input index start len s)
      (Dict.encodeLoop capacity limit (input.drop index) pending out) := by
  induction hm : input.length - index using Nat.strong_induction_on
    generalizing index start len pending s out with
  | _ m ih =>
    rw [dictEncodeLoop]
    by_cases hlt : index < input.length
    · have hdrop := List.drop_eq_getElem_cons hlt
      have hle := bestEntry_le input[index] (input.drop (index + 1))
      rw [← hdrop, List.length_drop] at hle
      rw [if_pos hlt, dictSearch_eq hlt]
      rw [hdrop, Dict.encodeLoop, ← hdrop]
      dsimp only
      by_cases hbest : (bestEntry (input.drop index)).1 = 0
      · rw [dif_pos hbest, dif_pos hbest]
        have hpush := hc.push hlt
        rw [hpush.length]
        by_cases hfull : len + 1 = literalMax
        · rw [if_pos hfull, if_pos hfull]
          refine tracks_storeLiteral h hpush fun s₁ h₁ => ?_
          exact ih _ (by omega) h₁ (.start hlt) rfl
        · rw [if_neg hfull, if_neg hfull]
          exact ih _ (by omega) h hpush rfl
      · rw [dif_neg hbest, dif_neg hbest, List.drop_drop]
        refine tracks_flushLiteral h hc fun s₁ out₁ h₁ => ?_
        refine (guards_encoderRoom capacity limit 1 s₁).tracks h₁ rfl fun s₂ h₂ => ?_
        exact ih _ (by omega) h₂ (.start (by omega)) rfl
    · rw [if_neg hlt, List.drop_eq_nil_of_le (by omega), Dict.encodeLoop]
      exact tracks_flushLiteral_end h hc

/-- The decoder's loop from `index` on is the list's on the rest of the input. -/
theorem tracks_dictDecodeLoop (h : s.Holds capacity out) (hin : index ≤ input.length) :
    Tracks capacity (dictDecodeLoop capacity limit input index s)
      (Dict.decodeLoop capacity limit (input.drop index) out) := by
  induction hm : input.length - index using Nat.strong_induction_on generalizing index s out with
  | _ m ih =>
    rw [dictDecodeLoop]
    by_cases hlt : index < input.length
    · have hdrop := List.drop_eq_getElem_cons hlt
      rw [dif_pos hlt, hdrop, Dict.decodeLoop.eq_def]
      dsimp only
      by_cases htoken : input[index] ≤ 0x7F
      · rw [if_pos htoken, if_pos htoken, List.drop_drop]
        refine tracks_takeLiteral h fun hroom s' hs' => ?_
        exact ih _ (by omega) hs' (by omega) rfl
      · rw [if_neg htoken, if_neg htoken]
        by_cases hword : input[index] ≤ 0xBF
        · rw [if_pos hword, if_pos hword]
          by_cases hentry : entries.length ≤ (input[index] &&& 0x3F).toNat
          · rw [dif_pos hentry, List.getElem?_eq_none hentry]
            exact h.toClean.fail
          · rw [dif_neg hentry, List.getElem?_eq_getElem (Nat.not_le.mp hentry)]
            have hlen := (Dict.word_length _ (List.getElem_mem (Nat.not_le.mp hentry))).1
            refine (guards_decoderRoom capacity limit _ s).tracks h hlen fun s' hs' => ?_
            exact ih _ (by omega) hs' (by omega) rfl
        · rw [if_neg hword, if_neg hword]
          exact h.toClean.fail
    · rw [dif_neg hlt, List.drop_eq_nil_of_le (by omega), Dict.decodeLoop]
      exact h

theorem dictEncode_loopTracks (t : DictTable) :
    LoopTracks (fun capacity limit input s =>
        dictEncodeLoop t.prepare.firstByteBucket capacity limit input 0 0 0 s)
      fun capacity limit input => Dict.encodeLoop capacity limit input [] [] := by
  intro _ _ _ _ h
  rw [t.prepare_bucket]
  exact tracks_dictEncodeLoop h (.start (Nat.zero_le _))

theorem dictDecode_loopTracks :
    LoopTracks (fun capacity limit input s => dictDecodeLoop capacity limit input 0 s)
      fun capacity limit input => Dict.decodeLoop capacity limit input [] :=
  fun _ _ _ _ h => tracks_dictDecodeLoop h (Nat.zero_le _)

/-! ## What the encoder emits -/

/-- `code` splits `input` the greedy way: a reference names the longest entry that
matches at its position, and no entry matches at any byte of a literal run. -/
inductive Greedy : List UInt8 → List UInt8 → Prop
  | nil : Greedy [] []
  | literal {bytes input code : List UInt8} (pos : 0 < bytes.length)
      (short : bytes.length ≤ literalMax)
      (unmatched : ∀ k < bytes.length, ∀ entry ∈ entries,
        ¬ word entry <+: (bytes ++ input).drop k)
      (rest : Greedy input code) : Greedy (bytes ++ input) (literalToken bytes ++ code)
  | reference {i : ℕ} {entry : ℕ × ℕ} {input code : List UInt8} (found : entries[i]? = some entry)
      (longest : ∀ other ∈ entries, word other <+: word entry ++ input → other.2 ≤ entry.2)
      (rest : Greedy input code) : Greedy (word entry ++ input) ((0x80 ||| UInt8.ofNat i) :: code)

/-- Where the search finds nothing, no entry matches. -/
theorem unmatched_push {pending rest : List UInt8} {b : UInt8}
    (hun : ∀ k < pending.length, ∀ entry ∈ entries,
      ¬ word entry <+: (pending ++ b :: rest).drop k)
    (hbest : (bestEntry (b :: rest)).1 = 0) :
    ∀ k < (pending ++ [b]).length, ∀ entry ∈ entries,
      ¬ word entry <+: (pending ++ [b] ++ rest).drop k := by
  intro k hk entry hmem hword
  rw [List.append_assoc, List.singleton_append] at hword
  rw [List.length_append, List.length_singleton] at hk
  rcases Nat.lt_succ_iff_lt_or_eq.mp hk with hlt | rfl
  · exact hun k hlt entry hmem hword
  · rw [List.drop_left] at hword
    have := le_bestEntry hmem hword
    have := (Dict.word_length entry hmem).2
    omega

/-- What a flush appends is a literal run in front of a greedy code. -/
theorem Greedy.flush {pending input code r : List UInt8} (hcode : Greedy input code)
    (hlen : pending.length ≤ literalMax)
    (hun : ∀ k < pending.length, ∀ entry ∈ entries, ¬ word entry <+: (pending ++ input).drop k)
    (h : flush capacity limit out pending = some r) :
    ∃ code', r = out ++ code' ∧ Greedy (pending ++ input) (code' ++ code) := by
  unfold Codec.flush at h
  split at h
  · next hp =>
    subst hp
    exact ⟨[], by simpa using h.symm, hcode⟩
  · next hp =>
    exact ⟨literalToken pending, emit_eq_some h,
      .literal (List.length_pos_iff.mpr hp) hlen hun hcode⟩

/-- What the encoder appends is a greedy code of the pending literal run and the
input. -/
theorem encodeLoop_greedy {input pending out r : List UInt8}
    (h : Dict.encodeLoop capacity limit input pending out = some r)
    (hpending : pending.length < literalMax)
    (hun : ∀ k < pending.length, ∀ entry ∈ entries, ¬ word entry <+: (pending ++ input).drop k) :
    ∃ code, r = out ++ code ∧ Greedy (pending ++ input) code := by
  induction input, pending, out using Dict.encodeLoop.induct with
  | case1 pending out =>
    rw [Dict.encodeLoop] at h
    obtain ⟨code, hr, hcode⟩ := Greedy.nil.flush (Nat.le_of_lt hpending) hun h
    refine ⟨code, hr, ?_⟩
    rwa [List.append_nil code] at hcode
  | case2 pending out b rest best hbest pending' hfull ih =>
    rw [Dict.encodeLoop] at h
    simp only [best] at hbest
    simp only [pending'] at hfull
    simp only [dif_pos hbest, if_pos hfull] at h
    obtain ⟨out₁, hemit, h⟩ := Option.bind_eq_some_iff.mp h
    obtain ⟨code, rfl, hcode⟩ :=
      ih out₁ h (Nat.zero_lt_succ _) (fun k hk => absurd hk (Nat.not_lt_zero k))
    refine ⟨_, by rw [emit_eq_some hemit, List.append_assoc], ?_⟩
    have hun' := unmatched_push hun hbest
    have := Greedy.literal (by simp) (Nat.le_of_eq hfull) hun' hcode
    rwa [List.append_assoc, List.singleton_append] at this
  | case3 pending out b rest best hbest pending' hfull ih =>
    rw [Dict.encodeLoop] at h
    simp only [best] at hbest
    simp only [pending'] at hfull ih
    simp only [dif_pos hbest, if_neg hfull] at h
    have hun' := unmatched_push hun hbest
    simp only [List.length_append, List.length_singleton] at hfull
    obtain ⟨code, hr, hcode⟩ := ih h
      (by simp only [List.length_append, List.length_singleton]; omega) hun'
    refine ⟨code, hr, ?_⟩
    rwa [List.append_assoc, List.singleton_append] at hcode
  | case4 pending out b rest best hbest ih =>
    rw [Dict.encodeLoop] at h
    simp only [best] at hbest
    simp only [dif_neg hbest] at h
    obtain ⟨out₁, hflush, h⟩ := Option.bind_eq_some_iff.mp h
    obtain ⟨out₂, hemit, hrest⟩ := Option.bind_eq_some_iff.mp h
    obtain ⟨code, hr, hcode⟩ := ih out₂ hrest (Nat.zero_lt_succ _)
      (fun k hk => absurd hk (Nat.not_lt_zero k))
    obtain ⟨entry, hentry, hlen, htake⟩ := (Dict.bestEntry_spec b rest).resolve_left hbest
    have hinput : word entry ++ (b :: rest).drop entry.2 = b :: rest := by
      rw [← htake, List.take_append_drop]
    have href : Greedy (b :: rest) ((0x80 ||| UInt8.ofNat (bestEntry (b :: rest)).2) :: code) := by
      have hlongest : ∀ other ∈ entries,
          word other <+: word entry ++ (b :: rest).drop entry.2 → other.2 ≤ entry.2 := by
        intro other hmem hword
        rw [hinput] at hword
        rw [hlen]
        exact le_bestEntry hmem hword
      have := Greedy.reference hentry hlongest (by rw [hlen]; exact hcode)
      rwa [hinput] at this
    obtain ⟨code', hr', hcode'⟩ := href.flush (Nat.le_of_lt hpending) hun hflush
    refine ⟨code' ++ (0x80 ||| UInt8.ofNat (bestEntry (b :: rest)).2) :: code, ?_, hcode'⟩
    rw [hr, emit_eq_some hemit, hr']
    simp

/-- **Dictionary coding loses nothing, and takes the longest word.** Whatever
`codec_dict_encode` succeeds in encoding, in every state of the table of first bytes,
is a greedy code of the input, and `codec_dict_decode` takes the input back from it,
into every buffer that holds it and under every limit above its length. -/
theorem dict_round_trip (t : DictTable) (input : List UInt8) (buffer buffer' : Memory UInt8)
    (capacity limit capacity' limit' : UInt16)
    (hencode : (codecDictEncode t (some input) (some capacity) (some buffer) limit).2.ret = 1)
    (hcap : input.length ≤ capacity'.toNat) (hlim : input.length < limit'.toNat) :
    (codecDictDecode
      (some (codecDictEncode t (some input) (some capacity) (some buffer) limit).2.produced)
      (some capacity') (some buffer') limit').Returns input ∧
    Greedy input
      (codecDictEncode t (some input) (some capacity) (some buffer) limit).2.produced := by
  have henc := (dictEncode_loopTracks t).bodyEnds.implements
  refine ⟨henc.round_trip dictDecode_loopTracks.bodyEnds.implements Dict.decode_encode hencode
    buffer' hcap hlim, ?_⟩
  obtain ⟨code, hcode, hreturns⟩ := henc.of_ret hencode
  have hproduced : (codecDictEncode t (some input) (some capacity) (some buffer) limit).2.produced =
      code := hreturns.2.2
  obtain ⟨-, hloop, -⟩ := bounded_eq_some.mp hcode
  obtain ⟨code', rfl, hgreedy⟩ := encodeLoop_greedy hloop (Nat.zero_lt_succ _)
    (fun k hk => absurd hk (Nat.not_lt_zero k))
  rwa [hproduced]

/-- A literal byte, a word and the start of another word. -/
theorem dict_round_trip_ok :
    (codecDictDecode
      (some (codecDictEncode .blank (some [1, 111, 107, 111]) (some 8)
        (some fun _ => 0) 6).2.produced)
      (some 4) (some fun _ => 0) 5).Returns [1, 111, 107, 111] ∧
    Greedy [1, 111, 107, 111]
      (codecDictEncode .blank (some [1, 111, 107, 111]) (some 8)
        (some fun _ => 0) 6).2.produced := by
  have h0 : bestEntry [1, 111, 107, 111] = (0, 0) := by unfold bestEntry; decide +kernel
  have h1 : bestEntry [111, 107, 111] = (2, 13) := by unfold bestEntry; decide +kernel
  have h2 : bestEntry [111] = (0, 0) := by unfold bestEntry; decide +kernel
  exact dict_round_trip _ _ _ _ 8 6 4 5
    ((dictEncode_loopTracks .blank).bodyEnds.implements.returns _ _ 8 6 [0, 1, 0x80 ||| 13, 0, 111]
      (by simp [boundedCodec, bounded, Dict.encodeLoop, h0, h1, h2, literalMax, flush,
        literalToken, emit, Fits])).1
    (by decide) (by decide)

end Atoman.Codec.Entry
