import Atoman.Codec.Token
import Mathlib.Data.Nat.Basic
import Mathlib.Data.Option.Basic
import Mathlib.Logic.Function.Iterate

/-!
# Dictionary coding

A token up to `0x7F` starts a literal run, one up to `0xBF` names a word of the
built-in codebook, the others are invalid. The encoder takes the longest word that
matches, the first one among equals.
-/

namespace Atoman.Codec.Dict

/-- `CODEC_DICT_LITERAL_MAX` -/
abbrev literalMax : ℕ := 128

/-- The words of the built-in codebook. -/
def entryWords : List (List Char) :=
  [['c', 'o', 'u', 'n', 't', 'e', 'r'],
   ['l', 'e', 'd', '_', 'm', 'a', 's', 'k'],
   ['t', 'e', 'm', 'p', 'e', 'r', 'a', 't', 'u', 'r', 'e'],
   ['v', 'o', 'l', 't', 'a', 'g', 'e'],
   ['c', 'u', 'r', 'r', 'e', 'n', 't'],
   ['p', 'o', 'w', 'e', 'r'],
   ['f', 'r', 'e', 'q', 'u', 'e', 'n', 'c', 'y'],
   ['s', 't', 'a', 't', 'u', 's'],
   ['e', 'r', 'r', 'o', 'r'],
   ['s', 'c', 'o', 'p', 'e'],
   ['s', 'f', 'r', 'a'],
   ['p', 'e', 'r', 'f'],
   ['t', 'r', 'a', 'c', 'e'],
   ['o', 'k'],
   ['f', 'a', 'i', 'l'],
   ['v', 'e', 'r', 's', 'i', 'o', 'n']]

/-- `s_codec_dict_entry_data`: the words with a zero byte between any two. -/
def entryData : List UInt8 :=
  List.intercalate [0] (entryWords.map fun w => w.map fun c => UInt8.ofNat c.toNat)

/-- `s_codec_dict_entries`: offset and length of each word. -/
def entries : List (ℕ × ℕ) :=
  [(0, 7), (8, 8), (17, 11), (29, 7), (37, 7), (45, 5), (51, 9), (61, 6), (68, 5), (74, 5),
    (80, 4), (85, 4), (90, 5), (96, 2), (99, 4), (104, 7)]

/-- The word an entry of the table stands for. -/
def word (entry : ℕ × ℕ) : List UInt8 := (entryData.drop entry.1).take entry.2

example : entries.map word = entryWords.map fun w => w.map fun c => UInt8.ofNat c.toNat := by
  decide +kernel

/-- Entries whose first byte is `b`: the bits of `s_codec_dict_first_byte_bucket`. -/
def firstByteBucket (b : UInt8) (entry : ℕ × ℕ) : Bool := entryData[entry.1]? = some b

/-- The entry matches the input, which starts with `b`. -/
def entryMatches (b : UInt8) (input : List UInt8) (entry : ℕ × ℕ) : Bool :=
  firstByteBucket b entry && decide (entry.2 ≤ input.length) && input.take entry.2 == word entry

/-- Length and index of the longest entry that matches, length 0 when none does. -/
@[irreducible] def bestEntry : List UInt8 → ℕ × ℕ
  | [] => (0, 0)
  | b :: rest =>
    (List.range entries.length).foldl
      (fun best i =>
        let entry := entries.getD i (0, 0)
        if entryMatches b (b :: rest) entry ∧
            (best.1 < entry.2 ∨ entry.2 = best.1 ∧ i < best.2) then (entry.2, i)
        else best)
      (0, 0)

/-- The encoder's loop; `pending` is the literal run collected so far. -/
def encodeLoop (capacity limit : ℕ) (input pending out : List UInt8) : Option (List UInt8) :=
  match input with
  | [] => flush capacity limit out pending
  | b :: rest =>
    let best := bestEntry (b :: rest)
    if h : best.1 = 0 then
      let pending := pending ++ [b]
      if pending.length = literalMax then
        (emit capacity limit out (literalToken pending)).bind (encodeLoop capacity limit rest [])
      else encodeLoop capacity limit rest pending out
    else
      (flush capacity limit out pending).bind fun out =>
        (emit capacity limit out [0x80 ||| UInt8.ofNat best.2]).bind
          (encodeLoop capacity limit ((b :: rest).drop best.1) [])
termination_by input.length
decreasing_by
  · simp
  · simp
  · simp only [List.length_drop, List.length_cons]
    exact Nat.sub_lt (Nat.succ_pos _) (Nat.pos_of_ne_zero h)

/-- `codec_dict_encode` -/
def encode (input : List UInt8) (capacity limit : ℕ) : Option (List UInt8) :=
  bounded capacity limit input (encodeLoop capacity limit input [] [])

/-- The decoder's loop. -/
def decodeLoop (capacity limit : ℕ) (input out : List UInt8) : Option (List UInt8) :=
  match input with
  | [] => some out
  | token :: rest =>
    if token ≤ 0x7F then
      let n := token.toNat + 1
      if rest.length < n then none
      else (emit capacity limit out (rest.take n)).bind (decodeLoop capacity limit (rest.drop n))
    else if token ≤ 0xBF then
      match entries[(token &&& 0x3F).toNat]? with
      | none => none
      | some entry =>
        (emit capacity limit out (word entry)).bind (decodeLoop capacity limit rest)
    else none
termination_by input.length
decreasing_by
  all_goals
    simp only [List.length_drop, List.length_cons]
    omega

/-- `codec_dict_decode` -/
def decode (input : List UInt8) (capacity limit : ℕ) : Option (List UInt8) :=
  bounded capacity limit input (decodeLoop capacity limit input [])

/-- `codec_dict_codebook_id` -/
def codebookId : UInt8 := 0

/-- `codec_dict_codebook_version` -/
def codebookVersion : UInt8 := 1

/-- One bit of the reflected CRC. -/
def crc32Bit (crc : UInt32) : UInt32 := (crc >>> 1) ^^^ (0xEDB88320 &&& (0 - (crc &&& 1)))

/-- `codec_dict_codebook_crc32`, over the words without their separators. -/
def codebookCrc32 : UInt32 :=
  (entries.flatMap word).foldl (fun crc b => crc32Bit^[8] (crc ^^^ b.toUInt32)) 0xFFFFFFFF ^^^
    0xFFFFFFFF

/-! ## The codebook -/

/-- Every word has the length its entry gives, and is not empty. -/
theorem word_length : ∀ entry ∈ entries, (word entry).length = entry.2 ∧ 0 < entry.2 := by
  decide +kernel

/-- The entry found is one of the table, and its word starts the input. -/
theorem bestEntry_spec (b : UInt8) (rest : List UInt8) :
    (bestEntry (b :: rest)).1 = 0 ∨
      ∃ entry, entries[(bestEntry (b :: rest)).2]? = some entry ∧
        entry.2 = (bestEntry (b :: rest)).1 ∧ (b :: rest).take entry.2 = word entry := by
  unfold bestEntry
  refine List.foldlRecOn (motive := fun (best : ℕ × ℕ) => best.1 = 0 ∨
    ∃ entry, entries[best.2]? = some entry ∧ entry.2 = best.1 ∧
      (b :: rest).take entry.2 = word entry) _ _ (Or.inl rfl) ?_
  intro best hbest i hi
  have hi' : i < entries.length := List.mem_range.mp hi
  dsimp only
  split
  · next hmatch =>
    refine Or.inr ⟨entries.getD i (0, 0), ?_, rfl, ?_⟩
    · rw [List.getD_eq_getElem?_getD, List.getElem?_eq_getElem hi', Option.getD_some]
    · have := hmatch.1
      simp only [entryMatches, Bool.and_eq_true, beq_iff_eq] at this
      exact this.2
  · exact hbest

/-! ## Round trip -/

theorem decodeLoop_nil (capacity limit : ℕ) (done : List UInt8) :
    decodeLoop capacity limit [] done = some done := by rw [decodeLoop]

theorem takesLiterals : TakesLiterals decodeLoop := by
  intro capacity limit token rest done htoken
  rw [decodeLoop.eq_def]
  simp only [htoken, if_true]

/-- A reference token is read as its word. -/
theorem reads_word (done : List UInt8) {i : ℕ} {entry : ℕ × ℕ} (h : entries[i]? = some entry) :
    Reads decodeLoop done [0x80 ||| UInt8.ofNat i] (word entry) := by
  intro capacity limit rest hfit
  have hi : i < 16 := by
    obtain ⟨hi, -⟩ := List.getElem?_eq_some_iff.mp h
    exact hi
  obtain ⟨htoken, hsmall, hindex⟩ := index_byte (i := i) (by omega)
  rw [List.cons_append, decodeLoop.eq_def]
  simp only [htoken, if_false, hsmall, if_true, hindex, h, List.nil_append]
  rw [emit_of_fits hfit, Option.bind_some]

/-- What the encoder appends is read as the pending literal run and the input. -/
theorem encodeLoop_reads {capacity limit : ℕ} {input pending out r : List UInt8}
    (h : encodeLoop capacity limit input pending out = some r)
    (hpending : pending.length < literalMax) (done : List UInt8) :
    ∃ code, r = out ++ code ∧ Reads decodeLoop done code (pending ++ input) := by
  induction input, pending, out using encodeLoop.induct generalizing done with
  | case1 pending out =>
    rw [encodeLoop] at h
    rw [List.append_nil]
    exact takesLiterals.reads_flush done h (Nat.le_of_lt hpending)
  | case2 pending out b rest best hbest pending' hfull ih =>
    rw [encodeLoop] at h
    simp only [best] at hbest
    simp only [pending'] at hfull
    simp only [dif_pos hbest, if_pos hfull] at h
    obtain ⟨out₁, hemit, h⟩ := Option.bind_eq_some_iff.mp h
    obtain ⟨code, rfl, hread⟩ := ih out₁ h (by decide) (done ++ (pending ++ [b]))
    refine ⟨_, by rw [emit_eq_some hemit, List.append_assoc], ?_⟩
    have hlit : Reads decodeLoop done (literalToken (pending ++ [b])) (pending ++ [b]) :=
      takesLiterals.reads done (by simp) (Nat.le_of_eq hfull)
    have := hlit.append hread
    rwa [List.nil_append, List.append_assoc, List.singleton_append] at this
  | case3 pending out b rest best hbest pending' hfull ih =>
    rw [encodeLoop] at h
    simp only [best] at hbest
    simp only [pending'] at hfull ih
    simp only [dif_pos hbest, if_neg hfull] at h
    simp only [List.length_append, List.length_singleton] at hfull
    obtain ⟨code, rfl, hread⟩ := ih h
      (by simp only [List.length_append, List.length_singleton]; omega) done
    refine ⟨code, rfl, ?_⟩
    rwa [List.append_assoc, List.singleton_append] at hread
  | case4 pending out b rest best hbest ih =>
    rw [encodeLoop] at h
    simp only [best] at hbest
    simp only [dif_neg hbest] at h
    obtain ⟨out₁, hflush, h⟩ := Option.bind_eq_some_iff.mp h
    obtain ⟨out₂, hemit, hrest⟩ := Option.bind_eq_some_iff.mp h
    obtain ⟨code₁, rfl, hread₁⟩ := takesLiterals.reads_flush done hflush
      (Nat.le_of_lt hpending)
    obtain ⟨entry, hentry, hlen, htake⟩ := (bestEntry_spec b rest).resolve_left hbest
    obtain ⟨code, rfl, hread⟩ := ih out₂ hrest (by decide) (done ++ pending ++ word entry)
    refine ⟨_, by rw [emit_eq_some hemit, List.append_assoc, List.append_assoc], ?_⟩
    have := hread₁.append ((reads_word (done ++ pending) hentry).append hread)
    simp only [best] at this
    rwa [List.nil_append, ← hlen, ← htake, List.take_append_drop] at this

/-- What the encoder produces is decoded to the input, wherever the input fits. -/
theorem decode_encode {input code : List UInt8} {capacity limit capacity' limit' : ℕ}
    (h : encode input capacity limit = some code) (hcap : input.length ≤ capacity')
    (hlim : input.length < limit') : decode code capacity' limit' = some input := by
  obtain ⟨⟨hne, -, -⟩, hloop, hcode, -⟩ := bounded_eq_some.mp h
  obtain ⟨code', rfl, hreads⟩ := encodeLoop_reads hloop (by decide) []
  exact hreads.bounded_eq hcode hne (decodeLoop_nil _ _) hcap hlim

end Atoman.Codec.Dict
