import Atoman.DemoStorage.Service

/-!
# Two slots

What a scan makes of the two parameter slots, said without the scan: the newest of
their records. A save leaves that record alone and works on the other slot; whatever
an operation cut short leaves there, the newest record stays or is the new one.
-/

namespace Atoman.DemoStorage
open Lib

/-- A record, as it is found. -/
structure Entry where
  sequence : UInt32
  params : Params
  deriving DecidableEq, Repr

/-! ## The newest record -/

/-- The number a candidate has to beat. -/
def currentSequence : Option (ℕ × Entry) → UInt32
  | none => 0
  | some found => found.2.sequence

/-- What is found in the first slots. -/
def scanned (slot : ℕ → Option Entry) : ℕ → Option (ℕ × Entry)
  | 0 => none
  | k + 1 =>
    match slot k with
    | none => scanned slot k
    | some e =>
      if newer e.sequence (currentSequence (scanned slot k)) then some (k, e) else scanned slot k

/-- The newest of the two records, with its slot. -/
def newest (slot : ℕ → Option Entry) : Option (ℕ × Entry) := scanned slot 2

/-- The slot a save works on: the one that does not hold the newest record. -/
def target : Option (ℕ × Entry) → ℕ
  | none => 0
  | some found => 1 - found.1

section newest
variable {slot slot' : ℕ → Option Entry} (hpos : ∀ k e, slot k = some e → e.sequence ≠ 0)

theorem scanned_congr {n : ℕ} (h : ∀ k < n, slot' k = slot k) :
    scanned slot' n = scanned slot n := by
  induction n with
  | zero => rfl
  | succ n ih =>
    rw [scanned, scanned, h n (Nat.lt_succ_self n), ih fun k hk => h k (Nat.lt_succ_of_lt hk)]

theorem newer_zero {sequence : UInt32} (h : sequence ≠ 0) : newer sequence 0 := ⟨h, Or.inl rfl⟩

include hpos

/-- The first slot counts whenever it holds a record. -/
theorem scanned_one : scanned slot 1 = (slot 0).map (Prod.mk 0) := by
  rw [scanned]
  cases hslot : slot 0 with
  | none => rfl
  | some e => exact if_pos (newer_zero (hpos 0 e hslot))

/-- The newest record is one of the two. -/
theorem newest_spec {o : Option (ℕ × Entry)} (h : newest slot = o) :
    (∀ found, o = some found → found.1 < 2) ∧ slot (1 - target o) = o.map Prod.snd := by
  subst h
  have hone := scanned_one hpos
  rw [newest, scanned, hone]
  cases hslot : slot 1 with
  | none =>
    cases hslot' : slot 0 with
    | none => exact ⟨fun found hnone => absurd hnone (by simp), hslot⟩
    | some e => exact ⟨fun found hfound => by
        rw [← Option.some.inj hfound]; exact Nat.zero_lt_two, hslot'⟩
  | some e' =>
    dsimp only
    split
    · exact ⟨fun found hfound => by
        rw [← Option.some.inj hfound]; exact Nat.one_lt_two, hslot⟩
    · next hold =>
      cases hslot' : slot 0 with
      | none =>
        rw [hslot'] at hold
        exact absurd (newer_zero (hpos 1 e' hslot)) hold
      | some e => exact ⟨fun found hfound => by
        rw [← Option.some.inj hfound]; exact Nat.zero_lt_two, hslot'⟩

/-- Without a record in its slot, a save has changed nothing. -/
theorem newest_of_target_none {o : Option (ℕ × Entry)} (hlt : ∀ found, o = some found → found.1 < 2)
    (hother : slot (1 - target o) = o.map Prod.snd) (htarget : slot (target o) = none) :
    newest slot = o := by
  rw [newest, scanned, scanned_one hpos]
  match o, hlt with
  | none, _ =>
    have h0 : slot 0 = none := htarget
    have h1 : slot 1 = none := hother
    rw [h0, h1]
    rfl
  | some (0, e), _ =>
    have h0 : slot 0 = some e := hother
    have h1 : slot 1 = none := htarget
    rw [h0, h1]
    rfl
  | some (1, e), _ =>
    have h0 : slot 0 = none := htarget
    have h1 : slot 1 = some e := hother
    rw [h0, h1]
    exact if_pos (newer_zero (hpos 1 e h1))
  | some (k + 2, e), hlt =>
    have : k + 2 < 2 := hlt _ rfl
    omega

/-- **The record of a save is the newest**, whichever slot it is in. -/
theorem newest_of_target_some {o : Option (ℕ × Entry)} {e : Entry}
    (hlt : ∀ found, o = some found → found.1 < 2) (hother : slot (1 - target o) = o.map Prod.snd)
    (htarget : slot (target o) = some e) (hnext : e.sequence = nextSequence (currentSequence o)) :
    newest slot = some (target o, e) := by
  rw [newest, scanned, scanned_one hpos]
  match o, hlt with
  | none, _ =>
    have h0 : slot 0 = some e := htarget
    have h1 : slot 1 = none := hother
    rw [h0, h1]
    rfl
  | some (0, e'), _ =>
    have h0 : slot 0 = some e' := hother
    have h1 : slot 1 = some e := htarget
    rw [h0, h1]
    refine if_pos ?_
    rw [hnext]
    exact (newer_nextSequence (hpos 0 e' h0)).1
  | some (1, e'), _ =>
    have h0 : slot 0 = some e := htarget
    have h1 : slot 1 = some e' := hother
    rw [h0, h1]
    refine if_neg ?_
    show ¬ newer e'.sequence e.sequence
    rw [hnext]
    exact (newer_nextSequence (hpos 1 e' h1)).2
  | some (k + 2, e'), hlt =>
    have : k + 2 < 2 := hlt _ rfl
    omega

end newest

/-! ## Records in memory -/

/-- The record of a slot: a valid data page with its commit page behind it. -/
def slotEntry (page : ℕ) (m : Memory UInt8) : Option Entry :=
  if dataValid (m.slice 0 page) 1 ∧ committed (m.slice 0 page) (m.slice page page) then
    some ⟨readU32Le (m.slice 0 page) 8, recordDecode (m.slice 0 page)⟩
  else none

theorem slotEntry_sequence_ne_zero {page : ℕ} {m : Memory UInt8} {e : Entry}
    (h : slotEntry page m = some e) : e.sequence ≠ 0 := by
  unfold slotEntry at h
  split at h
  · next hvalid =>
    obtain rfl := Option.some.inj h
    exact hvalid.1.2.2.1
  · exact absurd h (by simp)

/-- A word is read from its four bytes. -/
theorem readU32Le_take {p : List UInt8} {i n : ℕ} (h : i + 4 ≤ n) :
    readU32Le (p.take n) i = readU32Le p i := by
  unfold readU32Le
  congr 1 <;> rw [List.getD_eq_getElem?_getD, List.getElem?_take_of_lt (by omega),
    List.getD_eq_getElem?_getD]

/-- Only the first 32 bytes of a data page are looked at. -/
theorem dataValid_take (data : List UInt8) (kind : UInt32) :
    dataValid (data.take 32) kind ↔ dataValid data kind := by
  unfold dataValid crcMatches recordDecode
  rw [List.take_take]
  simp only [readU32Le_take (show 0 + 4 ≤ 32 by decide), readU32Le_take (show 4 + 4 ≤ 32 by decide),
    readU32Le_take (show 8 + 4 ≤ 32 by decide), readU32Le_take (show 12 + 4 ≤ 32 by decide),
    readU32Le_take (show 16 + 4 ≤ 32 by decide), readU32Le_take (show 20 + 4 ≤ 32 by decide),
    readU32Le_take (show 24 + 4 ≤ 32 by decide), readU32Le_take (show 28 + 4 ≤ 32 by decide)]
  rfl

/-- Only the first 20 bytes of a commit page are looked at. -/
theorem committed_take (data commit : List UInt8) :
    committed (data.take 32) (commit.take 20) ↔ committed data commit := by
  unfold committed crcMatches
  rw [List.take_take]
  simp only [readU32Le_take (show 4 + 4 ≤ 32 by decide), readU32Le_take (show 8 + 4 ≤ 32 by decide),
    readU32Le_take (show 28 + 4 ≤ 32 by decide), readU32Le_take (show 0 + 4 ≤ 20 by decide),
    readU32Le_take (show 4 + 4 ≤ 20 by decide), readU32Le_take (show 8 + 4 ≤ 20 by decide),
    readU32Le_take (show 12 + 4 ≤ 20 by decide), readU32Le_take (show 16 + 4 ≤ 20 by decide)]
  rfl

theorem take_slice (m : Memory UInt8) (off : ℕ) {n len : ℕ} (h : n ≤ len) :
    (m.slice off len).take n = m.slice off n := (Memory.slice_prefix rfl h).symm

section entry
variable {page : ℕ} {m m' : Memory UInt8} (hpage : 32 ≤ page)
include hpage

/-- A record is made of the bytes that are looked at. -/
theorem slotEntry_eq : slotEntry page m =
    if dataValid (m.slice 0 32) 1 ∧ committed (m.slice 0 32) (m.slice page 20) then
      some ⟨readU32Le (m.slice 0 32) 8, recordDecode (m.slice 0 32)⟩
    else none := by
  have hdata := take_slice m 0 hpage
  have hcommit := take_slice m page (show 20 ≤ page by omega)
  have hdecode : recordDecode ((m.slice 0 page).take 32) = recordDecode (m.slice 0 page) := by
    unfold recordDecode
    rw [readU32Le_take (by decide), readU32Le_take (by decide), readU32Le_take (by decide)]
  simp only [slotEntry, ← hdata, ← hcommit, dataValid_take, committed_take, hdecode,
    readU32Le_take (show 8 + 4 ≤ 32 by decide)]

theorem slotEntry_congr (hdata : m'.slice 0 32 = m.slice 0 32)
    (hcommit : m'.slice page 20 = m.slice page 20) : slotEntry page m' = slotEntry page m := by
  rw [slotEntry_eq hpage, slotEntry_eq hpage, hdata, hcommit]

end entry

/-! ## Operations cut short -/

namespace Op

/-- The zone of a transfer. -/
def zone : Op → ℕ
  | .read zone _ _ | .write zone _ _ | .erase zone _ _ => zone

/-- What a transfer does to its zone, when it succeeds. -/
def apply : Op → Memory UInt8 → Memory UInt8
  | .read _ _ _, m => m
  | .write _ offset data, m => m.write offset data
  | .erase _ offset length, m => m.write offset (List.replicate length 0xFF)

/-- What a transfer that is cut short may leave: a prefix of what is written; any of the
cells erased. -/
def Torn : Op → Memory UInt8 → Memory UInt8 → Prop
  | .read _ _ _, m, m' => m' = m
  | .write _ offset data, m, m' => ∃ n, m' = m.write offset (data.take n)
  | .erase _ offset length, m, m' =>
    ∀ i, m' i = m i ∨ (offset ≤ i ∧ i < offset + length ∧ m' i = 0xFF)

/-- A torn page does not pass for another: when its CRC matches, the bytes that it
stands for are those that were there before, or those that were to be written. -/
structure Progress (page : ℕ) (op : Op) (m m' : Memory UInt8) : Prop where
  torn : op.Torn m m'
  data : crcMatches (m'.slice 0 page) 28 →
    m'.slice 0 32 = m.slice 0 32 ∨ m'.slice 0 32 = (op.apply m).slice 0 32
  commit : crcMatches (m'.slice page page) 16 →
    m'.slice page 20 = m.slice page 20 ∨ m'.slice page 20 = (op.apply m).slice page 20

end Op

/-- An erased page starts with no magic word. -/
theorem readU32Le_erased {m : Memory UInt8} {off n : ℕ} (hn : 4 ≤ n)
    (h : ∀ i, off ≤ i → i < off + n → m i = 0xFF) : readU32Le (m.slice off n) 0 = 0xFFFFFFFF := by
  have hbyte : ∀ i < 4, (m.slice off n).getD i 0 = 0xFF := by
    intro i hi
    have hlt : i < (m.slice off n).length := by rw [Memory.length_slice]; omega
    rw [List.getD_eq_getElem?_getD, List.getElem?_eq_getElem hlt, Option.getD_some,
      Memory.getElem_slice]
    exact h _ (by omega) (by omega)
  rw [readU32Le, hbyte _ (by decide), hbyte _ (by decide), hbyte _ (by decide), hbyte _ (by decide)]
  decide

/-- What an erase has left, when it has succeeded. -/
theorem erase_apply (zone length : ℕ) (m : Memory UInt8) :
    ∀ i < length, ((Op.erase zone 0 length).apply m) i = 0xFF := by
  intro i hi
  have hinside := m.write_inside 0 (List.replicate length (0xFF : UInt8)) (by simpa using hi)
  simpa [Op.apply] using hinside

section torn
variable {page : ℕ} {m m' : Memory UInt8} (hpage : 32 ≤ page)
include hpage

/-- An erased commit page commits nothing. -/
theorem slotEntry_erased (h : ∀ i, page ≤ i → i < page + 20 → m i = 0xFF) :
    slotEntry page m = none := by
  rw [slotEntry_eq hpage, if_neg]
  rintro ⟨-, hmagic, -⟩
  rw [readU32Le_erased (by decide) h] at hmagic
  exact absurd hmagic (by decide)

/-- **An erase that is cut short** leaves the record, or none. -/
theorem slotEntry_erase {zone length : ℕ} (hlength : page + 20 ≤ length)
    (h : (Op.erase zone 0 length).Progress page m m') :
    slotEntry page m' = slotEntry page m ∨ slotEntry page m' = none := by
  by_cases hentry : dataValid (m'.slice 0 page) 1 ∧ committed (m'.slice 0 page) (m'.slice page page)
  · left
    have happly := erase_apply zone length m
    refine slotEntry_congr hpage ?_ ?_
    · refine (h.data hentry.1.2.2.2.2.1).resolve_right fun herased => ?_
      have hmagic := hentry.1.1
      rw [← readU32Le_take (n := 32) (by decide), take_slice _ _ hpage, herased,
        readU32Le_erased (by decide) fun i _ hi => happly i (by omega)] at hmagic
      exact absurd hmagic (by decide)
    · refine (h.commit hentry.2.2.2.2.2).resolve_right fun herased => ?_
      have hmagic := hentry.2.1
      rw [← readU32Le_take (n := 20) (by decide), take_slice _ _ (show 20 ≤ page by omega), herased,
        readU32Le_erased (by decide) fun i _ hi => happly i (by omega)] at hmagic
      exact absurd hmagic (by decide)
  · exact Or.inr (if_neg hentry)

/-- **A data page that is written in part** commits nothing. -/
theorem slotEntry_write_data {zone : ℕ} {data : List UInt8} (hlength : data.length = page)
    (herased : ∀ i, page ≤ i → i < page + 20 → m i = 0xFF)
    (h : (Op.write zone 0 data).Torn m m') :
    (∀ i, page ≤ i → i < page + 20 → m' i = 0xFF) ∧ slotEntry page m' = none := by
  obtain ⟨n, rfl⟩ := h
  have hkeep : ∀ i, page ≤ i → i < page + 20 → m.write 0 (data.take n) i = 0xFF := by
    intro i hi hlt
    rw [Memory.write_after _ _ (by rw [List.length_take]; omega)]
    exact herased i hi hlt
  exact ⟨hkeep, slotEntry_erased hpage hkeep⟩

/-- **A commit page that is written in part** leaves the record, or completes the new one. -/
theorem slotEntry_write_commit {zone : ℕ} {commit : List UInt8}
    (h : (Op.write zone page commit).Progress page m m') :
    m'.slice 0 page = m.slice 0 page ∧
      (slotEntry page m' = slotEntry page m ∨ slotEntry page m' = none ∨
        slotEntry page m' = slotEntry page ((Op.write zone page commit).apply m)) := by
  obtain ⟨n, hm⟩ := h.torn
  have hdata : m'.slice 0 page = m.slice 0 page := by
    rw [hm]
    exact Memory.slice_write_disjoint _ _ (Or.inl (by omega))
  have hdata' : ((Op.write zone page commit).apply m).slice 0 page = m.slice 0 page :=
    Memory.slice_write_disjoint _ _ (Or.inl (by omega))
  have hhead := congrArg (List.take 32) hdata
  have hhead' := congrArg (List.take 32) hdata'
  rw [take_slice _ _ hpage, take_slice _ _ hpage] at hhead hhead'
  refine ⟨hdata, ?_⟩
  by_cases hentry : dataValid (m'.slice 0 page) 1 ∧ committed (m'.slice 0 page) (m'.slice page page)
  · rcases h.commit hentry.2.2.2.2.2 with hcommit | hcommit
    · exact Or.inl (slotEntry_congr hpage hhead hcommit)
    · exact Or.inr (Or.inr (slotEntry_congr hpage (hhead.trans hhead'.symm) hcommit))
  · exact Or.inr (Or.inl (if_neg hentry))

end torn

end Atoman.DemoStorage
