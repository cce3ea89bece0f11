import Atoman.Lib.Transition
import Atoman.Shell.Payload
import Atoman.Shell.RequestedNumber

/-!
# Values within their limits

The text write clamps what has already become a value of the type; the remote write takes the
low bytes of its 32-bit data and limits and clamps a copy. Each write of an integer is kept with
what it asked for and what it left behind.
-/

namespace Atoman.Shell
open Comm (Packet)
open Lib (Memory Transition)
open Lib.ByteInteger (load store wrap)

/-- Two objects have no byte in common. -/
def Apart (a n b k : ℕ) : Prop := a + n ≤ b ∨ b + k ≤ a

/-- The limits are objects of their own, as the registration macro defines them, and no
callback stores to them. -/
structure LimitedRegistry extends Registry where
  apart_value : ∀ p ∈ items, ∀ q ∈ items, Apart p.p_var p.type.size q.p_max q.type.size ∧
    Apart p.p_var p.type.size q.p_min q.type.size
  apart_limit : ∀ p ∈ items, ∀ q ∈ items, Apart p.p_max p.type.size q.p_min q.type.size
  apart_other : ∀ p ∈ items, ∀ q ∈ items, p ≠ q → Apart p.p_max p.type.size q.p_max q.type.size ∧
    Apart p.p_min p.type.size q.p_min q.type.size
  func_limits : ∀ p ∈ items, ∀ q ∈ items, ∀ m,
    (p.call m).slice q.p_max q.type.size = m.slice q.p_max q.type.size ∧
    (p.call m).slice q.p_min q.type.size = m.slice q.p_min q.type.size

/-- What a write asked for, and the value and the limits it left. -/
structure Record where
  requested : ℤ
  stored : ℤ
  lower : ℤ
  upper : ℤ
deriving DecidableEq

/-- The value is within the limits. -/
def Record.Within (r : Record) : Prop := r.lower ≤ r.stored ∧ r.stored ≤ r.upper

/-- The value is the requested one, clamped. -/
def Record.Exact (r : Record) : Prop := r.stored = limit r.upper r.lower r.requested

instance (r : Record) : Decidable r.Within := inferInstanceAs (Decidable (_ ∧ _))

instance (r : Record) : Decidable r.Exact := inferInstanceAs (Decidable (_ = _))

/-- What is left when the value has been stored, in front of the callback. -/
def Item.record (p : Item) (n : ℤ) (stored : Memory UInt8) : List Record :=
  if p.type.IsInteger then [⟨n, p.value stored, p.lower stored, p.upper stored⟩] else []

/-- The memory and the writes so far. -/
structure Writes where
  memory : Memory UInt8
  log : List Record

/-- A text for an item, or a frame. -/
inductive Write
  | text (p : Item) (value_str : List Char)
  | remote (p_pack : Packet) (p_data : Memory UInt8) (my_printf : ℕ) (shell : Shell)

/-- The variable of a frame and the memory that it leaves. -/
def remoteStore (items : List Item) (p_data m : Memory UInt8) : Option (Item × Memory UInt8) :=
  (shellFind items p_data 13 (p_data 0)).map fun p =>
    (p.1, p.1.store (p_data.slice 1 4) (p_data.slice 5 4) (p_data.slice 9 4) m)

/-- A field of a frame: all of its 32 bits, with the sign of the variable. -/
def Item.field (p : Item) (p_data : Memory UInt8) (off : ℕ) : ℤ :=
  load p.type.signed (p_data.slice off 4)

/-- A number is a value of the type. -/
def ShellType.Holds (type : ShellType) (n : ℤ) : Prop :=
  Lib.ByteInteger.least type.signed type.size ≤ n ∧ n < Lib.ByteInteger.bound type.signed type.size

instance (type : ShellType) (n : ℤ) : Decidable (type.Holds n) :=
  inferInstanceAs (Decidable (_ ∧ _))

/-- A write is carried out. -/
inductive Step {F : Type} (T : Target F) (items : List Item) : Write → Writes → Writes → Prop
  | text {p : Item} {value_str : List Char} {s : Writes} {fuel : ℕ} {stored : Memory UInt8}
      (hp : p ∈ items) (h : storeText T fuel p value_str s.memory = some stored) :
      Step T items (.text p value_str) s
        ⟨p.call stored, s.log ++ (requested value_str).toList.flatMap fun n => p.record n stored⟩
  | remote {p_pack : Packet} {p_data : Memory UInt8} {my_printf : ℕ} {shell : Shell} {s : Writes} :
      Step T items (.remote p_pack p_data my_printf shell) s
        ⟨(writeDataAct items p_pack p_data my_printf { shell with memory := s.memory }).1.memory,
          s.log ++ (remoteStore items p_data s.memory).toList.flatMap fun r =>
            r.1.record (r.1.field p_data 1) r.2⟩

/-- The new limits are in order. -/
def Write.Ordered (items : List Item) : Write → Prop
  | .text _ _ => True
  | .remote _ p_data _ _ => ∀ p i, shellFind items p_data 13 (p_data 0) = some (p, i) →
      p.field p_data 9 ≤ p.field p_data 5

/-- What a frame asks of a variable: its data and its limits are values of the type, and the
data lies between the limits. -/
structure Item.Between (p : Item) (p_data : Memory UInt8) : Prop where
  data_holds : p.type.Holds (p.field p_data 1)
  max_holds : p.type.Holds (p.field p_data 5)
  min_holds : p.type.Holds (p.field p_data 9)
  min_le : p.field p_data 9 ≤ p.field p_data 1
  le_max : p.field p_data 1 ≤ p.field p_data 5

/-- A text asks for an integer that fits; a frame carries a value between its limits. -/
def Write.Fits (items : List Item) : Write → Prop
  | .text p value_str => p.type.IsInteger →
      ∀ n, requested value_str = some n → Shell.Fits p.type value_str n
  | .remote _ p_data _ _ => ∀ p i, shellFind items p_data 13 (p_data 0) = some (p, i) →
      p.type.IsInteger → p.Between p_data

/-- The runs of such writes, from variables within their limits. -/
def writeRuns {F : Type} (T : Target F) (items : List Item) (ok : Write → Prop) :
    Transition Writes where
  init := fun s => s.log = [] ∧ ∀ p ∈ items, p.type.IsInteger →
    p.lower s.memory ≤ p.value s.memory ∧ p.value s.memory ≤ p.upper s.memory
  next := fun s s' => ∃ w, ok w ∧ Step T items w s s'

section
variable {R : LimitedRegistry} {p q : Item} {m : Memory UInt8}

/-! ## Stores -/

theorem slice_write_apart {off n a k : ℕ} {data : List UInt8} (m : Memory UInt8)
    (hdata : data.length = n)
    (h : Apart off n a k) : (m.write off data).slice a k = m.slice a k :=
  Memory.slice_write_disjoint m data (hdata ▸ h.symm)

theorem Apart.symm {a n b k : ℕ} (h : Apart a n b k) : Apart b k a n := Or.symm h

/-- A store to a variable leaves all limits. -/
theorem LimitedRegistry.limits_write (R : LimitedRegistry) (hp : p ∈ R.items) (hq : q ∈ R.items)
    {data : List UInt8} (hdata : data.length = p.type.size) (m : Memory UInt8) :
    (m.write p.p_var data).slice q.p_max q.type.size = m.slice q.p_max q.type.size ∧
      (m.write p.p_var data).slice q.p_min q.type.size = m.slice q.p_min q.type.size :=
  ⟨slice_write_apart m hdata (R.apart_value p hp q hq).1,
    slice_write_apart m hdata (R.apart_value p hp q hq).2⟩

theorem upper_congr {m m' : Memory UInt8}
    (h : m'.slice q.p_max q.type.size = m.slice q.p_max q.type.size) :
    q.upper m' = q.upper m := by
  unfold Item.upper Item.read
  rw [h]

theorem lower_congr {m m' : Memory UInt8}
    (h : m'.slice q.p_min q.type.size = m.slice q.p_min q.type.size) :
    q.lower m' = q.lower m := by
  unfold Item.lower Item.read
  rw [h]

/-- A value that was stored in a variable is read back. -/
theorem value_write (p : Item) (n : ℤ) (m : Memory UInt8) :
    p.value (m.write p.p_var (store p.type.size n)) = wrap p.type.signed p.type.size n := by
  unfold Item.value Item.read
  rw [Memory.slice_write_of_length (Lib.ByteInteger.length_store _ _), Lib.ByteInteger.load_store]

theorem read_fits (p : Item) (object : ℕ) (m : Memory UInt8) :
    Lib.ByteInteger.least p.type.signed p.type.size ≤ p.read object m ∧
      p.read object m < Lib.ByteInteger.bound p.type.signed p.type.size := by
  have hfits := Lib.ByteInteger.wrap_fits p.type.signed (m.slice object p.type.size).length
    (Lib.ByteInteger.ofBytes (m.slice object p.type.size))
  rw [Memory.length_slice] at hfits
  unfold Item.read load
  rw [Memory.length_slice]
  exact hfits

/-- A clamp stays between ordered limits. -/
theorem limit_within {upper lower : ℤ} (h : lower ≤ upper) (n : ℤ) :
    lower ≤ limit upper lower n ∧ limit upper lower n ≤ upper := by
  unfold limit
  split
  · exact ⟨h, le_rfl⟩
  split
  · exact ⟨le_rfl, h⟩
  · constructor <;> omega

/-- **A text write** leaves the clamped value of the type. -/
theorem value_storeInteger {p : Item} {m : Memory UInt8} (horder : p.lower m ≤ p.upper m)
    (intval : ℤ) :
    p.value (storeInteger p intval m) =
      limit (p.upper m) (p.lower m) (wrap p.type.signed p.type.size intval) := by
  obtain ⟨hlo, hhi⟩ := limit_within horder (wrap p.type.signed p.type.size intval)
  unfold storeInteger
  rw [value_write]
  exact Lib.ByteInteger.wrap_of_fits (Int.le_trans (read_fits p p.p_min m).1 hlo)
    (Int.lt_of_le_of_lt hhi (read_fits p p.p_max m).2)

/-- The low bytes of a field are what the variable takes of it. -/
theorem load_field (p : Item) (p_data : Memory UInt8) (off : ℕ) :
    load p.type.signed ((p_data.slice off 4).take p.type.size) =
      wrap p.type.signed p.type.size (p.field p_data off) :=
  Lib.ByteInteger.load_take _
    (Nat.le_trans p.type.size_le (Nat.le_of_eq (Memory.length_slice _ _ _).symm))

/-- **A remote write** leaves the fields of the frame, cut to the type and unclamped. -/
theorem store_spec (hp : p ∈ R.items) (p_data m : Memory UInt8) :
    p.value (p.store (p_data.slice 1 4) (p_data.slice 5 4) (p_data.slice 9 4) m) =
      wrap p.type.signed p.type.size (p.field p_data 1) ∧
    p.upper (p.store (p_data.slice 1 4) (p_data.slice 5 4) (p_data.slice 9 4) m) =
      wrap p.type.signed p.type.size (p.field p_data 5) ∧
    p.lower (p.store (p_data.slice 1 4) (p_data.slice 5 4) (p_data.slice 9 4) m) =
      wrap p.type.signed p.type.size (p.field p_data 9) ∧
    ∀ q ∈ R.items, q ≠ p →
      q.upper (p.store (p_data.slice 1 4) (p_data.slice 5 4) (p_data.slice 9 4) m) = q.upper m ∧
      q.lower (p.store (p_data.slice 1 4) (p_data.slice 5 4) (p_data.slice 9 4) m) = q.lower m := by
  have hlen (off : ℕ) : ((p_data.slice off 4).take p.type.size).length = p.type.size := by
    rw [List.length_take, Memory.length_slice, Nat.min_eq_left p.type.size_le]
  obtain ⟨hvmax, hvmin⟩ := R.apart_value p hp p hp
  have hlimit := R.apart_limit p hp p hp
  unfold Item.store
  refine ⟨?_, ?_, ?_, fun q hq hne => ⟨upper_congr ?_, lower_congr ?_⟩⟩
  · unfold Item.value Item.read
    rw [slice_write_apart _ (hlen 9) hvmin.symm, slice_write_apart _ (hlen 5) hvmax.symm,
      Memory.slice_write_of_length (hlen 1)]
    exact load_field p p_data 1
  · unfold Item.upper Item.read
    rw [slice_write_apart _ (hlen 9) hlimit.symm, Memory.slice_write_of_length (hlen 5)]
    exact load_field p p_data 5
  · unfold Item.lower Item.read
    rw [Memory.slice_write_of_length (hlen 9)]
    exact load_field p p_data 9
  · rw [slice_write_apart _ (hlen 9) (R.apart_limit q hq p hp).symm,
      slice_write_apart _ (hlen 5) (R.apart_other p hp q hq hne.symm).1,
      (R.limits_write hp hq (hlen 1) m).1]
  · rw [slice_write_apart _ (hlen 9) (R.apart_other p hp q hq hne.symm).2,
      slice_write_apart _ (hlen 5) (R.apart_limit p hp q hq),
      (R.limits_write hp hq (hlen 1) m).2]

/-! ## Runs -/

/-- Between the writes: the limits are in order, and every write has kept its promise. -/
structure Writes.Sound (items : List Item) (s : Writes) : Prop where
  ordered : ∀ p ∈ items, p.type.IsInteger → p.lower s.memory ≤ p.upper s.memory
  kept : ∀ r ∈ s.log, r.Within ∧ r.Exact

/-- A text write stores a parsed integer, or leaves the limits and asks for nothing. -/
theorem storeText_cases {F : Type} (T : Target F) {value_str : List Char} {fuel : ℕ}
    {stored : Memory UInt8} (hp : p ∈ R.items) (h : storeText T fuel p value_str m = some stored) :
    (p.type.IsInteger ∧
      ∃ intval, parseInteger T fuel value_str = some (some intval) ∧
      stored = storeInteger p intval m) ∨
    ((p.type.IsInteger → requested value_str = none) ∧
      ∀ q ∈ R.items, q.upper stored = q.upper m ∧ q.lower stored = q.lower m) := by
  unfold storeText at h
  split at h
  · next hcmd =>
    obtain rfl := Option.some.inj h
    exact Or.inr ⟨fun hint => absurd hcmd hint.2, fun _ _ => ⟨rfl, rfl⟩⟩
  · next hfp32 =>
    refine Or.inr ⟨fun hint => absurd hfp32 hint.1, fun q hq => ?_⟩
    split at h
    · split at h
      · exact nomatch h
      · obtain rfl := Option.some.inj h
        have hsize (bits : UInt32) : (Lib.u32Le bits).length = p.type.size := by
          rw [hfp32]
          rfl
        obtain ⟨hmax, hmin⟩ := R.limits_write hp hq (hsize _) m
        exact ⟨upper_congr hmax, lower_congr hmin⟩
    · obtain rfl := Option.some.inj h
      exact ⟨rfl, rfl⟩
  · next hcmd hfp32 =>
    split at h
    · exact nomatch h
    · next hparse =>
      obtain rfl := Option.some.inj h
      refine Or.inr ⟨fun _ => ?_, fun _ _ => ⟨rfl, rfl⟩⟩
      unfold parseInteger at hparse
      unfold requested
      split at hparse
      · exact nomatch hparse
      next hhex =>
      split at hparse
      · exact nomatch hparse
      next hbinary =>
      split at hparse
      · split at hparse
        · exact nomatch hparse
        · exact nomatch hparse
      next hnumber =>
      rw [if_neg hhex, if_neg hbinary, if_neg hnumber]
    · next intval hparse =>
      exact Or.inl ⟨⟨hfp32, hcmd⟩, intval, hparse, (Option.some.inj h).symm⟩

theorem Writes.Sound.text {F : Type} {T : Target F} {s : Writes} (h : s.Sound R.items)
    {value_str : List Char} {fuel : ℕ} {stored : Memory UInt8} (hp : p ∈ R.items)
    (hfits : p.type.IsInteger → ∀ n, requested value_str = some n → Fits p.type value_str n)
    (hstore : storeText T fuel p value_str s.memory = some stored) :
    Writes.Sound R.items
      ⟨p.call stored,
        s.log ++ (requested value_str).toList.flatMap fun n => p.record n stored⟩ := by
  have hcall (q : Item) (hq : q ∈ R.items) :
      q.upper (p.call stored) = q.upper stored ∧ q.lower (p.call stored) = q.lower stored :=
    ⟨upper_congr (R.func_limits p hp q hq stored).1, lower_congr (R.func_limits p hp q hq stored).2⟩
  rcases storeText_cases T hp hstore with ⟨hint, intval, hparse, rfl⟩ | ⟨hnone, hkeep⟩
  · obtain ⟨n, hn, hsame⟩ := requested_of_parse T hparse
    obtain rfl := hsame p.type (hfits hint n hn)
    have hwrap :=
      Lib.ByteInteger.wrap_of_fits (hfits hint intval hn).least (hfits hint intval hn).bound
    have hlimits (q : Item) (hq : q ∈ R.items) :
        q.upper (storeInteger p intval s.memory) = q.upper s.memory ∧
        q.lower (storeInteger p intval s.memory) = q.lower s.memory := by
      obtain ⟨hmax, hmin⟩ :=
        R.limits_write hp hq (Lib.ByteInteger.length_store p.type.size _) s.memory
      exact ⟨upper_congr hmax, lower_congr hmin⟩
    refine ⟨fun q hq hint => ?_, fun r hr => ?_⟩
    · rw [(hcall q hq).1, (hcall q hq).2, (hlimits q hq).1, (hlimits q hq).2]
      exact h.ordered q hq hint
    · rcases List.mem_append.mp hr with hr | hr
      · exact h.kept r hr
      rw [hn] at hr
      have horder := h.ordered p hp hint
      have hvalue := value_storeInteger horder intval
      rw [hwrap] at hvalue
      obtain rfl : r = _ := by simpa [Item.record, hint] using hr
      unfold Record.Within Record.Exact
      dsimp only
      rw [hvalue, (hlimits p hp).1, (hlimits p hp).2]
      exact ⟨limit_within horder intval, rfl⟩
  · refine ⟨fun q hq hint => ?_, fun r hr => ?_⟩
    · rw [(hcall q hq).1, (hcall q hq).2, (hkeep q hq).1, (hkeep q hq).2]
      exact h.ordered q hq hint
    · rcases List.mem_append.mp hr with hr | hr
      · exact h.kept r hr
      obtain ⟨n, hn, hr⟩ := List.mem_flatMap.mp hr
      unfold Item.record at hr
      split at hr
      · next hint =>
        rw [hnone hint] at hn
        exact nomatch hn
      · exact absurd hr List.not_mem_nil

theorem Writes.Sound.remote {s : Writes} (h : s.Sound R.items) {p_pack : Packet}
    {p_data : Memory UInt8}
    {my_printf : ℕ} {shell : Shell}
    (hfits : ∀ p i, shellFind R.items p_data 13 (p_data 0) = some (p, i) →
      p.type.IsInteger → p.Between p_data) :
    Writes.Sound R.items
      ⟨(writeDataAct R.items p_pack p_data my_printf { shell with memory := s.memory }).1.memory,
        s.log ++ (remoteStore R.items p_data s.memory).toList.flatMap fun r =>
          r.1.record (r.1.field p_data 1) r.2⟩ := by
  unfold writeDataAct remoteStore
  cases hfind : shellFind R.items p_data 13 (p_data 0) with
  | none =>
    refine ⟨h.ordered, fun r hr => h.kept r ?_⟩
    simpa using hr
  | some found =>
    obtain ⟨p, i⟩ := found
    have hp : p ∈ R.items := mem_of_shellFind hfind
    obtain ⟨hvalue, hupper, hlower, hother⟩ := store_spec hp p_data s.memory
    -- data and limits that are values of the type are kept as they are
    have hkept (hint : p.type.IsInteger) :=
      have hbetween := hfits p i hfind hint
      And.intro (Lib.ByteInteger.wrap_of_fits hbetween.data_holds.1 hbetween.data_holds.2)
        (And.intro (Lib.ByteInteger.wrap_of_fits hbetween.max_holds.1 hbetween.max_holds.2)
          (Lib.ByteInteger.wrap_of_fits hbetween.min_holds.1 hbetween.min_holds.2))
    refine ⟨fun q hq hint => ?_, fun r hr => ?_⟩
    · dsimp only
      rw [upper_congr (R.func_limits p hp q hq _).1, lower_congr (R.func_limits p hp q hq _).2]
      by_cases heq : q = p
      · rw [heq] at hint
        obtain ⟨-, hmax, hmin⟩ := hkept hint
        rw [heq, hupper, hlower, hmax, hmin]
        exact Int.le_trans (hfits p i hfind hint).min_le (hfits p i hfind hint).le_max
      · rw [(hother q hq heq).1, (hother q hq heq).2]
        exact h.ordered q hq hint
    · rcases List.mem_append.mp hr with hr | hr
      · exact h.kept r hr
      have hr : r ∈ p.record (p.field p_data 1)
          (p.store (p_data.slice 1 4) (p_data.slice 5 4) (p_data.slice 9 4) s.memory) := by
        simpa using hr
      unfold Item.record at hr
      split at hr
      · next hint =>
        have hlo := (hfits p i hfind hint).min_le
        have hhi := (hfits p i hfind hint).le_max
        obtain ⟨hdata, hmax, hmin⟩ := hkept hint
        rw [List.mem_singleton.mp hr]
        unfold Record.Within Record.Exact limit
        dsimp only
        rw [hvalue, hupper, hlower, hdata, hmax, hmin, if_neg (by omega), if_neg (by omega)]
        exact ⟨⟨hlo, hhi⟩, rfl⟩
      · exact absurd hr List.not_mem_nil

/-- **Within the limits**: where every text for an integer variable asks for an integer that fits,
and every frame for one carries values of its type with the data between the limits, each write
leaves the requested integer, clamped, within the limits. -/
theorem shell_writes_within_limits (R : LimitedRegistry) {F : Type} (T : Target F) {s : Writes}
    (h : (writeRuns T R.items (Write.Fits R.items)).Reachable s) :
    ∀ r ∈ s.log, r.Within ∧ r.Exact := by
  refine (h.invariant (P := Writes.Sound R.items) (fun s hs => ⟨fun p hp hint => ?_, ?_⟩)
    (fun s t hs ht => ?_)).kept
  · exact Int.le_trans (hs.2 p hp hint).1 (hs.2 p hp hint).2
  · rw [hs.1]
    exact fun _ hr => absurd hr List.not_mem_nil
  · obtain ⟨w, hok, hstep⟩ := ht
    cases hstep with
    | text hp hstore => exact hs.text hp hok hstore
    | remote => exact hs.remote hok

end

/-! ## A byte variable -/

/-- One variable. -/
def demoVariable : Item := ⟨[103], 100, .uint8, 104, 108, none, demoName_le⟩

/-- Its value and its least are 0, its greatest is 100. -/
def demoWrites : Writes := ⟨fun a => if a = 104 then 100 else 0, []⟩

def demoLimited : LimitedRegistry where
  items := [demoVariable]
  func_confined := fun _ hin => by
    rw [List.mem_singleton.mp hin]
    exact Memory.confined_id _
  apart_value := fun p hp q hq => by
    rw [List.mem_singleton.mp hp, List.mem_singleton.mp hq]
    exact ⟨Or.inl (by decide), Or.inl (by decide)⟩
  apart_limit := fun p hp q hq => by
    rw [List.mem_singleton.mp hp, List.mem_singleton.mp hq]
    exact Or.inl (by decide)
  apart_other := fun p hp q hq hne => absurd
    ((List.mem_singleton.mp hp).trans (List.mem_singleton.mp hq).symm) hne
  func_limits := fun p hp q _ m => by
    rw [List.mem_singleton.mp hp]
    exact ⟨rfl, rfl⟩

theorem demoWrites_reachable (ok : Write → Prop) :
    (writeRuns singleTarget demoLimited.items ok).Reachable demoWrites := by
  refine .start ⟨rfl, fun p hp _ => ?_⟩
  rw [List.mem_singleton.mp hp]
  decide +kernel

/-- A frame with a value, and with new limits from 0 to 100. -/
def demoFrame (value : UInt32) : Memory UInt8 := fun i =>
  (1 :: Lib.u32Le value ++ [100, 0, 0, 0, 0, 0, 0, 0, 103]).getD i 0

theorem demoFrame_find (value : UInt32) {p : Item} {i : ℕ}
    (h : shellFind demoLimited.items (demoFrame value) 13 (demoFrame value 0) = some (p, i)) :
    p = demoVariable := List.mem_singleton.mp (mem_of_shellFind h)

/-- The frame with the value 50 asks for nothing that a byte cannot hold. -/
theorem demoFrame_between : demoVariable.Between (demoFrame 50) :=
  ⟨by decide +kernel, by decide +kernel, by decide +kernel, by decide +kernel, by decide +kernel⟩

/-- The text and the frame that the run writes. -/
theorem demoWrites_within : ∃ s : Writes, s.log.map Record.stored = [42, 50] ∧
    ∀ r ∈ s.log, r.Within ∧ r.Exact := by
  have hparse : parseInteger singleTarget 4 ['4', '2'] = some (some 42) := by decide +kernel
  have hrequested : requested ['4', '2'] = some 42 := by decide +kernel
  have hstore : storeText singleTarget 4 demoVariable ['4', '2'] demoWrites.memory =
      some (storeInteger demoVariable 42 demoWrites.memory) := by
    simp only [storeText, demoVariable, hparse]
  have hfits : Fits demoVariable.type ['4', '2'] 42 :=
    ⟨by decide, by decide, by decide, by decide, fun _ => ⟨42, [], by decide +kernel⟩⟩
  have htext := Lib.Transition.Reachable.step (demoWrites_reachable (Write.Fits demoLimited.items))
    ⟨.text demoVariable ['4', '2'],
      fun _ n hn => Option.some.inj (hrequested.symm.trans hn) ▸ hfits,
        .text List.mem_cons_self hstore⟩
  have hremote := Lib.Transition.Reachable.step htext
    ⟨.remote (demoPacket 14) (demoFrame 50) 0 (demoContext []).shell, fun p i hfind _ => by
      rw [demoFrame_find 50 hfind]
      exact demoFrame_between, .remote⟩
  exact ⟨_, by decide +kernel, shell_writes_within_limits demoLimited singleTarget hremote⟩

/-- A frame with the value 200 leaves it above the limit that it brings, a frame with the value 300
leaves 44, and the text `0x12c` becomes 44 before it is clamped. -/
theorem writes_leave_limits :
    (¬ ∀ s : Writes,
      (writeRuns singleTarget demoLimited.items (Write.Ordered demoLimited.items)).Reachable s →
      ∀ r ∈ s.log, r.Within) ∧
    (¬ ∀ s : Writes,
      (writeRuns singleTarget demoLimited.items (Write.Ordered demoLimited.items)).Reachable s →
      ∀ r ∈ s.log, r.Exact) ∧
    ∃ s : Writes,
    (writeRuns singleTarget demoLimited.items (Write.Ordered demoLimited.items)).Reachable s ∧
      s.log = [⟨300, 44, 0, 100⟩] := by
  have hstart := demoWrites_reachable (Write.Ordered demoLimited.items)
  have hstore : storeText singleTarget 0 demoVariable ['0', 'x', '1', '2', 'c'] demoWrites.memory =
      some (storeInteger demoVariable 300 demoWrites.memory) := rfl
  have hframe (value : UInt32) (hordered : demoVariable.field (demoFrame value) 9 ≤
      demoVariable.field (demoFrame value) 5) := Lib.Transition.Reachable.step hstart
    ⟨.remote (demoPacket 14) (demoFrame value) 0 (demoContext []).shell, fun p i hfind => by
      rw [demoFrame_find value hfind]
      exact hordered, .remote⟩
  refine ⟨fun hclaim => ?_, fun hclaim => ?_, ?_⟩
  · exact absurd (hclaim _ (hframe 200 (by decide +kernel))) (by decide +kernel)
  · have hreach := Lib.Transition.Reachable.step hstart
      ⟨.text demoVariable ['0', 'x', '1', '2', 'c'], trivial, .text List.mem_cons_self hstore⟩
    exact absurd (hclaim _ hreach) (by decide +kernel)
  · exact ⟨_, hframe 300 (by decide +kernel), by decide +kernel⟩

end Atoman.Shell
