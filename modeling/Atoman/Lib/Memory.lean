import Mathlib.Data.List.Basic
import Mathlib.Data.List.TakeDrop
import Mathlib.Data.Set.Function

/-!
# Cell memories and operations cut short

A memory is a function from cell indices to values. The operations are block
reads and block writes; an operation that stops early has written a prefix of
its data, so `write m off (data.take k)` is every state a power cut can leave
behind. Erasing is writing the erased value, so it needs no rule of its own.

What an operation may depend on is a set of cells: it is confined to them if memories that
agree there agree there afterwards, and every other cell stays as it is. Confined operations
compose. An operation that reads a cell outside tells two such memories apart.
-/

namespace Atoman.Lib

/-- Cells indexed by position. -/
abbrev Memory (α : Type*) := ℕ → α

namespace Memory
variable {α : Type*}

/-- The `len` cells from `off` on. -/
def slice (m : Memory α) (off len : ℕ) : List α :=
  (List.range len).map fun i => m (off + i)

/-- Replace the cells from `off` on by `data`. -/
def write (m : Memory α) (off : ℕ) (data : List α) : Memory α :=
  fun i => if off ≤ i then (data[i - off]?).getD (m i) else m i

@[simp] theorem length_slice (m : Memory α) (off len : ℕ) :
    (m.slice off len).length = len := by simp [slice]

@[simp] theorem getElem_slice (m : Memory α) (off len i : ℕ) (h : i < (m.slice off len).length) :
    (m.slice off len)[i] = m (off + i) := by simp [slice]

@[simp] theorem slice_zero (m : Memory α) (off : ℕ) : m.slice off 0 = [] := rfl

@[simp] theorem write_nil (m : Memory α) (off : ℕ) : m.write off [] = m := by
  funext i; simp [write]

/-- A cell before the written block keeps its value. -/
theorem write_before (m : Memory α) {off i : ℕ} (data : List α) (h : i < off) :
    m.write off data i = m i := by
  simp [write, Nat.not_le.mpr h]

/-- A cell behind the written block keeps its value. -/
theorem write_after (m : Memory α) {off i : ℕ} (data : List α) (h : off + data.length ≤ i) :
    m.write off data i = m i := by
  have hnone : data[i - off]? = none := List.getElem?_eq_none (by omega)
  simp [write, hnone]

theorem write_inside (m : Memory α) (off : ℕ) {i : ℕ} (data : List α) (h : i < data.length) :
    m.write off data (off + i) = data[i] := by
  simp [write, h]

/-- A block can be written cell by cell. -/
theorem write_cons (m : Memory α) (off : ℕ) (x : α) (data : List α) :
    m.write off (x :: data) = (m.write off [x]).write (off + 1) data := by
  funext i
  rcases Nat.lt_trichotomy i off with h | rfl | h
  · rw [write_before _ _ h, write_before _ _ (by omega), write_before _ _ h]
  · rw [write_before _ _ (Nat.lt_succ_self i)]
    simp [write]
  · obtain ⟨d, rfl⟩ := Nat.exists_eq_add_of_lt h
    have hold : m.write off [x] (off + d + 1) = m (off + d + 1) :=
      write_after m [x] (by simp only [List.length_singleton]; omega)
    rw [write, write, hold, if_pos (by omega), if_pos (by omega)]
    congr 1
    rw [show off + d + 1 - off = (off + d + 1 - (off + 1)) + 1 by omega, List.getElem?_cons_succ]

/-- A block can be written in two parts. -/
theorem write_append (m : Memory α) (off : ℕ) (xs ys : List α) :
    m.write off (xs ++ ys) = (m.write off xs).write (off + xs.length) ys := by
  induction xs generalizing m off with
  | nil => simp
  | cons x xs ih =>
    rw [List.cons_append, write_cons, ih, ← write_cons, List.length_cons]
    rw [Nat.add_right_comm, Nat.add_assoc]

/-- Two slices agree when the cells below them do. -/
theorem slice_congr {m n : Memory α} {off len : ℕ}
    (h : ∀ i, off ≤ i → i < off + len → m i = n i) : m.slice off len = n.slice off len := by
  apply List.map_congr_left
  intro i hi
  exact h _ (Nat.le_add_right _ _) (by have := List.mem_range.mp hi; omega)

/-- What was written is what is read back. -/
@[simp] theorem slice_write_self (m : Memory α) (off : ℕ) (data : List α) :
    (m.write off data).slice off data.length = data := by
  apply List.ext_getElem (by simp)
  intro i _ hi
  simp [write_inside m _ data hi]

theorem slice_write_of_length {m : Memory α} {off len : ℕ} {data : List α}
    (h : data.length = len) : (m.write off data).slice off len = data := by
  subst h; exact slice_write_self m off data

/-- A write leaves a slice alone when the two ranges are disjoint. -/
theorem slice_write_disjoint (m : Memory α) {off off' len : ℕ} (data : List α)
    (h : off' + len ≤ off ∨ off + data.length ≤ off') :
    (m.write off data).slice off' len = m.slice off' len := by
  apply slice_congr
  intro i h₁ h₂
  rcases h with h | h
  · exact write_before m data (by omega)
  · exact write_after m data (by omega)

/-- A slice splits at any inner position. -/
theorem slice_append (m : Memory α) (off a b : ℕ) :
    m.slice off (a + b) = m.slice off a ++ m.slice (off + a) b := by
  simp [slice, List.range_add, Nat.add_assoc]

/-- Writing directly behind a slice extends it by the data. -/
theorem slice_write_extend {m : Memory α} {off len : ℕ} {bs : List α} (data : List α)
    (h : m.slice off len = bs) :
    (m.write (off + len) data).slice off (len + data.length) = bs ++ data := by
  rw [slice_append, slice_write_self, slice_write_disjoint m data (Or.inl (Nat.le_refl _)), h]

/-- A slice inside a known one is the corresponding part of it. -/
theorem slice_inside {m : Memory α} {off len : ℕ} {bs : List α} (h : m.slice off len = bs)
    {a n : ℕ} (hn : a + n ≤ len) : m.slice (off + a) n = (bs.drop a).take n := by
  subst h
  apply List.ext_getElem (by simp; omega)
  intro i _ _
  simp [Nat.add_assoc]

theorem slice_prefix {m : Memory α} {off len : ℕ} {bs : List α} (h : m.slice off len = bs)
    {n : ℕ} (hn : n ≤ len) : m.slice off n = bs.take n := by
  simpa using slice_inside h (a := 0) (n := n) (by omega)

/-- The part of a slice a write of a prefix leaves behind: the new data, then the old. -/
theorem slice_write_prefix {m : Memory α} {off len : ℕ} {bs data : List α}
    (h : m.slice off len = bs) (hd : data.length ≤ len) :
    (m.write off data).slice off len = data ++ bs.drop data.length := by
  obtain ⟨d, rfl⟩ := Nat.exists_eq_add_of_le hd
  rw [slice_append, slice_write_self,
    slice_write_disjoint m data (Or.inr (Nat.le_refl _)), slice_inside h (Nat.le_refl _)]
  have hlen : (bs.drop data.length).length = d := by rw [← h]; simp
  rw [List.take_of_length_le (by omega)]

/-- Two memories agree from cell `n` on. -/
def AgreesFrom (n : ℕ) (m m' : Memory α) : Prop := ∀ i, n ≤ i → m i = m' i

theorem AgreesFrom.refl (n : ℕ) (m : Memory α) : AgreesFrom n m m := fun _ _ => rfl

/-- A write that ends below cell `n` changes nothing from there on. -/
theorem write_agreesFrom (m : Memory α) {off n : ℕ} {data : List α} (h : off + data.length ≤ n) :
    AgreesFrom n (m.write off data) m :=
  fun _ hi => write_after m data (Nat.le_trans h hi)

/-! ## Memories that agree on some cells -/

section confined
variable {S : Set ℕ} {m m' : Memory α}

/-- The operation reads and writes the cells of `S` only. -/
structure Confined (S : Set ℕ) (f : Memory α → Memory α) : Prop where
  eqOn : ∀ m m', S.EqOn m m' → S.EqOn (f m) (f m')
  frame : ∀ m, ∀ a ∉ S, f m a = m a

theorem confined_id (S : Set ℕ) : Confined S (id : Memory α → Memory α) :=
  ⟨fun _ _ h => h, fun _ _ _ => rfl⟩

theorem Confined.comp {f g : Memory α → Memory α} (hg : Confined S g) (hf : Confined S f) :
    Confined S (g ∘ f) :=
  ⟨fun m m' h => hg.eqOn _ _ (hf.eqOn m m' h),
    fun m a ha => (hg.frame (f m) a ha).trans (hf.frame m a ha)⟩

/-- A block inside `S` is stored. -/
theorem confined_write {off : ℕ} {data : List α} (h : ∀ i < data.length, off + i ∈ S) :
    Confined S fun m : Memory α => m.write off data := by
  refine ⟨fun m m' heq a ha => ?_, fun m a ha => ?_⟩
  · unfold write
    rw [heq ha]
  · rcases Nat.lt_or_ge a off with hlt | hge
    · exact write_before m data hlt
    · obtain ⟨i, rfl⟩ := Nat.exists_eq_add_of_le hge
      exact write_after m data (Nat.add_le_add_left (Nat.le_of_not_lt fun hi => ha (h i hi)) off)

theorem slice_eqOn (h : S.EqOn m m') {off len : ℕ} (hin : ∀ i < len, off + i ∈ S) :
    m.slice off len = m'.slice off len :=
  List.map_congr_left fun i hi => h (hin i (List.mem_range.mp hi))

/-- Cells of equal slices are equal. -/
theorem eq_of_slice_eq {off len i : ℕ} (h : m.slice off len = m'.slice off len) (hi : i < len) :
    m (off + i) = m' (off + i) :=
  List.map_inj_left.mp h i (List.mem_range.mpr hi)

/-- A cell outside `S` has another value in a memory that agrees on `S`. -/
theorem exists_eqOn_ne [Nontrivial α] (m : Memory α) {a : ℕ} (ha : a ∉ S) :
    ∃ m', S.EqOn m m' ∧ m a ≠ m' a := by
  obtain ⟨x, hx⟩ := exists_ne (m a)
  refine ⟨Function.update m a x, fun b hb => ?_, ?_⟩
  · have hne : b ≠ a := fun heq => ha (heq ▸ hb)
    rw [Function.update_of_ne hne]
  · rw [Function.update_self]
    exact hx.symm

end confined
end Memory
end Atoman.Lib
