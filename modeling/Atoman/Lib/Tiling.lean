import Atoman.Lib.Memory
import Mathlib.Algebra.GroupWithZero.Nat
import Mathlib.Data.List.Basic

/-!
# Consecutive ranges

A list of `(offset, length)` pairs tiles `[a, b)` when each range starts where the
one before it ended. Every position of a tiled interval lies in exactly one range,
and a block copied range by range is copied as a whole.
-/

namespace Atoman.Lib

/-- The ranges follow each other from `a` to `b`. -/
def Tiles : ℕ → List (ℕ × ℕ) → ℕ → Prop
  | a, [], b => a = b
  | a, r :: rs, b => r.1 = a ∧ Tiles (a + r.2) rs b

/-- How many of the ranges contain a position. -/
def covering (rs : List (ℕ × ℕ)) (i : ℕ) : ℕ :=
  rs.countP fun r => r.1 ≤ i ∧ i < r.1 + r.2

theorem Tiles.le {a b : ℕ} {rs : List (ℕ × ℕ)} (h : Tiles a rs b) : a ≤ b := by
  induction rs generalizing a with
  | nil => exact Nat.le_of_eq h
  | cons r rs ih => exact Nat.le_trans (Nat.le_add_right _ _) (ih h.2)

/-- A tiling grows at its end. -/
theorem Tiles.append {a b n : ℕ} {rs : List (ℕ × ℕ)} (h : Tiles a rs b) :
    Tiles a (rs ++ [(b, n)]) (b + n) := by
  induction rs generalizing a with
  | nil =>
    obtain rfl : a = b := h
    exact ⟨rfl, rfl⟩
  | cons r rs ih => exact ⟨h.1, ih h.2⟩

theorem covering_cons (r : ℕ × ℕ) (rs : List (ℕ × ℕ)) (i : ℕ) :
    covering (r :: rs) i = covering rs i + if r.1 ≤ i ∧ i < r.1 + r.2 then 1 else 0 := by
  simp [covering, List.countP_cons]

theorem covering_before {a b i : ℕ} {rs : List (ℕ × ℕ)} (h : Tiles a rs b) (hi : i < a) :
    covering rs i = 0 := by
  induction rs generalizing a with
  | nil => rfl
  | cons r rs ih =>
    obtain ⟨rfl, hrest⟩ := h
    rw [covering_cons, ih hrest (by omega), if_neg (by omega)]

/-- **Exactly once.** Each position of a tiled interval is in one range. -/
theorem covering_eq_one {a b i : ℕ} {rs : List (ℕ × ℕ)} (h : Tiles a rs b) (ha : a ≤ i)
    (hb : i < b) : covering rs i = 1 := by
  induction rs generalizing a with
  | nil =>
    obtain rfl : a = b := h
    omega
  | cons r rs ih =>
    obtain ⟨rfl, hrest⟩ := h
    rw [covering_cons]
    by_cases hi : i < r.1 + r.2
    · rw [covering_before hrest hi, if_pos ⟨ha, hi⟩]
    · rw [ih hrest (by omega), if_neg (by omega)]

/-- The ranges lie in the tiled interval. -/
theorem Tiles.range_le {a b : ℕ} {rs : List (ℕ × ℕ)} (h : Tiles a rs b) :
    ∀ r ∈ rs, a ≤ r.1 ∧ r.1 + r.2 ≤ b := by
  induction rs generalizing a with
  | nil => simp
  | cons r rs ih =>
    obtain ⟨rfl, hrest⟩ := h
    intro r' hmem
    rcases List.mem_cons.mp hmem with rfl | hmem
    · exact ⟨Nat.le_refl _, hrest.le⟩
    · obtain ⟨hfrom, hto⟩ := ih hrest r' hmem
      exact ⟨by omega, hto⟩

/-- The ranges of a tiled interval are apart. -/
theorem Tiles.pairwise {a b : ℕ} {rs : List (ℕ × ℕ)} (h : Tiles a rs b) :
    rs.Pairwise fun r r' => r.1 + r.2 ≤ r'.1 := by
  induction rs generalizing a with
  | nil => exact List.Pairwise.nil
  | cons r rs ih =>
    obtain ⟨rfl, hrest⟩ := h
    refine List.pairwise_cons.mpr ⟨fun r' hr' => ?_, ih hrest⟩
    exact (hrest.range_le r' hr').1

/-- The lengths add up. -/
theorem Tiles.sum {a b : ℕ} {rs : List (ℕ × ℕ)} (h : Tiles a rs b) :
    a + (rs.map Prod.snd).sum = b := by
  induction rs generalizing a with
  | nil =>
    obtain rfl : a = b := h
    rfl
  | cons r rs ih =>
    obtain ⟨rfl, hrest⟩ := h
    have := ih hrest
    rw [List.map_cons, List.sum_cons]
    omega

/-- An empty interval is tiled by no ranges. -/
theorem Tiles.eq_nil {a : ℕ} {rs : List (ℕ × ℕ)} (hpos : ∀ r ∈ rs, 0 < r.2) (h : Tiles a rs a) :
    rs = [] := by
  cases rs with
  | nil => rfl
  | cons r rs =>
    obtain ⟨hr, hrest⟩ := h
    have := hrest.le
    have := hpos r List.mem_cons_self
    omega

/-- **Range by range.** Copying the ranges of a tiled interval, each from its place in
`g` to its place in `m`, copies the interval. -/
theorem Tiles.foldl_copy {α : Type*} {base a b : ℕ} {rs : List (ℕ × ℕ)} (h : Tiles a rs b)
    (hbase : base ≤ a) (g m : Memory α) (s t : ℕ) :
    rs.foldl (fun m r => m.write (t + (r.1 - base)) (g.slice (s + (r.1 - base)) r.2)) m =
      m.write (t + (a - base)) (g.slice (s + (a - base)) (b - a)) := by
  induction rs generalizing a m with
  | nil =>
    obtain rfl : a = b := h
    simp
  | cons r rs ih =>
    obtain ⟨rfl, hrest⟩ := h
    have hle := hrest.le
    have hlen : b - r.1 = r.2 + (b - (r.1 + r.2)) := by omega
    have hstep (n : ℕ) : n + (r.1 + r.2 - base) = n + (r.1 - base) + r.2 := by omega
    rw [List.foldl_cons, ih hrest (by omega), hlen, Memory.slice_append, Memory.write_append,
      Memory.length_slice, hstep, hstep]

end Atoman.Lib
