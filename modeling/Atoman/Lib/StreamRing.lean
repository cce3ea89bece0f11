import Atoman.Lib.Memory
import Atoman.Lib.SpanRing

/-!
# The tail of a stream in a ring

A stream is written around a ring of `n` cells, each element to the cell of its number modulo
`n`. The ring retains the elements from `lo` on, if there are no more than `n` of them.
-/

namespace Atoman.Lib
namespace Memory
variable {α : Type*} {m : Memory α} {n lo off : ℕ} {bytes data : List α}

/-- A block written from `off` on that goes on at cell zero behind the last cell. -/
def wrapWrite (m : Memory α) (n off : ℕ) (data : List α) : Memory α :=
  (m.write off (data.take (n - off))).write 0 (data.drop (n - off))

theorem wrapWrite_at (hoff : off < n) (hlen : data.length ≤ n) {k : ℕ} (hk : k < data.length) :
    m.wrapWrite n off data ((off + k) % n) = data[k] := by
  rcases Nat.lt_or_ge (off + k) n with hin | hwrap
  · have hfirst : k < (data.take (n - off)).length := by rw [List.length_take]; omega
    rw [Nat.mod_eq_of_lt hin, wrapWrite, write_after _ _ (by rw [List.length_drop]; omega),
      write_inside _ _ _ hfirst, List.getElem_take]
  · have hmod : (off + k) % n = 0 + (off + k - n) := by
      rw [Nat.mod_eq_sub_mod hwrap, Nat.mod_eq_of_lt (by omega), Nat.zero_add]
    have hsecond : off + k - n < (data.drop (n - off)).length := by rw [List.length_drop]; omega
    rw [hmod, wrapWrite, write_inside _ _ _ hsecond, List.getElem_drop]
    congr 1
    omega

theorem wrapWrite_of_ne (hoff : off < n) {i : ℕ} (hi : i < n)
    (hne : ∀ k < data.length, (off + k) % n ≠ i) : m.wrapWrite n off data i = m i := by
  have hsecond : (data.drop (n - off)).length ≤ i := by
    by_contra hlt
    rw [List.length_drop] at hlt
    refine hne (n - off + i) (by omega) ?_
    rw [← Nat.add_assoc, Nat.add_sub_cancel' hoff.le, Nat.add_mod_left, Nat.mod_eq_of_lt hi]
  rw [wrapWrite, write_after _ _ (by rwa [Nat.zero_add])]
  rcases Nat.lt_or_ge i off with hlt | hge
  · exact write_before _ _ hlt
  · refine write_after _ _ ?_
    by_contra hlt
    rw [List.length_take] at hlt
    refine hne (i - off) (by omega) ?_
    rw [Nat.add_sub_cancel' hge, Nat.mod_eq_of_lt hi]

/-- The ring holds the elements of the stream from number `lo` on. -/
structure Retains (m : Memory α) (n lo : ℕ) (bytes : List α) : Prop where
  length_le : bytes.length ≤ lo + n
  get : ∀ j (h : j < bytes.length), lo ≤ j → m (j % n) = bytes[j]

theorem retains_nil (m : Memory α) (n : ℕ) : m.Retains n 0 [] :=
  ⟨Nat.zero_le _, fun _ h => absurd h (Nat.not_lt_zero _)⟩

/-- Old elements are given up. -/
theorem Retains.release (h : m.Retains n lo bytes) {lo' : ℕ} (hle : lo ≤ lo') :
    m.Retains n lo' bytes :=
  ⟨h.length_le.trans (Nat.add_le_add_right hle n), fun j hj hlo => h.get j hj (hle.trans hlo)⟩

/-- New elements are written behind the last. -/
theorem Retains.append (h : m.Retains n lo bytes) (hn : 0 < n) (hlo : lo ≤ bytes.length)
    (hroom : bytes.length + data.length ≤ lo + n) :
    (m.wrapWrite n (bytes.length % n) data).Retains n lo (bytes ++ data) := by
  have hoff : bytes.length % n < n := Nat.mod_lt _ hn
  refine ⟨by rw [List.length_append]; exact hroom, fun j hj hjlo => ?_⟩
  rcases Nat.lt_or_ge j bytes.length with hold | hnew
  · rw [List.getElem_append_left hold, ← h.get j hold hjlo]
    refine wrapWrite_of_ne hoff (Nat.mod_lt _ hn) fun k hk heq => ?_
    rw [Nat.mod_add_mod] at heq
    -- both numbers are less than `n` steps behind `lo`
    have hj' : (lo + (j - lo)) % n = (lo + (bytes.length + k - lo)) % n := by
      rw [Nat.add_sub_cancel' hjlo, Nat.add_sub_cancel' (by omega), heq]
    have := add_mod_inj (by omega) (by omega) hj'
    omega
  · obtain ⟨k, rfl⟩ := Nat.exists_eq_add_of_le hnew
    rw [List.length_append] at hj
    have hk : k < data.length := by omega
    rw [List.getElem_append_right hnew, ← Nat.mod_add_mod, wrapWrite_at hoff (by omega) hk]
    congr 1
    omega

/-- A part of the stream, read cell by cell. -/
theorem Retains.slice (h : m.Retains n lo bytes) {j len : ℕ} (hlo : lo ≤ j)
    (hlen : j + len ≤ bytes.length) (hwrap : j % n + len ≤ n) :
    m.slice (j % n) len = (bytes.drop j).take len := by
  refine List.ext_getElem (by simp; omega) fun i hi hi' => ?_
  rw [length_slice] at hi
  have hmod : j % n + i = (j + i) % n := by
    rw [← Nat.mod_add_mod, Nat.mod_eq_of_lt (show j % n + i < n by omega)]
  rw [getElem_slice, hmod, h.get (j + i) (by omega) (by omega), List.getElem_take,
    List.getElem_drop]

/-- The last elements of the stream, read around the ring. -/
theorem Retains.rest (h : m.Retains n lo bytes) {j : ℕ} (hlo : lo ≤ j) :
    (List.range (bytes.length - j)).map (fun i => m ((j + i) % n)) = bytes.drop j := by
  refine List.ext_getElem (by simp) fun i hi _ => ?_
  rw [List.length_map, List.length_range] at hi
  rw [List.getElem_map, List.getElem_range, h.get (j + i) (by omega) (by omega), List.getElem_drop]

theorem wrapWrite_singleton (m : Memory α) (hoff : off < n) (x : α) :
    m.wrapWrite n off [x] = m.write off [x] := by
  obtain ⟨d, hd⟩ := Nat.exists_eq_add_of_lt hoff
  rw [wrapWrite, show n - off = d + 1 by omega]
  simp

end Memory
end Atoman.Lib
