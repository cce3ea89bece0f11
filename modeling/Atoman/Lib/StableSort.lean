import Mathlib.Data.List.Basic
import Mathlib.Order.Lattice

/-!
# Stable sorting by insertion

A list is sorted by a key, and elements with one key stay in the order in which they
came. Sorting is done by insertion behind the last element whose key is not greater.
-/

namespace Atoman.Lib

variable {α κ : Type*} [LinearOrder κ] {key : α → κ} {xs ys front back : List α} {a : α}

/-- `ys` has the elements of `xs`, sorted by their keys; those of one key stay in order. -/
structure StableSort (key : α → κ) (xs ys : List α) : Prop where
  sorted : ys.Pairwise fun a b => key a ≤ key b
  perm : ys.Perm xs
  stable : ∀ k, ys.filter (fun a => key a = k) = xs.filter (fun a => key a = k)

namespace StableSort

theorem nil : StableSort key [] [] := ⟨.nil, .nil, fun _ => rfl⟩

/-- **Insertion** between the keys that are not greater and those that are. -/
theorem insert (h : StableSort key xs (front ++ back)) (hfront : ∀ b ∈ front, key b ≤ key a)
    (hback : ∀ b ∈ back, key a < key b) : StableSort key (xs ++ [a]) (front ++ a :: back) := by
  obtain ⟨hsorted, hperm, hstable⟩ := h
  obtain ⟨hsf, hsb, hcross⟩ := List.pairwise_append.mp hsorted
  refine ⟨List.pairwise_append.mpr ⟨hsf, List.pairwise_cons.mpr ⟨fun b hb => ?_, hsb⟩,
    fun b hb c hc => ?_⟩, ?_, fun k => ?_⟩
  · exact (hback b hb).le
  · rcases List.mem_cons.mp hc with rfl | hc
    · exact hfront b hb
    · exact hcross b hb c hc
  · refine List.perm_middle.trans ((hperm.cons a).trans ?_)
    exact (List.perm_append_singleton a xs).symm
  · have hk := hstable k
    simp only [List.filter_append, List.filter_cons, List.filter_nil] at hk ⊢
    by_cases heq : key a = k
    · -- behind it there is no element with its key
      have hnone : back.filter (fun b => key b = k) = [] := by
        refine List.filter_eq_nil_iff.mpr fun b hb => ?_
        have := (hback b hb).ne
        rw [heq] at this
        simpa using this.symm
      rw [hnone, List.append_nil] at hk
      simp [heq, hk, hnone]
    · simp [heq, hk]

theorem mem_iff (h : StableSort key xs ys) : a ∈ ys ↔ a ∈ xs := h.perm.mem_iff

/-- Equal keys give the same sort. -/
theorem congr {key' : α → κ} (h : StableSort key xs ys) (hkey : ∀ a ∈ xs, key' a = key a) :
    StableSort key' xs ys := by
  have hys : ∀ a ∈ ys, key' a = key a := fun a ha => hkey a (h.mem_iff.mp ha)
  refine ⟨h.sorted.imp_of_mem fun ha hb hle => ?_, h.perm, fun k => ?_⟩
  · rw [hys _ ha, hys _ hb]
    exact hle
  · rw [List.filter_congr (q := fun a => key a = k) fun a ha => by rw [hys a ha],
      List.filter_congr (q := fun a => key a = k) (l := xs) fun a ha => by rw [hkey a ha]]
    exact h.stable k

end StableSort
end Atoman.Lib
