import Mathlib.Data.List.Nodup

/-!
# A stream with some elements dropped

A ledger lists what has arrived and what of it was dropped. What is kept are the other
arrivals, in their order. An arrival is kept or dropped at once, or kept and dropped later.
-/

namespace Atoman.Lib
variable {α : Type*}

structure Ledger (α : Type*) where
  arrivals : List α
  dropped : List α

namespace Ledger

/-- No element arrives twice, and only arrivals are dropped, each once. -/
structure Valid (l : Ledger α) : Prop where
  nodup : l.arrivals.Nodup
  nodup_dropped : l.dropped.Nodup
  subset : l.dropped ⊆ l.arrivals

theorem valid_empty : Valid (α := α) ⟨[], []⟩ := ⟨List.nodup_nil, List.nodup_nil, fun _ h => h⟩

theorem nodup_concat {l : List α} {x : α} (h : l.Nodup) (hx : x ∉ l) : (l ++ [x]).Nodup :=
  List.nodup_append.mpr ⟨h, List.nodup_singleton x, fun _ hy _ hz => by
    rintro rfl
    exact hx (List.mem_singleton.mp hz ▸ hy)⟩

variable {arrivals dropped : List α} {x : α}

theorem Valid.accept (h : Valid ⟨arrivals, dropped⟩) (hx : x ∉ arrivals) :
    Valid ⟨arrivals ++ [x], dropped⟩ where
  nodup := nodup_concat h.nodup hx
  nodup_dropped := h.nodup_dropped
  subset _ hy := List.mem_append_left _ (h.subset hy)

theorem Valid.reject (h : Valid ⟨arrivals, dropped⟩) (hx : x ∉ arrivals) :
    Valid ⟨arrivals ++ [x], dropped ++ [x]⟩ where
  nodup := nodup_concat h.nodup hx
  nodup_dropped := nodup_concat h.nodup_dropped fun hd => hx (h.subset hd)
  subset := List.append_subset.mpr
    ⟨fun _ hy => List.mem_append_left _ (h.subset hy), List.subset_append_right _ _⟩

variable [DecidableEq α]

/-- The arrivals that were not dropped. -/
def kept (l : Ledger α) : List α := l.arrivals.filter (· ∉ l.dropped)

theorem Valid.nodup_kept {l : Ledger α} (h : l.Valid) : l.kept.Nodup := h.nodup.filter _

theorem Valid.kept_accept (h : Valid ⟨arrivals, dropped⟩) (hx : x ∉ arrivals) :
    kept ⟨arrivals ++ [x], dropped⟩ = kept ⟨arrivals, dropped⟩ ++ [x] := by
  have hd : x ∉ dropped := fun hd => hx (h.subset hd)
  simp [kept, hd]

theorem kept_reject (hx : x ∉ arrivals) :
    kept ⟨arrivals ++ [x], dropped ++ [x]⟩ = kept ⟨arrivals, dropped⟩ := by
  have hsame : arrivals.filter (· ∉ dropped ++ [x]) = arrivals.filter (· ∉ dropped) := by
    refine List.filter_congr fun y hy => ?_
    have hne : y ≠ x := fun he => hx (he ▸ hy)
    simp [hne]
  simp only [kept, List.filter_append, hsame]
  simp

/-- A kept element is dropped after all. -/
theorem Valid.drop (h : Valid ⟨arrivals, dropped⟩) {front rest : List α}
    (hk : kept ⟨arrivals, dropped⟩ = front ++ x :: rest) : Valid ⟨arrivals, dropped ++ [x]⟩ := by
  have hmem : x ∈ kept ⟨arrivals, dropped⟩ := by simp [hk]
  simp only [kept, List.mem_filter, decide_eq_true_eq] at hmem
  exact ⟨h.nodup, nodup_concat h.nodup_dropped hmem.2,
    List.append_subset.mpr ⟨h.subset, by simpa using hmem.1⟩⟩

theorem Valid.kept_drop (h : Valid ⟨arrivals, dropped⟩) {front rest : List α}
    (hk : kept ⟨arrivals, dropped⟩ = front ++ x :: rest) :
    kept ⟨arrivals, dropped ++ [x]⟩ = front ++ rest := by
  have hnodup := h.nodup_kept
  rw [hk, List.nodup_middle, List.nodup_cons] at hnodup
  have hfilter : kept ⟨arrivals, dropped ++ [x]⟩ =
      (kept ⟨arrivals, dropped⟩).filter fun y => y ≠ x := by
    simp only [kept, List.filter_filter]
    refine List.filter_congr fun y _ => ?_
    simp [and_comm]
  have hother (l : List α) (hl : x ∉ l) : l.filter (fun y => decide (y ≠ x)) = l := by
    refine List.filter_eq_self.mpr fun y hy => ?_
    simpa using fun he : y = x => hl (he ▸ hy)
  rw [hfilter, hk, List.filter_append, List.filter_cons_of_neg (by simp)]
  rw [List.mem_append, not_or] at hnodup
  rw [hother front hnodup.1.1, hother rest hnodup.1.2]

end Ledger
end Atoman.Lib
