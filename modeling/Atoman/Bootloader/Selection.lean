import Atoman.Bootloader.System

/-!
# Which record is the newest

Selection only looks at the two decoded copies. The lemmas name a copy `S` and its
partner `otherCopy S` and cover both orders of the two zones. The last part says
what an erase or a write of a copy leaves when it is cut: an erase keeps the old
record or none, a write over erased cells yields nothing or the whole record.
-/

namespace Atoman.Bootloader
open Lib

/-- One of the two metadata zones. -/
def FlashZone.IsCopy (z : FlashZone) : Prop := z = .metaA ∨ z = .metaB

theorem FlashZone.IsCopy.other (z : FlashZone) : (otherCopy z).IsCopy := by
  unfold otherCopy; split
  · exact Or.inr rfl
  · exact Or.inl rfl

theorem FlashZone.IsCopy.ne_other {z : FlashZone} (h : z.IsCopy) : otherCopy z ≠ z := by
  rcases h with rfl | rfl <;> decide

theorem FlashZone.IsCopy.other_other {z : FlashZone} (h : z.IsCopy) :
    otherCopy (otherCopy z) = z := by
  rcases h with rfl | rfl <;> rfl

namespace Flash
variable {flash : Flash} {S : FlashZone} {r t : Metadata}

theorem copy_of_selected {m : Metadata} {z : FlashZone} (h : flash.selected = some (m, z)) :
    z.IsCopy ∧ flash.copy z = some m := by
  unfold selected metadataSelect at h
  unfold copy
  split at h
  · exact absurd h (by simp)
  · rename_i a ha hb
    simp only [Option.some.injEq, Prod.mk.injEq] at h
    obtain ⟨rfl, rfl⟩ := h
    exact ⟨Or.inl rfl, ha⟩
  · rename_i b ha hb
    simp only [Option.some.injEq, Prod.mk.injEq] at h
    obtain ⟨rfl, rfl⟩ := h
    exact ⟨Or.inr rfl, hb⟩
  · rename_i a b ha hb
    split at h <;> simp only [Option.some.injEq, Prod.mk.injEq] at h <;> obtain ⟨rfl, rfl⟩ := h
    · exact ⟨Or.inr rfl, hb⟩
    · exact ⟨Or.inl rfl, ha⟩

/-- Selection is a function of the two decoded copies. -/
theorem selected_congr {flash' : Flash}
    (h : ∀ z : FlashZone, z.IsCopy → flash'.copy z = flash.copy z) :
    flash'.selected = flash.selected := by
  have ha := h .metaA (Or.inl rfl)
  have hb := h .metaB (Or.inr rfl)
  unfold copy at ha hb
  unfold selected metadataSelect
  rw [ha, hb]

/-- Without a record in the other copy, the source's record is the newest. -/
theorem selected_of_other_none (hS : S.IsCopy) (h : flash.copy (otherCopy S) = none) :
    flash.selected = (flash.copy S).map fun m => (m, S) := by
  unfold selected metadataSelect
  rcases hS with rfl | rfl
  · have hb : metadataDecode ((flash .metaB).slice 0 metadataEncodedSize) = none := h
    unfold copy
    rw [hb]
    cases metadataDecode ((flash .metaA).slice 0 metadataEncodedSize) <;> rfl
  · have ha : metadataDecode ((flash .metaA).slice 0 metadataEncodedSize) = none := h
    unfold copy
    rw [ha]
    cases metadataDecode ((flash .metaB).slice 0 metadataEncodedSize) <;> rfl

/-- Two records: the other copy wins exactly when it is newer, ties going to `metaA`. -/
theorem selected_of_both (hS : S.IsCopy) (hr : flash.copy S = some r)
    (ht : flash.copy (otherCopy S) = some t) :
    flash.selected =
      if (S = .metaA ∧ sequenceIsNewer t.sequence r.sequence)
          ∨ (S = .metaB ∧ ¬ sequenceIsNewer r.sequence t.sequence)
        then some (t, otherCopy S) else some (r, S) := by
  unfold selected metadataSelect
  unfold copy at hr ht
  rcases hS with rfl | rfl
  · rw [show otherCopy .metaA = .metaB from rfl] at ht ⊢
    rw [hr, ht]
    simp
  · rw [show otherCopy .metaB = .metaA from rfl] at ht ⊢
    rw [hr, ht]
    by_cases hn : sequenceIsNewer r.sequence t.sequence <;> simp [hn]

/-- A committed successor beats the record it succeeds. -/
theorem selected_of_successor (hS : S.IsCopy) (hr : flash.copy S = some r)
    (ht : flash.copy (otherCopy S) = some t) (hseq : t.sequence = r.sequence + 1) :
    flash.selected = some (t, otherCopy S) := by
  rw [selected_of_both hS hr ht, hseq, if_pos]
  rcases hS with rfl | rfl
  · exact Or.inl ⟨rfl, sequenceIsNewer_succ _⟩
  · exact Or.inr ⟨rfl, by simp⟩

/-- One record is left when the source holds none. -/
theorem selected_of_source_none (hS : S.IsCopy) (h : flash.copy S = none) :
    flash.selected = (flash.copy (otherCopy S)).map fun m => (m, otherCopy S) :=
  selected_of_other_none (FlashZone.IsCopy.other S) (by rwa [hS.other_other])

/-- Whatever the other copy holds, the newest record is the source's or that one. -/
theorem selected_cases (hS : S.IsCopy) {m : Metadata} {z : FlashZone}
    (h : flash.selected = some (m, z)) :
    flash.copy S = some m ∨ flash.copy (otherCopy S) = some m := by
  obtain ⟨hz, hm⟩ := copy_of_selected h
  rcases hS with rfl | rfl <;> rcases hz with rfl | rfl
  · exact Or.inl hm
  · exact Or.inr hm
  · exact Or.inr hm
  · exact Or.inl hm

theorem selected_ne_none (hS : S.IsCopy) (h : flash.copy S ≠ none) : flash.selected ≠ none := by
  obtain ⟨r, hr⟩ := Option.ne_none_iff_exists'.mp h
  cases ht : flash.copy (otherCopy S) with
  | none => rw [selected_of_other_none hS ht, hr]; simp
  | some t => rw [selected_of_both hS hr ht]; split <;> simp

end Flash

/-! ## Effects of cut operations -/

/-- The region an operation works on. -/
def FlashOp.zone : FlashOp → FlashZone
  | .read zone .. => zone
  | .write zone .. => zone
  | .erase zone .. => zone

theorem FlashOp.apply_of_ne {op : FlashOp} {z : FlashZone} (h : op.zone ≠ z) (k : ℕ)
    (flash : Flash) : op.apply k flash z = flash z := by
  cases op with
  | read => rfl
  | write zone offset data => exact Function.update_of_ne (Ne.symm h) _ _
  | erase zone offset length => exact Function.update_of_ne (Ne.symm h) _ _

@[simp] theorem FlashOp.apply_read (zone : FlashZone) (offset length : ℕ) (target : ReadTarget)
    (k : ℕ) (flash : Flash) : (FlashOp.read zone offset length target).apply k flash = flash := rfl

theorem FlashOp.apply_write_same (zone : FlashZone) (offset : ℕ) (data : List UInt8) (k : ℕ)
    (flash : Flash) : (FlashOp.write zone offset data).apply k flash zone
      = (flash zone).write offset (data.take k) := Function.update_self _ _ _

theorem FlashOp.apply_erase_same (zone : FlashZone) (offset length k : ℕ) (flash : Flash) :
    (FlashOp.erase zone offset length).apply k flash zone
      = (flash zone).write offset ((List.replicate length 0xFF).take k) :=
  Function.update_self _ _ _

theorem Flash.copy_apply_of_ne {op : FlashOp} {z : FlashZone} (h : op.zone ≠ z) (k : ℕ)
    (flash : Flash) : (op.apply k flash).copy z = flash.copy z := by
  unfold Flash.copy
  rw [FlashOp.apply_of_ne h]

/-- A metadata zone after the first `k` bytes of its erase. -/
theorem slice_erase_cut (flash : Flash) (z : FlashZone) (k : ℕ) :
    ((FlashOp.erase z 0 metadataEncodedSize).apply k flash z).slice 0 metadataEncodedSize
      = (List.replicate metadataEncodedSize 0xFF).take k
        ++ ((flash z).slice 0 metadataEncodedSize).drop k := by
  rw [FlashOp.apply_erase_same, Memory.slice_write_prefix rfl (by simp)]
  rcases Nat.le_total k metadataEncodedSize with hk | hk
  · simp [Nat.min_eq_left hk]
  · rw [List.drop_of_length_le (by simp [Nat.min_eq_right hk]),
      List.drop_of_length_le (by simpa using hk)]

/-- **A cut erase** keeps the record whole or leaves none. -/
theorem Flash.copy_erase_cut (flash : Flash) (z : FlashZone) (k : ℕ) :
    ((FlashOp.erase z 0 metadataEncodedSize).apply k flash).copy z
      = if k = 0 then flash.copy z else none := by
  unfold Flash.copy
  rw [slice_erase_cut]
  by_cases hk : k = 0
  · simp [hk]
  · rw [if_neg hk]
    apply metadataDecode_erased_first
    obtain ⟨j, rfl⟩ := Nat.exists_eq_succ_of_ne_zero hk
    rfl

theorem slice_erase_done (flash : Flash) (z : FlashZone) :
    ((FlashOp.erase z 0 metadataEncodedSize).apply metadataEncodedSize flash z).slice 0
      metadataEncodedSize = List.replicate metadataEncodedSize 0xFF := by
  rw [slice_erase_cut, List.take_of_length_le (by simp), List.drop_of_length_le (by simp)]
  simp

/-- **A cut write** over erased cells leaves no record or the whole one. -/
theorem Flash.copy_write_cut {flash : Flash} {z : FlashZone} (m : Metadata)
    (h : (flash z).slice 0 metadataEncodedSize = List.replicate metadataEncodedSize 0xFF) (k : ℕ) :
    ((FlashOp.write z 0 (metadataEncode m)).apply k flash).copy z
      = if k < metadataEncodedSize then none else some m := by
  have hsize : metadataEncodedSize = 42 := rfl
  unfold Flash.copy
  rw [FlashOp.apply_write_same, Memory.slice_write_prefix h (by simp)]
  by_cases hk : k < metadataEncodedSize
  · rw [if_pos hk]
    apply metadataDecode_erased_last
    have hlen : ((metadataEncode m).take k).length = k := by simp; omega
    rw [hlen, List.getD_eq_getElem?_getD, List.getElem?_append_right (by omega), hlen,
      List.getElem?_drop, List.getElem?_replicate]
    rw [if_pos (by omega)]
    rfl
  · rw [if_neg hk, List.take_of_length_le (by simp; omega), List.drop_of_length_le (by simp),
      List.append_nil, metadataDecode_encode]

theorem Flash.copy_of_erased {flash : Flash} {z : FlashZone}
    (h : (flash z).slice 0 metadataEncodedSize = List.replicate metadataEncodedSize 0xFF) :
    flash.copy z = none := by
  unfold Flash.copy
  rw [h]
  exact metadataDecode_erased_first rfl

end Atoman.Bootloader
