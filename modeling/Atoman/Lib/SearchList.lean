import Atoman.Lib.LinkedQueue
import Mathlib.Data.List.Perm.Basic

/-!
# Linked lists that a search reorders

A linked list with a pointer to its last node. A search goes along the links and moves the
node that it finds to the front. What the search finds is the first match, and the move keeps
the order of all nodes that a search cannot tell apart: to later searches it is invisible.
-/

namespace Atoman.Lib
universe u

/-- The two ends, and the link of every node. -/
structure SearchList (ι : Type u) where
  first : Option ι
  tail : Option ι
  next : ι → Option ι

namespace SearchList
variable {ι : Type u} [DecidableEq ι]

/-- Put a node at the end. -/
def append (l : SearchList ι) (t : ι) : SearchList ι :=
  let next := Function.update l.next t none
  match l.first, l.tail with
  | none, _ => ⟨some t, some t, next⟩
  | some f, some e => ⟨some f, some t, Function.update next e (some t)⟩
  -- a first node without a last one, which no list has
  | some f, none => ⟨some f, some t, next⟩

/-- Move a node to the front, past the one before it. -/
def toFront (l : SearchList ι) (previous t : ι) : SearchList ι where
  first := some t
  tail := if l.tail = some t then some previous else l.tail
  next := Function.update (Function.update l.next previous (l.next t)) t l.first

/-- Move a node to the front, unless it is there. -/
def moved (l : SearchList ι) (previous : Option ι) (t : ι) : SearchList ι :=
  match previous with
  | none => l
  | some u => l.toFront u t

/-- Search from a node on, with the one before it. -/
def accessLoop (p : ι → Bool) (l : SearchList ι) :
    ℕ → Option ι → Option ι → SearchList ι × Option ι
  | 0, _, _ => (l, none)
  | _ + 1, _, none => (l, none)
  | n + 1, previous, some t =>
    if p t then (l.moved previous t, some t)
    else accessLoop p l n (some t) (l.next t)

/-- Search for a node with a property, among `n` nodes at most. -/
def access (p : ι → Bool) (n : ℕ) (l : SearchList ι) : SearchList ι × Option ι :=
  accessLoop p l n none l.first

omit [DecidableEq ι] in
/-- The node that is the first with a property, from a node on. -/
def find (p : ι → Bool) (next : ι → Option ι) : ℕ → Option ι → Option ι
  | 0, _ => none
  | _ + 1, none => none
  | n + 1, some t => if p t then some t else find p next n (next t)

/-! ## The order of the nodes -/

omit [DecidableEq ι] in
/-- The nodes after a search. -/
def accessed (p : ι → Bool) (xs : List ι) : List ι := (xs.find? p).toList ++ xs.eraseP p

section Order
omit [DecidableEq ι]
variable {p q : ι → Bool} {xs : List ι}

theorem accessed_of_find?_eq_none (h : xs.find? p = none) : accessed p xs = xs := by
  rw [accessed, h, List.eraseP_of_forall_not (by simpa using h)]
  rfl

/-- Where the first match stands, and where it comes to stand. -/
theorem accessed_of_split {ys zs : List ι} {t : ι} (hxs : xs = ys ++ t :: zs)
    (hys : ∀ y ∈ ys, p y = false) (ht : p t = true) : accessed p xs = t :: (ys ++ zs) := by
  have hnot : ∀ y ∈ ys, ¬ p y = true := by simpa using hys
  rw [accessed, hxs, List.find?_append, List.find?_eq_none.mpr hnot,
    List.find?_cons_of_pos ht, List.eraseP_append_right _ hnot, List.eraseP_cons_of_pos ht]
  rfl

/-- A search keeps the nodes. -/
theorem perm_accessed : (accessed p xs).Perm xs := by
  cases h : xs.find? p with
  | none => rw [accessed_of_find?_eq_none h]
  | some t =>
    obtain ⟨ht, ys, zs, hxs, hys⟩ := List.find?_eq_some_iff_append.mp h
    rw [accessed_of_split hxs (by simpa using hys) ht, hxs]
    exact List.perm_middle.symm

/-- A search keeps the order of what it looks for. -/
theorem filter_accessed_self : (accessed p xs).filter p = xs.filter p := by
  cases h : xs.find? p with
  | none => rw [accessed_of_find?_eq_none h]
  | some t =>
    obtain ⟨ht, ys, zs, hxs, hys⟩ := List.find?_eq_some_iff_append.mp h
    have hnone : ys.filter p = [] := List.filter_eq_nil_iff.mpr (by simpa using hys)
    rw [accessed_of_split hxs (by simpa using hys) ht, hxs]
    simp [List.filter_append, hnone, ht]

/-- A search keeps the order of what it does not look for. -/
theorem filter_accessed_of_disjoint (hpq : ∀ t, p t = true → q t = false) :
    (accessed p xs).filter q = xs.filter q := by
  cases h : xs.find? p with
  | none => rw [accessed_of_find?_eq_none h]
  | some t =>
    obtain ⟨ht, ys, zs, hxs, hys⟩ := List.find?_eq_some_iff_append.mp h
    rw [accessed_of_split hxs (by simpa using hys) ht, hxs]
    simp [List.filter_append, hpq t ht]

end Order

/-! ## The list in memory -/

omit [DecidableEq ι] in
/-- The list holds these nodes, in this order. -/
structure Holds (l : SearchList ι) (xs : List ι) : Prop where
  first : l.first = xs.head?
  tail : l.tail = xs.getLast?
  next : ∀ i (h : i < xs.length), l.next xs[i] = xs[i + 1]?
  nodup : xs.Nodup

variable {l : SearchList ι} {xs : List ι} {t : ι}

/-- As a queue, whose flags say what it holds. -/
def toQueue (l : SearchList ι) (xs : List ι) : LinkedQueue ι :=
  ⟨l.first, l.tail, l.next, fun t => decide (t ∈ xs)⟩

theorem holds_iff_toQueue : l.Holds xs ↔ (l.toQueue xs).Holds xs := by
  constructor
  · intro h
    exact ⟨h.first, h.tail, h.next, h.nodup, fun t => by simp [toQueue]⟩
  · intro h
    exact ⟨h.first, h.tail, h.next, h.nodup⟩

omit [DecidableEq ι] in
theorem holds_nil (next : ι → Option ι) : (⟨none, none, next⟩ : SearchList ι).Holds [] :=
  ⟨rfl, rfl, fun _ h => absurd h (Nat.not_lt_zero _), List.nodup_nil⟩

omit [DecidableEq ι] in
/-- Only the links of its own nodes matter. -/
theorem Holds.congr {next : ι → Option ι} (h : l.Holds xs) (hnext : ∀ t ∈ xs, next t = l.next t) :
    (⟨l.first, l.tail, next⟩ : SearchList ι).Holds xs := by
  refine ⟨h.first, h.tail, ?_, h.nodup⟩
  intro i hi
  exact (hnext _ (List.getElem_mem hi)).trans (h.next i hi)

omit [DecidableEq ι] in
/-- What a queue holds, a list with its ends and links holds. -/
theorem holds_of_queue {q : LinkedQueue ι} (h : q.Holds xs) (hfirst : l.first = q.first)
    (htail : l.tail = q.tail) (hnext : l.next = q.next) : l.Holds xs where
  first := hfirst.trans h.first
  tail := htail.trans h.tail
  next := by
    rw [hnext]
    exact h.next
  nodup := h.nodup

/-- **Appending** puts a new node behind the others. -/
theorem Holds.append (h : l.Holds xs) (ht : t ∉ xs) : (l.append t).Holds (xs ++ [t]) := by
  have hpush := (holds_iff_toQueue.mp h).push ht
  have hflag : ¬ (l.toQueue xs).linked t = true := by simpa [toQueue] using ht
  rw [LinkedQueue.push, if_neg hflag] at hpush
  obtain ⟨first, tail, next⟩ := l
  cases first with
  | none => exact holds_of_queue hpush rfl rfl rfl
  | some f =>
    cases tail with
    | none => exact holds_of_queue hpush rfl rfl rfl
    | some e => exact holds_of_queue hpush rfl rfl rfl

/-- Appending changes the links of the new node and of the last one. -/
theorem append_next {u : ι} (hu : u ≠ t) (htail : l.tail ≠ some u) :
    (l.append t).next u = l.next u := by
  obtain ⟨first, tail, next⟩ := l
  cases first with
  | none => exact Function.update_of_ne hu _ _
  | some f =>
    cases tail with
    | none => exact Function.update_of_ne hu _ _
    | some e =>
      have hne : u ≠ e := fun heq => htail (heq ▸ rfl)
      exact (Function.update_of_ne hne _ _).trans (Function.update_of_ne hu _ _)

/-- **Moving to the front** takes a node from behind another. -/
theorem Holds.toFront {ys zs : List ι} {u : ι} (h : l.Holds (ys ++ [u] ++ t :: zs)) :
    (l.toFront u t).Holds (t :: (ys ++ [u] ++ zs)) := by
  have hunlink := (holds_iff_toQueue.mp h).unlink
  have ht : t ∉ ys ++ [u] ++ zs := by
    have hnodup := h.nodup
    rw [List.nodup_middle, List.nodup_cons] at hnodup
    exact hnodup.1
  have hfront := hunlink.pushFront ht
  have hflag : ¬ ((l.toQueue (ys ++ [u] ++ t :: zs)).unlink
      (ys ++ [u]).getLast? t).linked t = true := by
    simp [LinkedQueue.unlink]
  have hlast : (ys ++ [u]).getLast? = some u := List.getLast?_concat
  rw [LinkedQueue.pushFront, if_neg hflag, hlast] at hfront
  refine holds_of_queue hfront rfl ?_ ?_
  · have htail : ((l.toQueue (ys ++ [u] ++ t :: zs)).unlink (some u) t).tail ≠ none := by
      rw [← hlast, hunlink.tail]
      simp
    rw [if_neg (by simpa using htail)]
    rfl
  · simp [LinkedQueue.unlink, toQueue, SearchList.toFront]

/-- Moving to the front changes the links of the two nodes. -/
theorem toFront_next {u v : ι} (hu : v ≠ u) (ht : v ≠ t) : (l.toFront u t).next v = l.next v := by
  exact (Function.update_of_ne ht _ _).trans (Function.update_of_ne hu _ _)

/-- Each node links to the one behind it. -/
theorem Holds.next_of_split (h : l.Holds xs) (ys : List ι) {zs : List ι}
    (hxs : xs = ys ++ t :: zs) : l.next t = zs.head? :=
  LinkedQueue.Holds.next_of_split (holds_iff_toQueue.mp h) ys hxs

/-- **Searching** finds the first match and moves it to the front. -/
theorem Holds.accessLoop (p : ι → Bool) {n : ℕ} {ys zs : List ι} (hn : zs.length ≤ n)
    (h : l.Holds (ys ++ zs)) (hys : ∀ y ∈ ys, p y = false) :
    (SearchList.accessLoop p l n ys.getLast? zs.head?).1.Holds (accessed p (ys ++ zs)) ∧
      (SearchList.accessLoop p l n ys.getLast? zs.head?).2 = (ys ++ zs).find? p := by
  have hnone : ys.find? p = none := List.find?_eq_none.mpr (by simpa using hys)
  induction n generalizing ys zs with
  | zero =>
    obtain rfl : zs = [] := List.length_eq_zero_iff.mp (Nat.le_zero.mp hn)
    rw [List.append_nil] at h ⊢
    rw [accessed_of_find?_eq_none hnone, hnone]
    exact ⟨h, rfl⟩
  | succ n ih =>
    cases zs with
    | nil =>
      rw [List.append_nil] at h ⊢
      rw [accessed_of_find?_eq_none hnone, hnone]
      exact ⟨h, rfl⟩
    | cons t zs =>
      rw [List.head?_cons, SearchList.accessLoop]
      by_cases ht : p t = true
      · rw [if_pos ht, accessed_of_split rfl hys ht, List.find?_append, hnone,
          List.find?_cons_of_pos ht]
        refine ⟨?_, rfl⟩
        rcases List.eq_nil_or_concat' ys with rfl | ⟨ys, u, rfl⟩
        · exact h
        · rw [List.getLast?_concat]
          exact h.toFront
      · have hsplit : ys ++ t :: zs = ys ++ [t] ++ zs := by simp
        rw [if_neg ht, h.next_of_split ys rfl, ← List.getLast?_concat (l := ys) (a := t), hsplit]
        refine ih (Nat.le_of_succ_le_succ hn) (hsplit ▸ h) ?_ ?_
        · intro y hy
          rcases List.mem_append.mp hy with hy | hy
          · exact hys y hy
          · rw [List.mem_singleton.mp hy]
            simpa using ht
        · simpa [hnone] using ht

theorem Holds.access (p : ι → Bool) {n : ℕ} (hn : xs.length ≤ n) (h : l.Holds xs) :
    (SearchList.access p n l).1.Holds (accessed p xs) ∧
      (SearchList.access p n l).2 = xs.find? p := by
  have hloop := @Holds.accessLoop _ _ _ p n [] xs hn h (by simp)
  rwa [List.getLast?_nil, ← h.first] at hloop

/-- The first match, from a node of the list on. -/
theorem Holds.find_of_split (p : ι → Bool) {n : ℕ} {ys zs : List ι} (hn : zs.length ≤ n)
    (h : l.Holds (ys ++ zs)) : SearchList.find p l.next n zs.head? = zs.find? p := by
  induction n generalizing ys zs with
  | zero =>
    obtain rfl : zs = [] := List.length_eq_zero_iff.mp (Nat.le_zero.mp hn)
    rfl
  | succ n ih =>
    cases zs with
    | nil => rfl
    | cons t zs =>
      rw [List.head?_cons, SearchList.find, h.next_of_split ys rfl]
      by_cases ht : p t = true
      · rw [if_pos ht, List.find?_cons_of_pos ht]
      · rw [if_neg ht, List.find?_cons_of_neg ht]
        have hsplit : ys ++ t :: zs = ys ++ [t] ++ zs := by simp
        exact ih (Nat.le_of_succ_le_succ hn) (hsplit ▸ h)

theorem Holds.find (p : ι → Bool) {n : ℕ} (hn : xs.length ≤ n) (h : l.Holds xs) :
    SearchList.find p l.next n l.first = xs.find? p := by
  rw [h.first]
  exact @Holds.find_of_split _ _ _ p n [] xs hn h

theorem Holds.accessLoop_next (p : ι → Bool) {n : ℕ} {ys zs : List ι} {v : ι}
    (h : l.Holds (ys ++ zs)) (hv : v ∉ ys ++ zs) :
    (SearchList.accessLoop p l n ys.getLast? zs.head?).1.next v = l.next v := by
  induction n generalizing ys zs with
  | zero => rfl
  | succ n ih =>
    cases zs with
    | nil => rfl
    | cons t zs =>
      have hvt : v ≠ t := fun heq => hv (by simp [heq])
      rw [List.head?_cons, SearchList.accessLoop]
      by_cases ht : p t = true
      · rw [if_pos ht]
        rcases List.eq_nil_or_concat' ys with rfl | ⟨ys, u, rfl⟩
        · rfl
        · have hvu : v ≠ u := fun heq => hv (by simp [heq])
          rw [List.getLast?_concat]
          exact toFront_next hvu hvt
      · have hsplit : ys ++ t :: zs = ys ++ [t] ++ zs := by simp
        rw [if_neg ht, h.next_of_split ys rfl, ← List.getLast?_concat (l := ys) (a := t)]
        exact ih (hsplit ▸ h) (hsplit ▸ hv)

/-- A search changes the links of the nodes of the list only. -/
theorem Holds.access_next (p : ι → Bool) (n : ℕ) (h : l.Holds xs) {v : ι} (hv : v ∉ xs) :
    (SearchList.access p n l).1.next v = l.next v := by
  have hloop := @Holds.accessLoop_next _ _ _ p n [] xs v h hv
  rwa [List.getLast?_nil, ← h.first] at hloop

end SearchList
end Atoman.Lib
