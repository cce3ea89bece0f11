import Mathlib.Data.List.Nodup
import Mathlib.Logic.Function.Basic

/-!
# Linked queues

A queue of nodes with a link and a membership flag in each node, and pointers to its
first and last node. A node that is in the queue is not put there again. The account of
such a queue is the list of its nodes from the first on.
-/

namespace Atoman.Lib
universe u

/-- The two ends, and the link and the flag of every node. -/
structure LinkedQueue (ι : Type u) where
  first : Option ι
  tail : Option ι
  next : ι → Option ι
  linked : ι → Bool

namespace LinkedQueue
variable {ι : Type u}

def empty : LinkedQueue ι := ⟨none, none, fun _ => none, fun _ => false⟩

/-- Put a node at the end. -/
def push [DecidableEq ι] (q : LinkedQueue ι) (t : ι) : LinkedQueue ι :=
  if q.linked t then q
  else
    let next := Function.update q.next t none
    let linked := Function.update q.linked t true
    match q.first, q.tail with
    | none, _ => ⟨some t, some t, next, linked⟩
    | some f, some l => ⟨some f, some t, Function.update next l (some t), linked⟩
    -- a first node without a last one, which no queue has
    | some f, none => ⟨some f, some t, next, linked⟩

/-- Take the node at the front. -/
def pop [DecidableEq ι] (q : LinkedQueue ι) : Option ι × LinkedQueue ι :=
  match q.first with
  | none => (none, q)
  | some t =>
    (some t, ⟨q.next t, if (q.next t).isNone then none else q.tail,
      Function.update q.next t none, Function.update q.linked t false⟩)

/-- Put a node at the end, found by the last node alone. -/
def enqueue [DecidableEq ι] (q : LinkedQueue ι) (t : ι) : LinkedQueue ι :=
  if q.linked t then q
  else
    let next := Function.update q.next t none
    let linked := Function.update q.linked t true
    match q.tail with
    | some l => ⟨q.first, some t, Function.update next l (some t), linked⟩
    | none => ⟨some t, some t, next, linked⟩

/-- Put a node at the front. -/
def pushFront [DecidableEq ι] (q : LinkedQueue ι) (t : ι) : LinkedQueue ι :=
  if q.linked t then q
  else ⟨some t, if q.tail.isNone then some t else q.tail, Function.update q.next t q.first,
    Function.update q.linked t true⟩

/-- Take out a node whose predecessor is known. -/
def unlink [DecidableEq ι] (q : LinkedQueue ι) (previous : Option ι) (t : ι) : LinkedQueue ι where
  first := if previous.isNone then q.next t else q.first
  tail := if q.tail = some t then previous else q.tail
  next :=
    match previous with
    | none => Function.update q.next t none
    | some p => Function.update (Function.update q.next p (q.next t)) t none
  linked := Function.update q.linked t false

/-- One walk that takes out the nodes with a property, from a node on; `previous` is the
last node kept. With the queue it gives the nodes taken out. -/
def removeLoop [DecidableEq ι] (p : ι → Bool) :
    ℕ → LinkedQueue ι → Option ι → Option ι → LinkedQueue ι × List ι
  | 0, q, _, _ => (q, [])
  | _ + 1, q, _, none => (q, [])
  | n + 1, q, previous, some t =>
    if p t then
      let rest := removeLoop p n (q.unlink previous t) previous (q.next t)
      (rest.1, t :: rest.2)
    else removeLoop p n q (some t) (q.next t)

/-- Take out the nodes with a property, in one walk of at most `n` nodes. -/
def remove [DecidableEq ι] (q : LinkedQueue ι) (p : ι → Bool) (n : ℕ) :
    LinkedQueue ι × List ι := removeLoop p n q none q.first

/-- Clear the link and the flag of a node. -/
def clear [DecidableEq ι] (q : LinkedQueue ι) (t : ι) : LinkedQueue ι :=
  { q with next := Function.update q.next t none, linked := Function.update q.linked t false }

/-- The queue holds these nodes, in this order. -/
structure Holds (q : LinkedQueue ι) (xs : List ι) : Prop where
  first : q.first = xs.head?
  tail : q.tail = xs.getLast?
  next : ∀ i (h : i < xs.length), q.next xs[i] = xs[i + 1]?
  nodup : xs.Nodup
  linked : ∀ t, q.linked t = true ↔ t ∈ xs

variable {q : LinkedQueue ι} {xs : List ι} {t : ι}

theorem holds_empty : (empty : LinkedQueue ι).Holds [] where
  first := rfl
  tail := rfl
  next := fun _ h => absurd h (Nat.not_lt_zero _)
  nodup := List.nodup_nil
  linked := fun t => by simp [empty]

/-- A queue holds one list. -/
theorem Holds.unique {ys : List ι} (h : q.Holds xs) (h' : q.Holds ys) : xs = ys := by
  refine List.ext_getElem? fun i => ?_
  induction i with
  | zero =>
    have hfirst := h.first.symm.trans h'.first
    rwa [List.head?_eq_getElem?, List.head?_eq_getElem?] at hfirst
  | succ i ih =>
    by_cases hi : i < xs.length
    · rw [List.getElem?_eq_getElem hi] at ih
      obtain ⟨hi', heq⟩ := List.getElem?_eq_some_iff.mp ih.symm
      rw [← h.next i hi, ← h'.next i hi', heq]
    · have hi' : ys.length ≤ i := by
        rw [List.getElem?_eq_none (Nat.le_of_not_lt hi)] at ih
        exact List.getElem?_eq_none_iff.mp ih.symm
      rw [List.getElem?_eq_none (by omega), List.getElem?_eq_none (by omega)]

variable [DecidableEq ι]

/-- The links when a node follows the last one. -/
theorem Holds.next_append {ys : List ι} {l : ι} (h : q.Holds (ys ++ [l])) (ht : t ∉ ys ++ [l])
    (i : ℕ) (hi : i < (ys ++ [l] ++ [t]).length) :
    Function.update (Function.update q.next t none) l (some t) (ys ++ [l] ++ [t])[i] =
      (ys ++ [l] ++ [t])[i + 1]? := by
  have hl : l ≠ t := by
    rintro rfl
    exact ht (by simp)
  have hlen : i < ys.length + 1 + 1 := by
    rwa [List.length_append, List.length_append, List.length_singleton] at hi
  rcases Nat.lt_trichotomy i ys.length with hlt | rfl | hgt
  · have hget : (ys ++ [l] ++ [t])[i] = ys[i] := by
      simp only [List.append_assoc, List.getElem_append_left hlt]
    have hmem : ys[i] ∈ ys := List.getElem_mem hlt
    have hne : ys[i] ≠ l := by
      intro heq
      have hn := h.nodup
      rw [List.nodup_append] at hn
      exact hn.2.2 _ hmem l (List.mem_singleton_self l) heq
    have hnt : ys[i] ≠ t := by
      intro heq
      exact ht (heq ▸ List.mem_append_left _ hmem)
    have hold := h.next i (by simp; omega)
    rw [List.getElem_append_left hlt] at hold
    rw [hget, Function.update_of_ne hne, Function.update_of_ne hnt, hold,
      List.getElem?_append_left (by simp; omega : i + 1 < (ys ++ [l]).length)]
  · have hget : (ys ++ [l] ++ [t])[ys.length] = l := by simp
    rw [hget, Function.update_self]
    simp
  · obtain rfl : i = ys.length + 1 := by omega
    have hget : (ys ++ [l] ++ [t])[ys.length + 1] = t := by simp
    rw [hget, Function.update_of_ne hl.symm, Function.update_self]
    simp

/-- **Pushing** appends. -/
theorem Holds.push (h : q.Holds xs) (ht : t ∉ xs) : (q.push t).Holds (xs ++ [t]) := by
  have hflag : ¬ q.linked t = true := fun hflag => ht ((h.linked t).mp hflag)
  have hnodup : (xs ++ [t]).Nodup := by
    rw [List.nodup_append]
    refine ⟨h.nodup, by simp, ?_⟩
    rintro a ha b hb rfl
    exact ht ((List.mem_singleton.mp hb) ▸ ha)
  have hlinked (u : ι) : Function.update q.linked t true u = true ↔ u ∈ xs ++ [t] := by
    by_cases hu : u = t
    · simp [hu]
    · simp [hu, h.linked u]
  unfold LinkedQueue.push
  rw [if_neg hflag]
  rcases List.eq_nil_or_concat' xs with rfl | ⟨ys, l, rfl⟩
  · have hfirst : q.first = none := h.first
    simp only [hfirst]
    refine ⟨rfl, rfl, ?_, hnodup, hlinked⟩
    intro i hi
    obtain rfl : i = 0 := by simpa using hi
    simp
  · have htail : q.tail = some l := by
      rw [h.tail, List.getLast?_concat]
    obtain ⟨f, hfirst⟩ : ∃ f, q.first = some f := by
      rw [h.first]
      cases ys <;> exact ⟨_, rfl⟩
    simp only [hfirst, htail]
    refine ⟨?_, ?_, h.next_append ht, hnodup, hlinked⟩
    · show some f = _
      rw [← hfirst, h.first]
      cases ys <;> rfl
    · show some t = _
      rw [List.getLast?_concat]

theorem Holds.pop_nil (h : q.Holds []) : q.pop = (none, q) := by
  have hfirst : q.first = none := h.first
  simp only [LinkedQueue.pop, hfirst]

/-- **Popping** takes the first node. -/
theorem Holds.pop (h : q.Holds (t :: xs)) : q.pop.1 = some t ∧ q.pop.2.Holds xs := by
  have hfirst : q.first = some t := h.first
  have hnext : q.next t = xs.head? := by
    have := h.next 0 (by simp)
    rw [List.head?_eq_getElem?]
    simpa using this
  obtain ⟨ht, hnodup⟩ := List.nodup_cons.mp h.nodup
  simp only [LinkedQueue.pop, hfirst]
  refine ⟨trivial, hnext, ?_, ?_, hnodup, ?_⟩
  · rw [hnext]
    cases xs with
    | nil => rfl
    | cons u us =>
      show q.tail = _
      rw [h.tail]
      rfl
  · intro i hi
    have hne : xs[i] ≠ t := fun heq => ht (heq ▸ List.getElem_mem hi)
    have hold := h.next (i + 1) (by simpa using hi)
    show Function.update q.next t none xs[i] = _
    rw [Function.update_of_ne hne]
    simpa using hold
  · intro u
    show Function.update q.linked t false u = true ↔ _
    by_cases hu : u = t
    · simp [hu, ht]
    · rw [Function.update_of_ne hu, h.linked u]
      simp [hu]

/-! ## Links by splitting -/

omit [DecidableEq ι] in
/-- Each node links to the one behind it. -/
theorem next_iff_split {next : ι → Option ι} :
    (∀ i (h : i < xs.length), next xs[i] = xs[i + 1]?) ↔
      ∀ ys u zs, xs = ys ++ u :: zs → next u = zs.head? := by
  constructor
  · rintro h ys u zs rfl
    have hlink := h ys.length (by simp)
    rw [List.getElem_append_right (Nat.le_refl _),
      List.getElem?_append_right (Nat.le_succ _)] at hlink
    simpa [List.head?_eq_getElem?] using hlink
  · intro h i hi
    have hsplit : xs = xs.take i ++ xs[i] :: xs.drop (i + 1) := by
      rw [← List.drop_eq_getElem_cons hi, List.take_append_drop]
    rw [h _ _ _ hsplit, List.head?_drop]

omit [DecidableEq ι] in
theorem Holds.next_of_split (h : q.Holds xs) (ys : List ι) {zs : List ι} {u : ι}
    (hxs : xs = ys ++ u :: zs) :
    q.next u = zs.head? := next_iff_split.mp h.next ys u zs hxs

/-- The first pointer tells whether there is a last one. -/
theorem Holds.enqueue_eq (h : q.Holds xs) : q.enqueue t = q.push t := by
  unfold LinkedQueue.enqueue LinkedQueue.push
  split
  · rfl
  · rcases List.eq_nil_or_concat' xs with rfl | ⟨ys, l, rfl⟩
    · have hfirst : q.first = none := h.first
      have htail : q.tail = none := h.tail
      rw [hfirst, htail]
    · have htail : q.tail = some l := by
        rw [h.tail, List.getLast?_concat]
      obtain ⟨f, hfirst⟩ : ∃ f, q.first = some f := by
        rw [h.first]
        cases ys <;> exact ⟨_, rfl⟩
      rw [hfirst, htail]

theorem Holds.enqueue (h : q.Holds xs) (ht : t ∉ xs) : (q.enqueue t).Holds (xs ++ [t]) := by
  rw [h.enqueue_eq]
  exact h.push ht

/-- **Pushing to the front** prepends. -/
theorem Holds.pushFront (h : q.Holds xs) (ht : t ∉ xs) : (q.pushFront t).Holds (t :: xs) := by
  have hflag : ¬ q.linked t = true := fun hflag => ht ((h.linked t).mp hflag)
  unfold LinkedQueue.pushFront
  rw [if_neg hflag]
  refine ⟨rfl, ?_, next_iff_split.mpr ?_, List.nodup_cons.mpr ⟨ht, h.nodup⟩, ?_⟩
  · rw [h.tail]
    cases xs with
    | nil => rfl
    | cons u us => simp [List.getLast?_cons]
  · intro ys u zs hsplit
    cases ys with
    | nil =>
      obtain ⟨rfl, rfl⟩ := List.cons.inj hsplit
      dsimp only
      rw [Function.update_self, h.first]
    | cons y ys =>
      obtain ⟨rfl, hxs⟩ := List.cons.inj hsplit
      have hne : u ≠ t := by
        rintro rfl
        exact ht (by rw [hxs]; simp)
      dsimp only
      rw [Function.update_of_ne hne, h.next_of_split ys hxs]
  · intro u
    by_cases hu : u = t
    · simp [hu]
    · simp [hu, h.linked u]

omit [DecidableEq ι] in
/-- The links of the other nodes when one is taken out. -/
theorem unlink_next [DecidableEq ι] {previous : Option ι} {u : ι} (hu : u ≠ t) :
    (q.unlink previous t).next u = if previous = some u then q.next t else q.next u := by
  unfold LinkedQueue.unlink
  cases previous with
  | none =>
    dsimp only
    rw [Function.update_of_ne hu, if_neg nofun]
  | some p =>
    dsimp only
    rw [Function.update_of_ne hu]
    by_cases hp : u = p
    · rw [hp, Function.update_self, if_pos rfl]
    · rw [Function.update_of_ne hp, if_neg fun heq => hp (Option.some.inj heq).symm]

/-- **Taking a node out** leaves the others in order. -/
theorem Holds.unlink {ys zs : List ι} (h : q.Holds (ys ++ t :: zs)) :
    (q.unlink ys.getLast? t).Holds (ys ++ zs) := by
  have hnodup := h.nodup
  rw [List.nodup_middle, List.nodup_cons] at hnodup
  obtain ⟨ht, hrest⟩ := hnodup
  have hnext : q.next t = zs.head? := h.next_of_split ys rfl
  refine ⟨?_, ?_, next_iff_split.mpr ?_, hrest, ?_⟩
  · unfold LinkedQueue.unlink
    dsimp only
    cases ys with
    | nil => exact hnext
    | cons y ys =>
      rw [h.first, List.getLast?_cons]
      rfl
  · unfold LinkedQueue.unlink
    dsimp only
    rw [h.tail]
    cases zs with
    | nil => simp
    | cons z zs =>
      have hlast : (ys ++ t :: z :: zs).getLast? = (ys ++ z :: zs).getLast? := by
        simp [List.getLast?_append, List.getLast?_cons]
      have hne : (ys ++ z :: zs).getLast? ≠ some t :=
        fun heq => ht (List.mem_of_getLast? heq)
      rw [hlast, if_neg hne]
  · intro as u bs hsplit
    have hu : u ≠ t := by
      rintro rfl
      exact ht (by rw [hsplit]; simp)
    rw [unlink_next hu]
    have hbehind (cs : List ι) (hzs : zs = cs ++ u :: bs) : ys.getLast? ≠ some u ∧
        q.next u = bs.head? := by
      refine ⟨fun heq => ?_, h.next_of_split (ys ++ t :: cs) (by rw [hzs]; simp)⟩
      rw [List.nodup_append] at hrest
      exact hrest.2.2 u (List.mem_of_getLast? heq) u (by rw [hzs]; simp) rfl
    rcases List.append_eq_append_iff.mp hsplit with ⟨cs, rfl, hcs⟩ | ⟨cs, hys, hcs⟩
    · obtain ⟨hlast, hold⟩ := hbehind cs hcs
      rw [if_neg hlast, hold]
    · cases cs with
      | nil =>
        obtain ⟨hlast, hold⟩ := hbehind [] hcs.symm
        rw [if_neg hlast, hold]
      | cons c cs =>
        obtain ⟨rfl, rfl⟩ := List.cons.inj hcs
        cases cs with
        | nil =>
          -- the node right in front of the one taken out
          have hlast : ys.getLast? = some u := by rw [hys, List.getLast?_concat]
          rw [if_pos hlast, hnext]
          rfl
        | cons d ds =>
          have hold : q.next u = (d :: ds ++ t :: zs).head? :=
            h.next_of_split as (by rw [hys]; simp)
          have hlast : ys.getLast? ≠ some u := by
            intro heq
            have hmem : u ∈ d :: ds := by
              rw [hys, List.getLast?_append, List.getLast?_cons_cons] at heq
              exact List.mem_of_getLast? (by simpa [List.getLast?_cons] using heq)
            have hfront := hrest.sublist (List.sublist_append_left ys zs)
            rw [hys, List.nodup_append] at hfront
            exact (List.nodup_cons.mp hfront.2.1).1 hmem
          rw [if_neg hlast, hold]
          rfl
  · intro u
    show Function.update q.linked t false u = true ↔ _
    by_cases hu : u = t
    · subst hu
      simpa using ht
    · rw [Function.update_of_ne hu, h.linked u]
      simp [hu]

/-- What the walk leaves and takes, from a node on. -/
theorem Holds.removeLoop (p : ι → Bool) {n : ℕ} {ys zs : List ι} (hn : zs.length ≤ n)
    (h : q.Holds (ys ++ zs)) :
    (LinkedQueue.removeLoop p n q ys.getLast? zs.head?).1.Holds (ys ++ zs.filter fun t => !p t) ∧
      (LinkedQueue.removeLoop p n q ys.getLast? zs.head?).2 = zs.filter p := by
  induction n generalizing q ys zs with
  | zero =>
    obtain rfl : zs = [] := List.length_eq_zero_iff.mp (Nat.le_zero.mp hn)
    exact ⟨h, rfl⟩
  | succ n ih =>
    cases zs with
    | nil => exact ⟨h, rfl⟩
    | cons t zs =>
      have hnext : q.next t = zs.head? := h.next_of_split ys rfl
      have hlen : zs.length ≤ n := Nat.le_of_succ_le_succ hn
      rw [List.head?_cons, LinkedQueue.removeLoop, hnext]
      by_cases ht : p t
      · rw [if_pos ht]
        obtain ⟨hleft, htaken⟩ := ih hlen h.unlink
        rw [List.filter_cons_of_pos ht, List.filter_cons_of_neg (by simp [ht])]
        exact ⟨hleft, congrArg (t :: ·) htaken⟩
      · rw [if_neg ht]
        have hkeep : q.Holds (ys ++ [t] ++ zs) := by rwa [List.append_assoc]
        obtain ⟨hleft, htaken⟩ := ih hlen hkeep
        rw [List.getLast?_concat] at hleft htaken
        rw [List.filter_cons_of_neg ht, List.filter_cons_of_pos (by simp [ht])]
        rw [List.append_assoc] at hleft
        exact ⟨hleft, htaken⟩

/-- **Removing** keeps the nodes without the property, in their order. -/
theorem Holds.remove (p : ι → Bool) {n : ℕ} (hn : xs.length ≤ n) (h : q.Holds xs) :
    (q.remove p n).1.Holds (xs.filter fun t => !p t) ∧ (q.remove p n).2 = xs.filter p := by
  have hloop : _ ∧ _ := Holds.removeLoop p hn (show q.Holds ([] ++ xs) from h)
  rw [← h.first] at hloop
  exact hloop

/-- A node that is not in the queue is clear already. -/
theorem Holds.clear (h : q.Holds xs) (ht : t ∉ xs) : (q.clear t).Holds xs := by
  refine ⟨h.first, h.tail, fun i hi => ?_, h.nodup, fun u => ?_⟩
  · have hne : xs[i] ≠ t := fun heq => ht (heq ▸ List.getElem_mem hi)
    show Function.update q.next t none xs[i] = _
    rw [Function.update_of_ne hne, h.next i hi]
  · show Function.update q.linked t false u = true ↔ _
    by_cases hu : u = t
    · simp [hu, ht]
    · rw [Function.update_of_ne hu, h.linked u]

end LinkedQueue
end Atoman.Lib
