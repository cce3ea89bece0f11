import Atoman.Trace.Buffer

/-!
# What the trace buffer promises

Away from the wrap of its counters the buffer is a queue that drops the oldest of 64
records. Within one buffer length of the wrap the plain comparison of the source goes
wrong in two ways: `read_count + 64` wraps before `write_count` does, and the read
position is moved back over records already consumed; or `write_count` wraps first, and
an overflow goes unnoticed.
-/

namespace Atoman.Trace
open Lib (DropQueue)

/-- The overflow test of a record call is right: `read_count + 64` and the advanced
`write_count` have both wrapped or neither has. -/
def RecordSafe (c : Core) : Prop :=
  c.read_count.toNat + 65 < 2 ^ 32 ∨
    (c.read_count.toNat + 65 = 2 ^ 32 ∧ c.write_count.toNat + 1 ≠ 2 ^ 32) ∨
    (2 ^ 32 ≤ c.read_count.toNat + 64 ∧ (c.write_count + 1).toNat < c.read_count.toNat)

/-- The overflow test of a read call is right. -/
def ReadSafe (c : Core) : Prop :=
  c.read_count.toNat + 64 < 2 ^ 32 ∨ c.write_count.toNat ≤ c.read_count.toNat

/-- The condition on a call. -/
def Safe (c : Core) : Call → Prop
  | .record _ _ _ => c.bound = true → RecordSafe c
  | .read pointers => pointers = true → ReadSafe c
  | _ => True

/-! ## The queue behind the counters -/

/-- The counters and the slots say what the queue says. -/
structure Represents (s : State) (q : DropQueue Item) : Prop where
  written : s.written = q.written
  returned : s.returned = q.taken
  valid : q.Valid 64
  write_count : s.core.write_count.toNat = q.written.length % 2 ^ 32
  read_count : s.core.read_count.toNat = q.low % 2 ^ 32
  serial : ∀ i (h : i < q.written.length), q.written[i].serial = i + 1
  slot : ∀ i (h : i < q.written.length), q.written.length ≤ i + 64 →
    s.core.buffer (i % 64) = q.written[i]

section Represents
variable {s : State} {q : DropQueue Item}

theorem Represents.start : Represents ⟨.reset, [], []⟩ ⟨[], [], 0⟩ where
  written := rfl
  returned := rfl
  valid := DropQueue.valid_empty 64
  write_count := rfl
  read_count := rfl
  serial := fun _ h => absurd h (Nat.not_lt_zero _)
  slot := fun _ h => absurd h (Nat.not_lt_zero _)

/-- The count reported is the number of unread records. -/
theorem Represents.count (h : Represents s q) :
    s.core.recordCountGet.toNat = q.unread.length := by
  have hw := h.write_count
  have hr := h.read_count
  have hle := h.valid.low_le
  have hbound := h.valid.bound
  rw [Core.recordCountGet, UInt32.toNat_sub, q.length_unread]
  omega

/-- Reading a list index by index. -/
theorem filterMap_getElem? (l : List Item) : (List.range l.length).filterMap (l[·]?) = l := by
  induction l with
  | nil => rfl
  | cons x l ih =>
    rw [List.length_cons, List.range_succ_eq_map, List.filterMap_cons, List.getElem?_cons_zero,
      List.filterMap_map]
    exact congrArg (x :: ·) ih

/-- The slots listed hold the unread records. -/
theorem Represents.listed (h : Represents s q) : s.core.listed = q.unread := by
  have hcount := h.count
  have hunread := h.valid.length_unread_le
  have hitem : ∀ i ∈ List.range s.core.recordCountGet.toNat,
      s.core.itemGet (UInt32.ofNat i) = q.unread[i]? := by
    intro i hi
    have hi' : i < q.unread.length := by rw [← hcount]; exact List.mem_range.mp hi
    have hin : q.low + i < q.written.length := by
      have := q.length_unread
      omega
    have hsmall : (UInt32.ofNat i).toNat = i := by
      rw [UInt32.toNat_ofNat']; omega
    have hindex : ((s.core.read_count + UInt32.ofNat i) % bufferSize).toNat = (q.low + i) % 64 := by
      rw [UInt32.toNat_mod, UInt32.toNat_add, hsmall, h.read_count]
      change ((q.low % 2 ^ 32 + i) % 2 ^ 32) % 64 = _
      omega
    have hless : ¬ s.core.recordCountGet ≤ UInt32.ofNat i := by
      rw [UInt32.le_iff_toNat_le, hsmall, hcount]
      omega
    have hbound := h.valid.bound
    rw [Core.itemGet, if_neg hless, hindex, h.slot _ hin (by omega)]
    rw [DropQueue.unread, List.getElem?_drop, List.getElem?_eq_getElem hin]
  rw [Core.listed, List.filterMap_congr hitem, hcount]
  exact filterMap_getElem? q.unread

/-- The records written are pairwise different. -/
theorem Represents.nodup (h : Represents s q) : q.written.Nodup := by
  refine List.nodup_iff_injective_get.mpr fun i j hij => Fin.ext ?_
  have hi := h.serial i i.isLt
  have hj := h.serial j j.isLt
  have : q.written[i.val] = q.written[j.val] := hij
  rw [this, hj] at hi
  omega

/-- **What the queue promises** holds of the buffer. -/
theorem Represents.exactlyOnce (h : Represents s q) : s.ExactlyOnce := by
  have hdropped : s.dropped = q.droppedRecords := by
    rw [State.dropped, DropQueue.droppedRecords, h.written, h.returned, h.listed]
  constructor
  · rw [h.count, h.returned, h.written, hdropped]
    exact h.valid.conservation h.nodup
  · rw [h.count]
    exact h.valid.length_unread_le
  · rw [h.written]
    exact h.nodup
  · rw [h.returned, h.listed, h.written]
    exact h.valid.sublist
  · rw [hdropped, h.written]
    exact fun i hi => h.valid.behind hi

/-! ## One call -/

/-- The slot of the next record. -/
theorem slotIndex (n : ℕ) (w : UInt32) (h : w.toNat = n % 2 ^ 32) :
    (w &&& (bufferSize - 1)).toNat = n % 64 := by
  have hmask : (w &&& (bufferSize - 1)).toNat = w.toNat % 64 := by
    rw [UInt32.toNat_and]
    exact Nat.and_two_pow_sub_one_eq_mod w.toNat 6
  omega

/-- The overflow test, as an inequality of the counters. -/
theorem overflown_iff (c : Core) :
    c.overflown = true ↔ (c.read_count.toNat + 64) % 2 ^ 32 < c.write_count.toNat := by
  rw [Core.overflown, decide_eq_true_iff, gt_iff_lt, UInt32.lt_iff_toNat_lt, UInt32.toNat_add]
  rfl

/-- What the counters are behind the overflow test. -/
theorem Core.dropOldest_fields (c : Core) :
    c.dropOldest.buffer = c.buffer ∧ c.dropOldest.write_count = c.write_count ∧
      c.dropOldest.read_count =
        if c.overflown then c.write_count - bufferSize else c.read_count := by
  unfold Core.dropOldest
  split <;> exact ⟨rfl, rfl, rfl⟩

/-- A stored record is in its slot; the slots of the 63 records before keep theirs. -/
theorem Represents.slot_store (h : Represents s q) (x : Item) (i : ℕ)
    (hi : i < (q.written ++ [x]).length) (hnew : (q.written ++ [x]).length ≤ i + 64) :
    (s.core.store x).buffer (i % 64) = (q.written ++ [x])[i] := by
  rw [List.length_append, List.length_singleton] at hi hnew
  simp only [Core.store, slotIndex _ _ h.write_count]
  by_cases hlast : i = q.written.length
  · subst hlast
    rw [Function.update_self, List.getElem_append_right (Nat.le_refl _)]
    simp
  · rw [Function.update_of_ne (by omega), List.getElem_append_left (by omega),
      h.slot i (by omega) (by omega)]

/-- Whether the test of a record call fires. -/
theorem Represents.overflown_store (h : Represents s q) (hsafe : RecordSafe s.core) (x : Item) :
    (s.core.store x).overflown = true ↔ 64 < q.written.length + 1 - q.low := by
  have hw := h.write_count
  have hr := h.read_count
  have hle := h.valid.low_le
  have hfew := h.valid.bound
  have hw' : (s.core.write_count + 1).toNat = (q.written.length + 1) % 2 ^ 32 := by
    rw [UInt32.toNat_add, hw]
    change (q.written.length % 2 ^ 32 + 1) % 2 ^ 32 = _
    omega
  rw [overflown_iff]
  simp only [Core.store, hw', hr]
  unfold RecordSafe at hsafe
  rw [hw', hr, hw] at hsafe
  omega

/-- A record written is pushed. -/
theorem Represents.push (h : Represents s q) (hsafe : RecordSafe s.core) {x : Item}
    (hserial : x.serial = q.written.length + 1) :
    Represents ⟨(s.core.store x).dropOldest, q.written ++ [x], q.taken⟩ (q.push 64 x) := by
  obtain ⟨hbuffer, hwrite, hread⟩ := (s.core.store x).dropOldest_fields
  have hw := h.write_count
  have hr := h.read_count
  have hle := h.valid.low_le
  have hw' : (s.core.write_count + 1).toNat = (q.written.length + 1) % 2 ^ 32 := by
    rw [UInt32.toNat_add, hw]
    change (q.written.length % 2 ^ 32 + 1) % 2 ^ 32 = _
    omega
  constructor
  · rfl
  · rfl
  · exact h.valid.push (Nat.zero_lt_succ 63) x
  · rw [hwrite]
    simpa only [Core.store, DropQueue.push, List.length_append, List.length_singleton] using hw'
  · rw [hread]
    by_cases hover : (s.core.store x).overflown = true
    · have hfull := (h.overflown_store hsafe x).mp hover
      rw [if_pos hover]
      simp only [Core.store, DropQueue.push]
      rw [UInt32.toNat_sub, hw']
      change (2 ^ 32 - 64 + (q.written.length + 1) % 2 ^ 32) % 2 ^ 32 = _
      omega
    · have hfits := mt (h.overflown_store hsafe x).mpr hover
      rw [if_neg hover]
      simp only [Core.store, DropQueue.push]
      rw [hr, Nat.max_eq_left (by omega)]
  · intro i hi
    simp only [DropQueue.push, List.length_append, List.length_singleton] at hi ⊢
    by_cases hlast : i = q.written.length
    · subst hlast
      rw [List.getElem_append_right (Nat.le_refl _)]
      simpa using hserial
    · rw [List.getElem_append_left (by omega)]
      exact h.serial i (by omega)
  · intro i hi hnew
    rw [hbuffer]
    exact h.slot_store x i hi hnew

/-- A read call takes the oldest unread record. -/
theorem Represents.pop (h : Represents s q) (hsafe : ReadSafe s.core)
    (hne : s.core.read_count ≠ s.core.write_count) :
    Represents ⟨(s.core.read true).1, q.written, q.taken ++ (s.core.read true).2.toList⟩ q.pop := by
  have hw := h.write_count
  have hr := h.read_count
  have hle := h.valid.low_le
  have hfew := h.valid.bound
  have hlt : q.low < q.written.length := by
    refine Nat.lt_of_le_of_ne hle fun heq => hne ?_
    rw [← UInt32.toNat_inj, hw, hr, heq]
  have hquiet : ¬ s.core.overflown = true := by
    rw [overflown_iff, hw, hr]
    unfold ReadSafe at hsafe
    rw [hw, hr] at hsafe
    omega
  have hkeep : s.core.dropOldest = s.core := if_neg hquiet
  have hhead : q.unread.take 1 = [q.written[q.low]] := by
    rw [DropQueue.unread, List.drop_eq_getElem_cons hlt, List.take_succ_cons, List.take_zero]
  have hread : s.core.read true =
      ({ s.core with read_count := s.core.read_count + 1 }, some q.written[q.low]) := by
    have hslot := h.slot q.low hlt hfew
    simp only [Core.read, hkeep, slotIndex _ _ hr, hslot]
    rw [if_neg Bool.noConfusion, if_neg hne]
  have hr' : (s.core.read_count + 1).toNat = (q.low + 1) % 2 ^ 32 := by
    rw [UInt32.toNat_add, hr]
    change (q.low % 2 ^ 32 + 1) % 2 ^ 32 = _
    omega
  rw [hread]
  exact {
    written := rfl
    returned := by rw [DropQueue.pop, hhead]; rfl
    valid := h.valid.pop
    write_count := hw
    read_count := by rw [DropQueue.pop, hhead]; exact hr'
    serial := h.serial
    slot := h.slot }

/-- What a call that touches neither the counters nor the slots keeps. -/
theorem Represents.keep (h : Represents s q) {c : Core} (hw : c.write_count = s.core.write_count)
    (hr : c.read_count = s.core.read_count) (hb : c.buffer = s.core.buffer) :
    Represents ⟨c, s.written, s.returned⟩ q where
  written := h.written
  returned := h.returned
  valid := h.valid
  write_count := by rw [hw]; exact h.write_count
  read_count := by rw [hr]; exact h.read_count
  serial := h.serial
  slot := by rw [hb]; exact h.slot

/-- **One call** that meets the condition keeps a queue behind the counters. -/
theorem Represents.exec (h : Represents s q) {call : Call} (hsafe : Safe s.core call) :
    ∃ q', Represents (s.exec call) q' := by
  cases call with
  | bindTime pointer => exact ⟨q, h.keep rfl rfl rfl⟩
  | bindTimeGetter pointer => exact ⟨q, h.keep rfl rfl rfl⟩
  | countGet => exact ⟨q, h⟩
  | itemGet index => exact ⟨q, h⟩
  | record line getterTime systemTime =>
    simp only [State.exec, Core.record]
    by_cases hbound : s.core.bound = true
    · rw [if_pos hbound, if_pos hbound, h.written, h.returned]
      exact ⟨_, h.push (hsafe hbound) rfl⟩
    · rw [if_neg hbound, if_neg hbound]
      exact ⟨q, h⟩
  | read pointers =>
    simp only [State.exec]
    cases pointers with
    | false =>
      have hread : s.core.read false = (s.core, none) := rfl
      rw [hread, Option.toList_none, List.append_nil]
      exact ⟨q, h⟩
    | true =>
      by_cases hne : s.core.read_count = s.core.write_count
      · have hread : s.core.read true = (s.core, none) := by
          rw [Core.read, if_neg Bool.noConfusion, if_pos hne]
        rw [hread, Option.toList_none, List.append_nil]
        exact ⟨q, h⟩
      · rw [h.written, h.returned]
        exact ⟨q.pop, h.pop (hsafe rfl) hne⟩

end Represents

/-! ## Runs -/

/-- **The trace buffer is exactly-once** in every state of every run none of whose
calls meets the wrap of one counter without the other. -/
theorem trace_exactly_once {s : State} (h : (runs Safe).Reachable s) : s.ExactlyOnce := by
  have hinv : ∃ q, Represents s q := by
    refine h.invariant (P := fun s => ∃ q, Represents s q) ?_ ?_
    · rintro s rfl
      exact ⟨_, .start⟩
    · rintro s t ⟨q, hq⟩ ⟨call, hsafe, rfl⟩
      exact hq.exec hsafe
  obtain ⟨q, hq⟩ := hinv
  exact hq.exactlyOnce

instance (c : Core) : Decidable (RecordSafe c) := inferInstanceAs (Decidable (_ ∨ _ ∨ _))

instance (c : Core) : Decidable (ReadSafe c) := inferInstanceAs (Decidable (_ ∨ _))

instance (c : Core) : ∀ call, Decidable (Safe c call)
  | .record _ _ _ => inferInstanceAs (Decidable (_ → RecordSafe c))
  | .read _ => inferInstanceAs (Decidable (_ → ReadSafe c))
  | .bindTime _ | .bindTimeGetter _ | .countGet | .itemGet _ => inferInstanceAs (Decidable True)

/-- Two records more than the buffer holds, two reads, and one more record. -/
def demoCalls : List Call :=
  .bindTime true :: (List.range 66).map (fun k => .record (UInt32.ofNat k) 0 9) ++
    [.read true, .read true, .record 99 0 9]

def demo : State := demoCalls.foldl State.exec ⟨.reset, [], []⟩

theorem trace_exactly_once_demo :
    (demo.dropped.map Item.line = [0, 1] ∧ demo.returned.map Item.line = [2, 3] ∧
      demo.core.recordCountGet = 63) ∧ demo.ExactlyOnce := by
  have hadmits : Lib.Transition.Admits State.exec (fun s call => Safe s.core call)
      ⟨.reset, [], []⟩ demoCalls := by decide +kernel
  have hstart : (runs Safe).Reachable ⟨.reset, [], []⟩ := .start rfl
  exact ⟨by decide +kernel, trace_exactly_once (hadmits.reachable hstart)⟩

/-! ## At the wrap -/

/-- Recording and reading in turns empties the queue at every count up to one buffer
length before the wrap. -/
theorem exists_turns (n : ℕ) (hn : n ≤ 2 ^ 32 - 64) :
    ∃ s q, (runs fun _ _ => True).Reachable s ∧ Represents s q ∧ s.core.bound = true ∧
      q.written.length = n ∧ q.low = n ∧ q.taken.length = n := by
  induction n with
  | zero =>
    refine ⟨_, _, .step (.start rfl) ⟨.bindTime true, trivial, rfl⟩,
      Represents.start.keep rfl rfl rfl, rfl, rfl, rfl, rfl⟩
  | succ n ih =>
    obtain ⟨s, q, hreach, hq, hbound, hwritten, hlow, htaken⟩ := ih (by omega)
    have hw := hq.write_count
    have hr := hq.read_count
    have hrecord : RecordSafe s.core := by
      unfold RecordSafe
      omega
    obtain ⟨q₁, hq₁, hq₁'⟩ : ∃ q₁, Represents (s.exec (.record 0 0 0)) q₁ ∧
        q₁ = q.push 64 (s.core.item 0 0 0 (s.written.length + 1)) := by
      refine ⟨_, ?_, rfl⟩
      simp only [State.exec, Core.record, if_pos hbound, hq.written, hq.returned]
      exact hq.push hrecord rfl
    have hbound₁ : (s.exec (.record 0 0 0)).core.bound = true := by
      simp only [State.exec, Core.record, if_pos hbound]
      unfold Core.dropOldest
      split <;> exact hbound
    have hlen₁ : q₁.written.length = n + 1 := by
      rw [hq₁', DropQueue.push, List.length_append, List.length_singleton, hwritten]
    have hlow₁ : q₁.low = n := by
      simp only [hq₁', DropQueue.push, hlow, hwritten]
      omega
    have htaken₁ : q₁.taken = q.taken := by rw [hq₁']; rfl
    have hw₁ := hq₁.write_count
    have hr₁ := hq₁.read_count
    have hread : ReadSafe (s.exec (.record 0 0 0)).core := by
      unfold ReadSafe
      omega
    have hne : (s.exec (.record 0 0 0)).core.read_count ≠
        (s.exec (.record 0 0 0)).core.write_count := by
      intro heq
      rw [← UInt32.toNat_inj, hw₁, hr₁] at heq
      omega
    have hq₂ := hq₁.pop hread hne
    rw [← hq₁.written, ← hq₁.returned] at hq₂
    have hone : (q₁.unread.take 1).length = 1 := by
      have := q₁.length_unread
      rw [List.length_take]
      omega
    refine ⟨_, q₁.pop,
      .step (.step hreach ⟨.record 0 0 0, trivial, rfl⟩) ⟨.read true, trivial, rfl⟩,
      hq₂, ?_, hlen₁, ?_, ?_⟩
    · simp only [State.exec] at hbound₁ hne ⊢
      simp only [Core.read, Bool.true_eq_false, if_false, if_neg hne]
      unfold Core.dropOldest
      split <;> exact hbound₁
    · simp only [DropQueue.pop, hone, hlow₁]
    · simp only [DropQueue.pop, List.length_append, hone, htaken₁, htaken]

/-- One record later the buffer lists 64 records, 63 of which were already read. -/
theorem trace_not_exactly_once : ¬ ∀ s, (runs fun _ _ => True).Reachable s → s.ExactlyOnce := by
  intro hall
  obtain ⟨s, q, hreach, hq, hbound, hwritten, hlow, htaken⟩ := exists_turns _ (Nat.le_refl _)
  have hcount := (hall _ (.step hreach ⟨.record 0 0 0, trivial, rfl⟩)).count
  have hw := hq.write_count
  have hr := hq.read_count
  have hw' : (s.core.write_count + 1).toNat = 2 ^ 32 - 63 := by
    rw [UInt32.toNat_add, hw, hwritten]
    rfl
  have hover (x : Item) : (s.core.store x).overflown = true := by
    rw [overflown_iff]
    simp only [Core.store, hw', hr, hlow]
    decide
  have hlisted (x : Item) : (s.core.store x).dropOldest.recordCountGet.toNat = 64 := by
    have hsub : (s.core.write_count + 1 - bufferSize).toNat = 2 ^ 32 - 127 := by
      rw [UInt32.toNat_sub, hw']
      rfl
    rw [Core.dropOldest, if_pos (hover x)]
    simp only [Core.recordCountGet, Core.store]
    rw [UInt32.toNat_sub, hsub, hw']
    omega
  simp only [State.exec, Core.record, if_pos hbound, hlisted, hq.written, hq.returned,
    List.length_append, List.length_singleton] at hcount
  omega

end Atoman.Trace
