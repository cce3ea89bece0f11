import Atoman.Lib.SpanRing
import Atoman.RealtimeScope.Sampler

/-!
# What is popped is what was sampled

A run keeps, since the last start that succeeded, the bank it sampled, what each sample
read, and the frames popped. The queue holds the frames between the two, each in a slot of
the size of a frame.
-/

namespace Atoman.RealtimeScope
open Lib (Memory)

/-- A call of the sampler. -/
inductive Call
  | set (channel : UInt8) (p_address : Option ℕ) (type : UInt32)
  | clear
  | swap
  | start
  | stop
  | sample (bus : Bus)
  | pop

/-- The sampler, and what happened since the last start. -/
structure Run where
  scope : Scope
  bank : Bank
  buses : List Bus
  popped : List Frame

namespace Run

/-- One call. -/
def exec (r : Run) : Call → Run
  | .set channel p_address type => { r with scope := (r.scope.set channel p_address type).1 }
  | .clear => { r with scope := r.scope.clear }
  | .swap => { r with scope := r.scope.swap.1 }
  | .start =>
    if r.scope.start.2 then ⟨r.scope.start.1, r.scope.p_active, [], []⟩
    else { r with scope := r.scope.start.1 }
  | .stop => { r with scope := r.scope.stop }
  | .sample bus =>
    { r with
      scope := r.scope.sample bus
      buses :=
        if r.scope.running = true ∧ r.scope.count < r.scope.queue_frames then r.buses ++ [bus]
        else r.buses }
  | .pop => { r with scope := r.scope.pop.1, popped := r.popped ++ r.scope.pop.2.toList }

/-- The sampler as `realtime_scope_init` leaves it. -/
def start (scope : Scope) : Run := ⟨scope, scope.p_active, [], []⟩

/-- The frames sampled, numbered from zero. -/
def sampled (r : Run) : List (List UInt8) :=
  r.buses.mapIdx fun k bus => r.bank.frame (UInt8.ofNat k) bus

/-! ## The queue -/

/-- The queue of an acquisition: its slots hold the frames that are not popped yet. -/
structure Acquired (r : Run) (slot : ℕ) (queued : List (List UInt8)) : Prop where
  bank : r.bank.Ready
  frame_size : r.scope.frame_size = r.bank.payload_size + 5
  queue_frames : r.scope.queue_frames = r.scope.queue_capacity / r.scope.frame_size
  queue_limit : r.scope.queue_limit = r.scope.queue_frames * r.scope.frame_size
  head : r.scope.head = slot * r.scope.frame_size
  tail : r.scope.tail = (slot + r.scope.count) % r.scope.queue_frames * r.scope.frame_size
  count : r.scope.count = queued.length
  holds : r.scope.p_queue.HoldsBlocks r.scope.frame_size r.scope.queue_frames slot queued
  sampled : r.sampled = r.popped.map Frame.data ++ queued
  sizes : ∀ frame ∈ r.popped, frame.size = frame.data.length
  index : r.scope.index = UInt8.ofNat r.buses.length
  active : r.scope.running = true ∨ r.scope.count ≠ 0 → r.scope.p_active = r.bank

/-- The positions are at the boundaries of frames, in the part of the queue that is used. -/
structure Placed (s : Scope) : Prop where
  limit : s.queue_limit ≤ s.queue_capacity
  positions : s.queue_limit = 0 ∧ s.head = 0 ∧ s.tail = 0 ∨
    s.head < s.queue_limit ∧ s.tail < s.queue_limit ∧
      s.frame_size ∣ s.head ∧ s.frame_size ∣ s.tail ∧ s.frame_size ∣ s.queue_limit

/-- Nothing is sampled, and no frame is kept. -/
structure Idle (r : Run) : Prop where
  placed : Placed r.scope
  count : r.scope.count = 0
  running : r.scope.running = false
  buses : r.buses = []
  popped : r.popped = []

/-- What holds between the calls. -/
structure Valid (r : Run) : Prop where
  active : r.scope.p_active.Ready
  config : r.scope.p_config.Ready
  capacity : frameMax ≤ r.scope.queue_capacity
  queue : r.Idle ∨ ∃ slot queued, r.Acquired slot queued

variable {r : Run} {slot : ℕ} {queued : List (List UInt8)}

/-- Calls that change the banks only. -/
theorem Acquired.same {scope : Scope} (h : r.Acquired slot queued)
    (heq : scope = { r.scope with
      p_active := scope.p_active
      p_config := scope.p_config
      overflows := scope.overflows
      running := scope.running })
    (hactive : scope.running = true ∨ scope.count ≠ 0 → scope.p_active = r.bank) :
    Acquired { r with scope := scope } slot queued := by
  constructor
  · exact h.bank
  · rw [heq]
    exact h.frame_size
  · rw [heq]
    exact h.queue_frames
  · rw [heq]
    exact h.queue_limit
  · rw [heq]
    exact h.head
  · rw [heq]
    exact h.tail
  · rw [heq]
    exact h.count
  · rw [heq]
    exact h.holds
  · exact h.sampled
  · exact h.sizes
  · rw [heq]
    exact h.index
  · exact hactive

/-- A frame has at least one slot. -/
theorem Valid.queue_frames_pos (h : r.Valid) (hqueue : r.Acquired slot queued) :
    0 < r.scope.queue_frames ∧ 0 < r.scope.frame_size := by
  have hsize := hqueue.bank.payload_size_le
  have hcapacity := h.capacity
  have hpos : 0 < r.scope.frame_size := by
    rw [hqueue.frame_size]
    omega
  refine ⟨?_, hpos⟩
  rw [hqueue.queue_frames]
  exact Nat.div_pos (by rw [hqueue.frame_size]; omega) hpos

/-- The positions of an acquisition. -/
theorem Valid.placed (h : r.Valid) (hqueue : r.Acquired slot queued) : Placed r.scope := by
  obtain ⟨hframes, hsize⟩ := h.queue_frames_pos hqueue
  have hslot (i : ℕ) (hi : i < r.scope.queue_frames) :
      i * r.scope.frame_size < r.scope.queue_limit := by
    rw [hqueue.queue_limit]
    exact Nat.mul_lt_mul_of_pos_right hi hsize
  refine ⟨?_, Or.inr ⟨?_, ?_, ?_, ?_, ?_⟩⟩
  · rw [hqueue.queue_limit, hqueue.queue_frames]
    exact Nat.div_mul_le_self _ _
  · rw [hqueue.head]
    exact hslot slot hqueue.holds.head_lt
  · rw [hqueue.tail]
    exact hslot _ (Nat.mod_lt _ hframes)
  · exact hqueue.head ▸ Nat.dvd_mul_left _ _
  · exact hqueue.tail ▸ Nat.dvd_mul_left _ _
  · exact hqueue.queue_limit ▸ Nat.dvd_mul_left _ _

/-! ## The calls -/

theorem Valid.set (h : r.Valid) (channel : UInt8) (p_address : Option ℕ) (type : UInt32) :
    (r.exec (.set channel p_address type)).Valid := by
  unfold exec Scope.set
  dsimp only
  cases hset : r.scope.p_config.set channel p_address type with
  | none => exact h
  | some bank =>
    refine ⟨h.active, h.config.set hset, h.capacity, ?_⟩
    rcases h.queue with hidle | ⟨slot, queued, hqueue⟩
    · exact Or.inl ⟨⟨hidle.placed.1, hidle.placed.2⟩, hidle.2, hidle.3, hidle.4, hidle.5⟩
    · exact Or.inr ⟨slot, queued, hqueue.same rfl hqueue.active⟩

theorem Valid.clear (h : r.Valid) : (r.exec .clear).Valid := by
  refine ⟨h.active, Bank.ready_zero, h.capacity, ?_⟩
  rcases h.queue with hidle | ⟨slot, queued, hqueue⟩
  · exact Or.inl ⟨⟨hidle.placed.1, hidle.placed.2⟩, hidle.2, hidle.3, hidle.4, hidle.5⟩
  · exact Or.inr ⟨slot, queued, hqueue.same rfl hqueue.active⟩

theorem Valid.swap (h : r.Valid) : (r.exec .swap).Valid := by
  unfold exec Scope.swap
  dsimp only
  split
  · exact h
  · next hstopped =>
    rw [not_or, not_or, not_not] at hstopped
    refine ⟨h.config, h.active, h.capacity, ?_⟩
    rcases h.queue with hidle | ⟨slot, queued, hqueue⟩
    · exact Or.inl ⟨⟨hidle.placed.1, hidle.placed.2⟩, hidle.2, hidle.3, hidle.4, hidle.5⟩
    · refine Or.inr ⟨slot, queued, hqueue.same rfl fun hbusy => ?_⟩
      exact absurd hbusy (not_or.mpr ⟨hstopped.1, not_not_intro hstopped.2.1⟩)

theorem Valid.start (h : r.Valid) : (r.exec .start).Valid := by
  unfold exec Scope.start
  dsimp only
  by_cases hbusy : r.scope.running = true ∨ r.scope.count ≠ 0 ∨ r.scope.p_active.enabled = 0
  · rw [if_pos hbusy]
    exact h
  · rw [if_neg hbusy]
    rw [not_or, not_or, not_not] at hbusy
    refine ⟨h.active, h.config, h.capacity, Or.inr ⟨0, [], ?_⟩⟩
    have hsize := h.active.payload_size_le
    have hcapacity := h.capacity
    have hframes : 0 < r.scope.queue_capacity / (r.scope.p_active.payload_size + 5) :=
      Nat.div_pos (by omega) (by omega)
    refine ⟨h.active, rfl, rfl, rfl, (Nat.zero_mul _).symm, ?_, hbusy.2.1,
      Memory.holdsBlocks_nil _ _ hframes, rfl, fun _ hin => absurd hin List.not_mem_nil, rfl,
      fun _ => rfl⟩
    show 0 = (0 + r.scope.count) % _ * _
    rw [hbusy.2.1, Nat.zero_add, Nat.zero_mod, Nat.zero_mul]

theorem Valid.stop (h : r.Valid) : (r.exec .stop).Valid := by
  refine ⟨h.active, h.config, h.capacity, ?_⟩
  rcases h.queue with hidle | ⟨slot, queued, hqueue⟩
  · exact Or.inl ⟨⟨hidle.placed.1, hidle.placed.2⟩, hidle.2, rfl, hidle.4, hidle.5⟩
  · refine Or.inr ⟨slot, queued, hqueue.same rfl fun hbusy => ?_⟩
    exact hqueue.active (Or.inr (hbusy.resolve_left nofun))

/-- A sample while nothing runs. -/
theorem exec_sample_idle (bus : Bus) (hidle : r.scope.running = false) :
    r.exec (.sample bus) = r := by
  have hgo : ¬ (r.scope.running = true ∧ r.scope.count < r.scope.queue_frames) := by
    rw [hidle]
    exact fun hgo => nomatch hgo.1
  unfold exec Scope.sample
  dsimp only
  rw [if_neg hgo, if_pos hidle]

/-- A sample while the queue is full. -/
theorem exec_sample_full (bus : Bus) (hrunning : r.scope.running = true)
    (hfull : r.scope.queue_frames ≤ r.scope.count) : r.exec (.sample bus) = { r with
      scope := { r.scope with overflows := r.scope.overflows + 1, running := false } } := by
  have hgo : ¬ (r.scope.running = true ∧ r.scope.count < r.scope.queue_frames) :=
    fun hgo => Nat.not_lt.mpr hfull hgo.2
  unfold exec Scope.sample
  dsimp only
  rw [if_neg hgo, if_neg (Bool.not_eq_false _ ▸ hrunning), if_pos hfull]

/-- A sample that is taken. -/
theorem exec_sample (bus : Bus) (hrunning : r.scope.running = true)
    (hroom : r.scope.count < r.scope.queue_frames) :
    (r.exec (.sample bus)).buses = r.buses ++ [bus] ∧
      (r.exec (.sample bus)).scope = { r.scope with
        p_queue := r.scope.writeFrame bus r.scope.tail
        index := r.scope.index + 1
        tail :=
          if r.scope.tail + r.scope.frame_size = r.scope.queue_limit then 0
          else r.scope.tail + r.scope.frame_size
        count := r.scope.count + 1
        queue_high_water := (r.exec (.sample bus)).scope.queue_high_water
        samples := r.scope.samples + 1 } := by
  unfold exec Scope.sample
  dsimp only
  rw [if_pos ⟨hrunning, hroom⟩, if_neg (Bool.not_eq_false _ ▸ hrunning),
    if_neg (Nat.not_le.mpr hroom)]
  exact ⟨rfl, rfl⟩

/-- A sample appends a frame of the bank, or stops. -/
theorem Valid.sample (h : r.Valid) (bus : Bus) : (r.exec (.sample bus)).Valid := by
  cases hrunning : r.scope.running with
  | false =>
    rw [exec_sample_idle bus hrunning]
    exact h
  | true =>
    rcases h.queue with hidle | ⟨slot, queued, hqueue⟩
    · exact nomatch hidle.running.symm.trans hrunning
    have hactive := hqueue.active (Or.inl hrunning)
    by_cases hfull : r.scope.queue_frames ≤ r.scope.count
    · rw [exec_sample_full bus hrunning hfull]
      exact ⟨h.active, h.config, h.capacity,
        Or.inr ⟨slot, queued, hqueue.same rfl fun _ => hactive⟩⟩
    · have hroom := Nat.lt_of_not_le hfull
      obtain ⟨hbuses, hscope⟩ := exec_sample bus hrunning hroom
      obtain ⟨hframes, hsize⟩ := h.queue_frames_pos hqueue
      have hsampled : (r.exec (.sample bus)).sampled =
          r.sampled ++ [r.bank.frame (UInt8.ofNat r.buses.length) bus] := by
        unfold sampled
        rw [hbuses]
        exact List.mapIdx_concat
      have hlength : (r.bank.frame (UInt8.ofNat r.buses.length) bus).length =
          r.scope.frame_size := by
        rw [hqueue.bank.length_frame, hqueue.frame_size]
      constructor
      · rw [hscope]
        exact h.active
      · rw [hscope]
        exact h.config
      · rw [hscope]
        exact h.capacity
      refine Or.inr ⟨slot, queued ++ [r.bank.frame (UInt8.ofNat r.buses.length) bus], ?_⟩
      constructor
      · exact hqueue.bank
      · rw [hscope]
        exact hqueue.frame_size
      · rw [hscope]
        exact hqueue.queue_frames
      · rw [hscope]
        exact hqueue.queue_limit
      · rw [hscope]
        exact hqueue.head
      · rw [hscope]
        dsimp only
        rw [hqueue.tail, hqueue.queue_limit, Memory.next_slot hsize (Nat.mod_lt _ hframes),
          Nat.mod_add_mod, Nat.add_assoc]
      · rw [hscope, List.length_append, List.length_singleton, ← hqueue.count]
      · rw [hscope]
        dsimp only
        rw [Scope.writeFrame_eq h.active, hactive, hqueue.index, hqueue.tail, hqueue.count]
        exact hqueue.holds.push (by rw [← hqueue.count]; exact hroom) hlength
      · rw [hsampled, hqueue.sampled, List.append_assoc]
        rfl
      · exact hqueue.sizes
      · rw [hscope, hbuses, List.length_append, List.length_singleton, UInt8.ofNat_add,
          ← hqueue.index]
        rfl
      · rw [hscope]
        exact fun _ => hactive

/-- A pop takes the oldest frame. -/
theorem Acquired.pop (h : r.Valid) (hqueue : r.Acquired slot queued) (hcount : r.scope.count ≠ 0) :
    ∃ frame rest, queued = frame :: rest ∧ frame.length = r.scope.frame_size ∧
      r.scope.pop.2 = some ⟨frame, frame.length⟩ ∧
      (r.exec .pop).Acquired ((slot + 1) % r.scope.queue_frames) rest := by
  cases queued with
  | nil => exact absurd hqueue.count hcount
  | cons frame rest =>
    obtain ⟨hframe, hholds⟩ := hqueue.holds.pop
    obtain ⟨hframes, hsize⟩ := h.queue_frames_pos hqueue
    have hlength : frame.length = r.scope.frame_size := by
      rw [← hframe, Memory.length_slice]
    have hsmall : r.scope.frame_size % 2 ^ 16 = r.scope.frame_size := by
      have hbound := hqueue.bank.payload_size_le
      rw [← hqueue.frame_size] at hbound
      unfold frameMax at hbound
      exact Nat.mod_eq_of_lt (by omega)
    have hcount' : r.scope.count = rest.length + 1 := hqueue.count
    have hpop : r.scope.pop.2 = some ⟨frame, frame.length⟩ := by
      unfold Scope.pop
      rw [if_neg hcount, hsmall, hqueue.head, hframe, hlength]
    refine ⟨frame, rest, rfl, hlength, hpop, ?_⟩
    unfold exec
    dsimp only
    rw [hpop]
    unfold Scope.pop
    rw [if_neg hcount]
    refine ⟨hqueue.bank, hqueue.frame_size, hqueue.queue_frames, hqueue.queue_limit, ?_, ?_, ?_,
      hholds, ?_, fun frame' hin => ?_, hqueue.index, fun hbusy => hqueue.active ?_⟩
    · dsimp only
      rw [hqueue.head, hqueue.queue_limit, Memory.next_slot hsize hqueue.holds.head_lt]
    · dsimp only
      rw [hqueue.tail, hcount', Nat.add_sub_cancel, Nat.mod_add_mod, Nat.add_assoc,
        Nat.add_comm 1 rest.length]
    · dsimp only
      rw [hcount', Nat.add_sub_cancel]
    · show r.sampled = (r.popped ++ [(⟨frame, frame.length⟩ : Frame)]).map Frame.data ++ rest
      rw [hqueue.sampled, List.map_append, List.append_assoc]
      rfl
    · rcases List.mem_append.mp hin with hin | hin
      · exact hqueue.sizes frame' hin
      · rw [List.mem_singleton.mp hin]
    · exact Or.inr hcount

theorem Valid.pop (h : r.Valid) : (r.exec .pop).Valid := by
  by_cases hcount : r.scope.count = 0
  · have hpop : r.scope.pop = (r.scope, none) := if_pos hcount
    have hsame : r.exec .pop = r := by
      unfold exec
      dsimp only
      rw [hpop]
      exact congrArg (fun popped => ({ r with popped := popped } : Run)) (List.append_nil _)
    rw [hsame]
    exact h
  · rcases h.queue with hidle | ⟨slot, queued, hqueue⟩
    · exact absurd hidle.count hcount
    · obtain ⟨frame, rest, -, -, -, hnext⟩ := hqueue.pop h hcount
      have hpop : r.scope.pop.1.p_active = r.scope.p_active ∧
          r.scope.pop.1.p_config = r.scope.p_config ∧
          r.scope.pop.1.queue_capacity = r.scope.queue_capacity := by
        unfold Scope.pop
        rw [if_neg hcount]
        exact ⟨rfl, rfl, rfl⟩
      refine ⟨?_, ?_, ?_, Or.inr ⟨_, rest, hnext⟩⟩
      · show r.scope.pop.1.p_active.Ready
        rw [hpop.1]
        exact h.active
      · show r.scope.pop.1.p_config.Ready
        rw [hpop.2.1]
        exact h.config
      · show frameMax ≤ r.scope.pop.1.queue_capacity
        rw [hpop.2.2]
        exact h.capacity

/-- **Every call** keeps the sampler in order. -/
theorem Valid.exec (h : r.Valid) (call : Call) : (r.exec call).Valid := by
  cases call with
  | set channel p_address type => exact h.set channel p_address type
  | clear => exact h.clear
  | swap => exact h.swap
  | start => exact h.start
  | stop => exact h.stop
  | sample bus => exact h.sample bus
  | pop => exact h.pop

theorem valid_start {p_scope : Option Scope} {p_queue : Option (Memory UInt8)} {capacity : ℕ}
    {scope : Scope} (h : Scope.init p_scope p_queue capacity = some scope) :
    (start scope).Valid := by
  unfold Scope.init at h
  split at h
  · split at h
    · exact nomatch h
    · next hcapacity =>
      obtain rfl := Option.some.inj h
      exact ⟨Bank.ready_zero, Bank.ready_zero, Nat.le_of_not_lt (not_or.mp hcapacity).1,
        Or.inl ⟨⟨Nat.zero_le _, Or.inl ⟨rfl, rfl, rfl⟩⟩, rfl, rfl, rfl, rfl⟩⟩
  · exact nomatch h

theorem Valid.foldl (h : r.Valid) (calls : List Call) : (calls.foldl Run.exec r).Valid := by
  induction calls generalizing r with
  | nil => exact h
  | cons call calls ih => exact ih (h.exec call)

/-! ## Fidelity -/

/-- What the queue promises. -/
structure Faithful (r : Run) : Prop where
  /-- the frames popped are the first ones sampled, and the others are queued -/
  popped : r.popped.map Frame.data = r.sampled.take r.popped.length
  pending : r.sampled.length = r.popped.length + r.scope.count
  sizes : ∀ frame ∈ r.popped, frame.size = frame.data.length
  /-- a frame can be popped whenever one is queued, and it is the next one -/
  next : r.scope.count ≠ 0 → ∃ frame, r.scope.pop.2 = some frame ∧
    r.sampled[r.popped.length]? = some frame.data
  /-- what is sampled is the active bank -/
  bank : r.scope.running = true ∨ r.scope.count ≠ 0 →
    r.scope.p_active = r.bank ∧ r.bank.Ready ∧ r.scope.frame_size = r.bank.payload_size + 5
  placed : Placed r.scope
  full : ∀ bus, r.scope.running = true → r.scope.queue_frames ≤ r.scope.count →
    (r.exec (.sample bus)).scope.running = false ∧ (r.exec (.sample bus)).sampled = r.sampled ∧
      (r.exec (.sample bus)).scope.count = r.scope.count ∧
      (r.exec (.sample bus)).scope.head = r.scope.head ∧
      (r.exec (.sample bus)).scope.p_queue = r.scope.p_queue
  /-- the calls on the other bank -/
  set : ∀ channel p_address type, (r.scope.set channel p_address type).1.p_active =
    r.scope.p_active ∧
    (r.scope.set channel p_address type).1.frame_size = r.scope.frame_size
  clear : r.scope.clear.p_active = r.scope.p_active ∧ r.scope.clear.frame_size = r.scope.frame_size
  swap : r.scope.running = true ∨ r.scope.count ≠ 0 → r.scope.swap = (r.scope, false)

theorem Valid.faithful (h : r.Valid) : r.Faithful := by
  have hset (channel : UInt8) (p_address : Option ℕ) (type : UInt32) :
      (r.scope.set channel p_address type).1.p_active = r.scope.p_active ∧
        (r.scope.set channel p_address type).1.frame_size = r.scope.frame_size := by
    unfold Scope.set
    split <;> exact ⟨rfl, rfl⟩
  have hswap (hbusy : r.scope.running = true ∨ r.scope.count ≠ 0) :
      r.scope.swap = (r.scope, false) := if_pos (or_assoc.mp (Or.inl hbusy))
  rcases h.queue with hidle | ⟨slot, queued, hqueue⟩
  · have hsampled : r.sampled = [] := by
      unfold sampled
      rw [hidle.buses]
      rfl
    refine ⟨?_, ?_, ?_, fun hne => absurd hidle.count hne, fun hbusy => ?_, hidle.placed, ?_, hset,
      ⟨rfl, rfl⟩, hswap⟩
    · rw [hidle.popped, hsampled]
      rfl
    · rw [hidle.popped, hsampled, hidle.count]
      rfl
    · rw [hidle.popped]
      exact fun _ hin => absurd hin List.not_mem_nil
    · rcases hbusy with hrunning | hne
      · exact nomatch hidle.running.symm.trans hrunning
      · exact absurd hidle.count hne
    · exact fun _ hrunning => nomatch hidle.running.symm.trans hrunning
  · refine ⟨?_, ?_, hqueue.sizes, fun hne => ?_,
      fun hbusy => ⟨hqueue.active hbusy, hqueue.bank, hqueue.frame_size⟩, h.placed hqueue,
      fun bus hrunning hfull' => ?_, hset, ⟨rfl, rfl⟩, hswap⟩
    · rw [hqueue.sampled, List.take_left' (List.length_map _)]
    · rw [hqueue.sampled, List.length_append, List.length_map, hqueue.count]
    · obtain ⟨frame, rest, hqueued, -, hpop, -⟩ := hqueue.pop h hne
      refine ⟨_, hpop, ?_⟩
      rw [hqueue.sampled, hqueued, List.getElem?_append_right (by rw [List.length_map]),
        List.length_map, Nat.sub_self]
      rfl
    · rw [exec_sample_full bus hrunning hfull']
      exact ⟨rfl, rfl, rfl, rfl, rfl⟩

end Run

/-- **Fidelity** of the queue over every run of calls. -/
theorem realtime_scope_queue_faithful {p_scope : Option Scope} {p_queue : Option (Memory UInt8)}
    {capacity : ℕ} {scope : Scope} (h : Scope.init p_scope p_queue capacity = some scope)
    (calls : List Call) : (calls.foldl Run.exec (Run.start scope)).Faithful :=
  ((Run.valid_start h).foldl calls).faithful

/-- An empty frame buffer. -/
def demoScope : Scope := ⟨.zero, .zero, fun _ => 0, 300, 0, 0, 0, 0, 0, 0, 0, 0, 0, 0, 0, false⟩

/-- One channel of two bytes is sampled once and popped. -/
def demoCalls : List Call :=
  [.set 3 (some 100) 4, .swap, .start, .sample fun _ address => UInt8.ofNat address, .pop]

theorem demoScope_faithful : (demoCalls.foldl Run.exec (Run.start demoScope)).Faithful := by
  have hinit : Scope.init (some demoScope) (some fun _ => 0) 300 = some demoScope := rfl
  exact realtime_scope_queue_faithful hinit demoCalls

example : (demoCalls.foldl Run.exec (Run.start demoScope)).popped.map Frame.data =
    [[0xEA, 0, 100, 101, 2, 0, 181]] := by decide +kernel

end Atoman.RealtimeScope
