import Atoman.Lib.Memory
import Atoman.Lib.SpanRing
import Mathlib.Logic.Function.Basic

/-!
# Resident task groups

`srtos_stl` keeps the tasks of loaded groups in a table of its own. A handle names one
incarnation of a group: the identity that the loader chose, and a generation that no
other incarnation has.

What the port and the host decide is given: per build, which words are a frame and what
`section_stl_port_prepare` leaves on the stack; per call, the answers of the port's
queries and of the two host hooks. A stack pointer is the index of a word of the runtime
stack; a pointer that is not a word's takes the branch of one outside the stack.
-/

namespace Atoman.SectionStl

/-- `SECTION_STL_STATUS_E` -/
inductive Status
  | ok | badArgument | badState | stale | busy | noCapacity | poolFull | generationExhausted
  | badContext | corrupt
deriving DecidableEq

/-- `SECTION_STL_GROUP_STATE_E` -/
inductive GroupState
  | disabled | enabled | paused | revoking | revoked
deriving DecidableEq

namespace GroupState

/-- The value of the enumerator. -/
def val : GroupState → ℕ
  | disabled => 0
  | enabled => 1
  | paused => 2
  | revoking => 3
  | revoked => 4

instance : LE GroupState := ⟨fun a b => a.val ≤ b.val⟩

instance (a b : GroupState) : Decidable (a ≤ b) := inferInstanceAs (Decidable (a.val ≤ b.val))

end GroupState

/-- `TASK_STATE_E` -/
inductive TaskState
  | free | sleeping | new | old | running
deriving DecidableEq

/-- `section_stl_handle_t` -/
structure Handle where
  group_id : UInt32
  generation : UInt32
deriving DecidableEq

/-- `(section_stl_handle_t){0}` -/
def Handle.zero : Handle := ⟨0, 0⟩

/-- `STL_HALF` -/
def stlHalf : UInt32 := 0x80000000

/-- `STL_GUARD` -/
def stlGuard : UInt32 := 0x73A54C91

/-- `STL_GUARD_WORDS` -/
def stlGuardWords : ℕ := 2

/-- What the build fixes, with the static assertions. -/
structure Config where
  /-- `SECTION_STL_MAX_GROUPS` -/
  max_groups : ℕ
  /-- `SECTION_STL_MAX_TASKS` -/
  max_tasks : ℕ
  /-- `SECTION_STL_MAX_RECORDS` -/
  max_records : ℕ
  /-- `SECTION_STL_POOL_WORDS` -/
  pool_words : ℕ
  /-- `SECTION_STL_STACK_WORDS` -/
  stack_words : ℕ
  /-- `SECTION_STL_SLICE_TICKS` -/
  slice_ticks : UInt32
  /-- `SECTION_STL_MAX_REGISTRATIONS` -/
  max_registrations : ℕ
  max_groups_pos : 0 < max_groups
  max_tasks_pos : 0 < max_tasks
  max_records_pos : 0 < max_records
  pool_words_pos : 0 < pool_words
  stack_words_min : 32 ≤ stack_words
  stack_words_even : stack_words % 2 = 0
  slice_ticks_pos : 0 < slice_ticks
  slice_ticks_lt : slice_ticks < stlHalf
  /-- `section_stl_port_frame_valid`, of the words at a word-aligned stack pointer -/
  frame_valid : List UInt32 → Bool
  /-- the words that `section_stl_port_prepare` leaves at the top of the stack, unless it
  answers `NULL` -/
  initial_frame : Option (List UInt32)

/-- The answers of the port and the host to one call. -/
structure Port where
  /-- `section_stl_port_api_allowed` -/
  api_allowed : Bool
  /-- `section_stl_port_in_handler` -/
  in_handler : Bool
  /-- `section_stl_port_active` -/
  active : Bool
  /-- `section_stl_port_inline_allowed` -/
  inline_allowed : Bool
  /-- `section_stl_host_switch_allowed` -/
  host_switch_allowed : Bool
  /-- `section_stl_host_owner_commit` -/
  host_owner_commit : Handle → Bool

/-- `native_context` -/
def Port.nativeContext (port : Port) : Bool := !port.in_handler && !port.active

/-! ## The Cortex-M port -/

namespace CortexM

/-- `SECTION_STL_M_EXC_BASIC` and `SECTION_STL_M_EXC_FP`, and whether there is a unit for
floating point. -/
structure Build where
  exc_basic : UInt32
  exc_fp : UInt32
  fp : Bool
  /-- the address of `section_stl_entry` -/
  entry : UInt32

/-- `SECTION_STL_M_BASIC_WORDS` -/
def basicWords : ℕ := 17

/-- `SECTION_STL_M_EXTENDED_WORDS` -/
def extendedWords : ℕ := 51

/-- `section_stl_port_frame_valid` -/
def frameValid (build : Build) (frame : List UInt32) : Bool :=
  let check (required xpsr_index : ℕ) : Bool :=
    if frame.length < required then false
    else
      let xpsr := frame.getD xpsr_index 0
      let required := if xpsr &&& 0x200 ≠ 0 then required + 1 else required
      let pc := frame.getD (xpsr_index - 1) 0
      !(decide (frame.length < required) || xpsr &&& 0x01000000 == 0 || xpsr &&& 0x1FF != 0 ||
        pc == 0 || pc &&& 1 != 0)
  if frame.length < basicWords then false
  else if frame.getD 8 0 ≠ build.exc_basic then
    if build.fp = false ∨ frame.getD 8 0 ≠ build.exc_fp then false else check extendedWords 32
  else check basicWords 16

/-- `section_stl_port_prepare`, for the entry of the core and the stack of the core, which
holds the frame and is aligned to eight bytes -/
def prepare (build : Build) : Option (List UInt32) :=
  if build.entry &&& 1 = 0 ∨ build.entry &&& 0xFFFFFFFE = 0 then none
  else some (List.replicate 8 0 ++ [build.exc_basic] ++ List.replicate 5 0 ++
    [0xFFFFFFFF, build.entry &&& 0xFFFFFFFE, 0x01000000])

/-- The frame of a new task passes the check. -/
theorem frameValid_prepare {build : Build} {frame : List UInt32} (h : prepare build = some frame) :
    frameValid build frame = true := by
  unfold prepare at h
  split at h
  · exact nomatch h
  · next hentry =>
    obtain rfl := Option.some.inj h
    rw [not_or] at hentry
    have hthumb : build.entry &&& 0xFFFFFFFE &&& 1 = 0 := by
      rw [UInt32.and_assoc]
      exact UInt32.and_zero
    simp [frameValid, basicWords, List.replicate, hentry.2, hthumb]
    decide

end CortexM
end Atoman.SectionStl

/-!
## Snapshot records

A snapshot is a record in a ring of records and a span of words in a ring of words. It
is consumed when it is restored or cancelled, in any order; a consumed record keeps its
span until every older one is consumed too.
-/

namespace Atoman.SectionStl
open Lib (Laid Memory Span ringSlots totalCharge)

/-- `snapshot_record_t` -/
structure Record where
  owner : Handle
  task_index : ℕ
  offset : ℕ
  words : ℕ
  charge : ℕ
  consumed : Bool

namespace Record

/-- A cleared record. -/
def zero : Record := ⟨.zero, 0, 0, 0, 0, false⟩

def span (record : Record) : Span := ⟨record.offset, record.words, record.charge⟩

end Record

/-- `records`, `pool`, their positions and counters, and what the code does not keep: the
stack pointer and the words that each record's save took. -/
structure Ring where
  records : ℕ → Record
  record_head : ℕ
  record_tail : ℕ
  record_count : ℕ
  pool_head : ℕ
  pool_tail : ℕ
  pool_used : ℕ
  pool : Memory UInt32
  saves : UInt32
  restores : UInt32
  discarded : UInt32
  pool_full : UInt32
  captured : ℕ → ℕ × List UInt32

namespace Ring

/-- The records in use, the oldest first. -/
def live (cfg : Config) (ring : Ring) : List ℕ :=
  ringSlots cfg.max_records ring.record_head ring.record_count

/-- `group_records` -/
def groupRecords (cfg : Config) (ring : Ring) (handle : Handle) : ℕ :=
  (ring.live cfg).countP fun r => (ring.records r).owner = handle

/-- Take the oldest record. -/
def release (cfg : Config) (ring : Ring) : Ring :=
  { ring with
    pool_head := ((ring.records ring.record_head).offset +
      (ring.records ring.record_head).words) % cfg.pool_words
    pool_used := ring.pool_used - (ring.records ring.record_head).charge
    records := Function.update ring.records ring.record_head .zero
    record_head := (ring.record_head + 1) % cfg.max_records
    record_count := ring.record_count - 1 }

/-- The loop of `records_reap`, with whether it gave up on a corrupt record. -/
def reapLoop (cfg : Config) : ℕ → Ring → Ring × Bool
  | 0, ring => (ring, false)
  | n + 1, ring =>
    let record := ring.records ring.record_head
    if record.consumed = false then (ring, false)
    else if ring.pool_used < record.charge ∨ cfg.pool_words < record.words ∨
        cfg.pool_words - record.words < record.offset then (ring, true)
    else reapLoop cfg n (ring.release cfg)

/-- `records_reap`, with whether the accounting is corrupt. -/
def reap (cfg : Config) (ring : Ring) : Ring × Bool :=
  match ring.reapLoop cfg ring.record_count with
  | (ring, true) => (ring, true)
  | (ring, false) =>
    if ring.record_count = 0 then
      ({ ring with pool_head := 0, pool_tail := 0 }, decide (ring.pool_used ≠ 0))
    else (ring, false)

/-- The part of `snapshot_save` that looks for a place: the offset and the gap. -/
def place (cfg : Config) (ring : Ring) (words : ℕ) : Option (ℕ × ℕ) :=
  if ring.record_count = cfg.max_records ∨ cfg.pool_words - ring.pool_used < words then none
  else if ring.pool_head ≤ ring.pool_tail then
    if cfg.pool_words - ring.pool_tail < words then
      let gap := cfg.pool_words - ring.pool_tail
      if ring.pool_head < words ∨ cfg.pool_words - ring.pool_used - words < gap then none
      else some (0, gap)
    else some (ring.pool_tail, 0)
  else if ring.pool_head - ring.pool_tail < words then none
  else some (ring.pool_tail, 0)

/-- The part of `snapshot_save` that publishes a record. -/
def append (cfg : Config) (ring : Ring) (owner : Handle) (task_index offset gap sp : ℕ)
    (data : List UInt32) : Ring :=
  { ring with
    records := Function.update ring.records ring.record_tail
      ⟨owner, task_index, offset, data.length, data.length + gap, false⟩
    pool := ring.pool.write offset data
    record_tail := (ring.record_tail + 1) % cfg.max_records
    pool_tail := (offset + data.length) % cfg.pool_words
    pool_used := ring.pool_used + (data.length + gap)
    record_count := ring.record_count + 1
    saves := ring.saves + 1
    captured := Function.update ring.captured ring.record_tail (sp, data) }

/-- Set `consumed` of one record. -/
def consume (ring : Ring) (r : ℕ) : Ring :=
  { ring with
    records := Function.update ring.records r { ring.records r with consumed := true } }

/-- The loop of `group_cancel` over the records. -/
def discard (cfg : Config) (ring : Ring) (handle : Handle) : Ring :=
  (ring.live cfg).foldl
    (fun ring r =>
      if (ring.records r).owner = handle ∧ (ring.records r).consumed = false then
        { ring.consume r with discarded := ring.discarded + 1 }
      else ring) ring

/-! ## Validity -/

/-- The words of a record that is not consumed are those its save took from the stack. -/
structure Intact (cfg : Config) (ring : Ring) (r : ℕ) : Prop where
  words : ring.pool.slice (ring.records r).offset (ring.records r).words = (ring.captured r).2
  origin : (ring.captured r).1 + (ring.records r).words = cfg.stack_words
  above_guard : stlGuardWords ≤ (ring.captured r).1
  frame_valid : cfg.frame_valid (ring.captured r).2 = true

/-- The accounts of the two rings agree. -/
structure Valid (cfg : Config) (ring : Ring) : Prop where
  record_head_lt : ring.record_head < cfg.max_records
  record_tail_eq : ring.record_tail = (ring.record_head + ring.record_count) % cfg.max_records
  record_count_le : ring.record_count ≤ cfg.max_records
  pool_head_lt : ring.pool_head < cfg.pool_words
  laid : Laid cfg.pool_words ring.pool_head
    ((ring.live cfg).map fun r => (ring.records r).span) ring.pool_tail
  pool_used_eq : ring.pool_used =
    totalCharge ((ring.live cfg).map fun r => (ring.records r).span)
  pool_used_le : ring.pool_used ≤ cfg.pool_words
  intact : ∀ r ∈ ring.live cfg, (ring.records r).consumed = false → ring.Intact cfg r

variable {cfg : Config} {ring ring' : Ring}

/-- The oldest record. -/
theorem live_succ {n : ℕ} (hhead : ring.record_head < cfg.max_records)
    (hcount : ring.record_count = n + 1) : ring.live cfg =
      ring.record_head :: ringSlots cfg.max_records
        ((ring.record_head + 1) % cfg.max_records) n := by
  rw [live, hcount, Lib.ringSlots_succ, Nat.mod_eq_of_lt hhead]

theorem Intact.of_eq {r : ℕ} (h : ring.Intact cfg r) (hrecord : ring'.records r = ring.records r)
    (hpool : ring'.pool = ring.pool) (hcaptured : ring'.captured r = ring.captured r) :
    ring'.Intact cfg r := by
  obtain ⟨hwords, horigin, hguard, hframe⟩ := h
  constructor
  · rw [hrecord, hpool, hcaptured]
    exact hwords
  · rw [hrecord, hcaptured]
    exact horigin
  · rw [hcaptured]
    exact hguard
  · rw [hcaptured]
    exact hframe

namespace Valid

theorem nodup (h : ring.Valid cfg) : (ring.live cfg).Nodup := Lib.nodup_ringSlots h.record_count_le

theorem lt_of_live {r : ℕ} (hr : r ∈ ring.live cfg) : r < cfg.max_records :=
  Lib.lt_of_mem_ringSlots cfg.max_records_pos hr

/-- The spans of different records are apart. -/
theorem apart (h : ring.Valid cfg) : (ring.live cfg).Pairwise fun r r' =>
    (ring.records r).span.Apart (ring.records r').span := by
  have hpair := h.laid.pairwise_apart h.pool_head_lt (h.pool_used_eq ▸ h.pool_used_le)
  rwa [List.pairwise_map] at hpair

/-- A span is not empty and lies in the pool. -/
theorem range (h : ring.Valid cfg) {r : ℕ} (hr : r ∈ ring.live cfg) :
    0 < (ring.records r).words ∧ (ring.records r).offset + (ring.records r).words ≤
      cfg.pool_words :=
  h.laid.pos (List.mem_map_of_mem hr)

/-- The rings depend on the records in use, the words of the pool and the positions. -/
theorem of_eq (h : ring.Valid cfg) (hhead : ring'.record_head = ring.record_head)
    (htail : ring'.record_tail = ring.record_tail)
    (hcount : ring'.record_count = ring.record_count)
    (hpool_head : ring'.pool_head = ring.pool_head)
    (hpool_tail : ring'.pool_tail = ring.pool_tail) (hused : ring'.pool_used = ring.pool_used)
    (hspan : ∀ r ∈ ring.live cfg, (ring'.records r).span = (ring.records r).span)
    (hintact : ∀ r ∈ ring.live cfg, (ring'.records r).consumed = false → ring'.Intact cfg r) :
    ring'.Valid cfg := by
  have hlive : ring'.live cfg = ring.live cfg := by rw [live, live, hhead, hcount]
  have hspans : ((ring'.live cfg).map fun r => (ring'.records r).span) =
      (ring.live cfg).map fun r => (ring.records r).span := by
    rw [hlive]
    exact List.map_congr_left hspan
  constructor
  · rw [hhead]
    exact h.record_head_lt
  · rw [hhead, htail, hcount]
    exact h.record_tail_eq
  · rw [hcount]
    exact h.record_count_le
  · rw [hpool_head]
    exact h.pool_head_lt
  · rw [hspans, hpool_head, hpool_tail]
    exact h.laid
  · rw [hspans, hused]
    exact h.pool_used_eq
  · rw [hused]
    exact h.pool_used_le
  · rw [hlive]
    exact hintact

end Valid

/-! ## Reclamation -/

/-- The oldest record is still to be restored. -/
def Swept (cfg : Config) (ring : Ring) : Prop :=
  ∀ r, (ring.live cfg).head? = some r → (ring.records r).consumed = false

/-- What reclaiming does: the oldest consumed records are gone, and nothing else is. -/
structure Reaped (cfg : Config) (ring ring' : Ring) : Prop where
  valid : ring'.Valid cfg
  live : ∃ gone, ring.live cfg = gone ++ ring'.live cfg ∧
    ∀ r ∈ gone, (ring.records r).consumed = true
  swept : ring'.Swept cfg
  records : ∀ r ∈ ring'.live cfg, ring'.records r = ring.records r
  pool : ring'.pool = ring.pool
  captured : ring'.captured = ring.captured
  record_tail : ring'.record_tail = ring.record_tail
  saves : ring'.saves = ring.saves
  restores : ring'.restores = ring.restores
  discarded : ring'.discarded = ring.discarded
  pool_full : ring'.pool_full = ring.pool_full

/-- The records in use after the oldest one is gone. -/
theorem Valid.live_release (h : ring.Valid cfg) {n : ℕ} (hcount : ring.record_count = n + 1) :
    ring.live cfg = ring.record_head :: (ring.release cfg).live cfg := by
  rw [live_succ h.record_head_lt hcount, live, release, hcount]
  rfl

/-- The other records stay. -/
theorem Valid.records_release (h : ring.Valid cfg) {n : ℕ} (hcount : ring.record_count = n + 1)
    {r : ℕ} (hr : r ∈ (ring.release cfg).live cfg) :
    (ring.release cfg).records r = ring.records r := by
  have hnodup := h.nodup
  rw [h.live_release hcount, List.nodup_cons] at hnodup
  have hne : r ≠ ring.record_head := fun heq => hnodup.1 (heq ▸ hr)
  exact Function.update_of_ne hne _ _

theorem Valid.release (h : ring.Valid cfg) {n : ℕ} (hcount : ring.record_count = n + 1) :
    (ring.release cfg).Valid cfg := by
  have hlive := h.live_release hcount
  have hspans : (((ring.release cfg).live cfg).map fun r => ((ring.release cfg).records r).span) =
      ((ring.release cfg).live cfg).map fun r => (ring.records r).span := by
    refine List.map_congr_left fun r hr => ?_
    rw [h.records_release hcount hr]
  have hlaid := h.laid
  have hused := h.pool_used_eq
  have hle := h.pool_used_le
  have hmax := h.record_count_le
  rw [hlive, List.map_cons] at hlaid hused
  rw [Lib.totalCharge_cons] at hused
  constructor
  · exact Nat.mod_lt _ cfg.max_records_pos
  · show ring.record_tail =
      ((ring.record_head + 1) % cfg.max_records + (ring.record_count - 1)) % cfg.max_records
    rw [h.record_tail_eq, hcount, Nat.add_sub_cancel, Nat.mod_add_mod, Nat.add_assoc,
      Nat.add_comm 1 n]
  · show ring.record_count - 1 ≤ _
    omega
  · exact Nat.mod_lt _ cfg.pool_words_pos
  · rw [hspans]
    exact hlaid.2
  · rw [hspans]
    show ring.pool_used - (ring.records ring.record_head).charge = _
    rw [hused]
    exact Nat.add_sub_cancel_left _ _
  · show ring.pool_used - _ ≤ _
    omega
  · intro r hr hconsumed
    have hsame := h.records_release hcount hr
    rw [hsame] at hconsumed
    have hold := h.intact r (by rw [hlive]; exact List.mem_cons_of_mem _ hr) hconsumed
    exact hold.of_eq hsame rfl rfl

/-- The checks of `records_reap` pass. -/
theorem Valid.accounted (h : ring.Valid cfg) {n : ℕ} (hcount : ring.record_count = n + 1) :
    ¬ (ring.pool_used < (ring.records ring.record_head).charge ∨
      cfg.pool_words < (ring.records ring.record_head).words ∨
      cfg.pool_words - (ring.records ring.record_head).words <
        (ring.records ring.record_head).offset) := by
  have hlive := h.live_release hcount
  have hrange := h.range (r := ring.record_head) (by rw [hlive]; exact List.mem_cons_self)
  have hused := h.pool_used_eq
  rw [hlive, List.map_cons, Lib.totalCharge_cons] at hused
  have hcharge : (ring.records ring.record_head).charge ≤ ring.pool_used := by
    rw [hused]
    exact Nat.le_add_right _ _
  omega

theorem reaped_refl (h : ring.Valid cfg) (hswept : ring.Swept cfg) : Reaped cfg ring ring :=
  ⟨h, ⟨[], rfl, fun _ hr => absurd hr List.not_mem_nil⟩, hswept, fun _ _ => rfl, rfl, rfl, rfl, rfl,
    rfl, rfl, rfl⟩

/-- One record more is gone. -/
theorem Reaped.step (h : ring.Valid cfg) {n : ℕ} (hcount : ring.record_count = n + 1)
    (hconsumed : (ring.records ring.record_head).consumed = true)
    (hrest : Reaped cfg (ring.release cfg) ring') : Reaped cfg ring ring' := by
  obtain ⟨gone, hlive, hgone⟩ := hrest.live
  have hsame {r : ℕ} (hr : r ∈ gone ++ ring'.live cfg) :
      (ring.release cfg).records r = ring.records r := h.records_release hcount (hlive ▸ hr)
  refine ⟨hrest.valid, ⟨ring.record_head :: gone, ?_, ?_⟩, hrest.swept, ?_, hrest.pool,
    hrest.captured, hrest.record_tail, hrest.saves, hrest.restores, hrest.discarded,
    hrest.pool_full⟩
  · rw [h.live_release hcount, hlive, List.cons_append]
  · intro r hr
    rcases List.mem_cons.mp hr with rfl | hr
    · exact hconsumed
    · rw [← hsame (List.mem_append_left _ hr)]
      exact hgone r hr
  · intro r hr
    rw [hrest.records r hr, hsame (List.mem_append_right _ hr)]

theorem Valid.reapLoop {n : ℕ} (h : ring.Valid cfg) (hcount : ring.record_count = n) :
    (ring.reapLoop cfg n).2 = false ∧ Reaped cfg ring (ring.reapLoop cfg n).1 := by
  induction n generalizing ring with
  | zero =>
    refine ⟨rfl, reaped_refl h fun r hr => ?_⟩
    rw [live, hcount] at hr
    exact nomatch hr
  | succ n ih =>
    rw [Ring.reapLoop]
    by_cases hconsumed : (ring.records ring.record_head).consumed = false
    · rw [if_pos hconsumed]
      refine ⟨rfl, reaped_refl h fun r hr => ?_⟩
      rw [h.live_release hcount, List.head?_cons] at hr
      rwa [← Option.some.inj hr]
    · rw [if_neg hconsumed, if_neg (h.accounted hcount)]
      have hrelease : (ring.release cfg).record_count = n := by
        show ring.record_count - 1 = n
        rw [hcount, Nat.add_sub_cancel]
      obtain ⟨hok, hreaped⟩ := ih (h.release hcount) hrelease
      exact ⟨hok, .step h hcount (Bool.not_eq_false _ ▸ hconsumed) hreaped⟩

/-- An empty ring starts over at word zero. -/
theorem Reaped.rewind (h : Reaped cfg ring ring') (hcount : ring'.record_count = 0) :
    ring'.pool_used = 0 ∧ Reaped cfg ring { ring' with pool_head := 0, pool_tail := 0 } := by
  have hlive : ring'.live cfg = [] := by
    rw [Ring.live, hcount]
    rfl
  have hused := h.valid.pool_used_eq
  rw [hlive] at hused
  refine ⟨hused, ⟨?_, h.live, h.swept, h.records, h.pool, h.captured, h.record_tail, h.saves,
    h.restores, h.discarded, h.pool_full⟩⟩
  obtain ⟨hhead, htail, hcount', hpool, hlaid, hused', hle, hintact⟩ := h.valid
  refine ⟨hhead, htail, hcount', cfg.pool_words_pos, ?_, hused', hle, ?_⟩
  · show Laid cfg.pool_words 0 ((ring'.live cfg).map _) 0
    rw [hlive]
    rfl
  · intro r hr
    exact absurd (hlive ▸ hr : r ∈ []) List.not_mem_nil

/-- **Reclaiming** finds the accounts in order and takes the oldest consumed records. -/
theorem Valid.reap (h : ring.Valid cfg) :
    (ring.reap cfg).2 = false ∧ Reaped cfg ring (ring.reap cfg).1 := by
  obtain ⟨hok, hreaped⟩ := h.reapLoop rfl
  unfold Ring.reap
  cases hloop : ring.reapLoop cfg ring.record_count with
  | mk ring' corrupt =>
    rw [hloop] at hok hreaped
    obtain rfl : corrupt = false := hok
    dsimp only at hreaped ⊢
    split
    · next hcount =>
      obtain ⟨hused, hrewound⟩ := hreaped.rewind hcount
      exact ⟨by rw [hused]; rfl, hrewound⟩
    · exact ⟨rfl, hreaped⟩

/-- The records that are still to be restored stay, and no others appear. -/
structure Keeps (cfg : Config) (ring ring' : Ring) : Prop where
  live : ∀ r ∈ ring'.live cfg, r ∈ ring.live cfg ∧ ring'.records r = ring.records r
  saved : ∀ r ∈ ring.live cfg, (ring.records r).consumed = false → r ∈ ring'.live cfg

theorem Reaped.keeps (h : Reaped cfg ring ring') : Keeps cfg ring ring' := by
  obtain ⟨gone, hlive, hgone⟩ := h.live
  constructor
  · intro r hr
    refine ⟨?_, h.records r hr⟩
    rw [hlive]
    exact List.mem_append_right _ hr
  · intro r hr hconsumed
    rw [hlive] at hr
    rcases List.mem_append.mp hr with hr | hr
    · exact nomatch (hgone r hr).symm.trans hconsumed
    · exact hr

/-! ## A new record -/

/-- A place that is found follows the last span, and the pool holds it. -/
theorem Valid.place (h : ring.Valid cfg) {words offset gap : ℕ} (hpos : 0 < words)
    (hplace : ring.place cfg words = some (offset, gap)) :
    ring.record_count < cfg.max_records ∧ ring.pool_used + (words + gap) ≤ cfg.pool_words ∧
      (Span.mk offset words (words + gap)).Follows cfg.pool_words ring.pool_tail := by
  unfold Ring.place at hplace
  by_cases hfull : ring.record_count = cfg.max_records ∨ cfg.pool_words - ring.pool_used < words
  · rw [if_pos hfull] at hplace
    exact nomatch hplace
  rw [if_neg hfull] at hplace
  have hcount := h.record_count_le
  have htail := h.laid.end_lt h.pool_head_lt
  have hdistance := h.laid.total_eq h.pool_head_lt
  rw [← h.pool_used_eq] at hdistance
  have hused := hdistance (by omega)
  by_cases hle : ring.pool_head ≤ ring.pool_tail
  · rw [if_pos hle] at hplace hused
    by_cases hshort : cfg.pool_words - ring.pool_tail < words
    · simp only [if_pos hshort] at hplace
      by_cases hno : ring.pool_head < words ∨
          cfg.pool_words - ring.pool_used - words < cfg.pool_words - ring.pool_tail
      · rw [if_pos hno] at hplace
        exact nomatch hplace
      · rw [if_neg hno] at hplace
        obtain ⟨rfl, rfl⟩ := Prod.mk.inj (Option.some.inj hplace)
        refine ⟨by omega, by omega, hpos, ?_, Or.inr ⟨rfl, Nat.add_comm _ _⟩⟩
        show 0 + words ≤ _
        omega
    · rw [if_neg hshort] at hplace
      obtain ⟨rfl, rfl⟩ := Prod.mk.inj (Option.some.inj hplace)
      refine ⟨by omega, by omega, hpos, ?_, Or.inl ⟨rfl, rfl⟩⟩
      show ring.pool_tail + words ≤ _
      omega
  · rw [if_neg hle] at hplace hused
    by_cases hno : ring.pool_head - ring.pool_tail < words
    · rw [if_pos hno] at hplace
      exact nomatch hplace
    · rw [if_neg hno] at hplace
      obtain ⟨rfl, rfl⟩ := Prod.mk.inj (Option.some.inj hplace)
      refine ⟨by omega, by omega, hpos, ?_, Or.inl ⟨rfl, rfl⟩⟩
      show ring.pool_tail + words ≤ _
      omega

section append
variable {owner : Handle} {t offset gap sp : ℕ} {data : List UInt32}

theorem Valid.live_append (h : ring.Valid cfg) :
    (ring.append cfg owner t offset gap sp data).live cfg =
      ring.live cfg ++ [ring.record_tail] := by
  rw [h.record_tail_eq]
  exact Lib.ringSlots_concat _ _ _

theorem Valid.record_tail_notMem (h : ring.Valid cfg)
    (hcount : ring.record_count < cfg.max_records) :
    ring.record_tail ∉ ring.live cfg := by
  rw [h.record_tail_eq]
  exact Lib.next_notMem_ringSlots hcount

/-- **A new record** takes nothing from the others. -/
theorem Valid.append (h : ring.Valid cfg) (hpos : 0 < data.length)
    (hplace : ring.place cfg data.length = some (offset, gap))
    (horigin : sp + data.length = cfg.stack_words) (hguard : stlGuardWords ≤ sp)
    (hframe : cfg.frame_valid data = true) :
    (ring.append cfg owner t offset gap sp data).Valid cfg := by
  obtain ⟨hcount, hroom, hfollows⟩ := h.place hpos hplace
  have htail := h.record_tail_notMem hcount
  have hself : (ring.append cfg owner t offset gap sp data).records ring.record_tail =
      ⟨owner, t, offset, data.length, data.length + gap, false⟩ := Function.update_self _ _ _
  have hother {r : ℕ} (hr : r ∈ ring.live cfg) :
      (ring.append cfg owner t offset gap sp data).records r = ring.records r := by
    have hne : r ≠ ring.record_tail := fun heq => htail (heq ▸ hr)
    exact Function.update_of_ne hne _ _
  have hspans : (((ring.append cfg owner t offset gap sp data).live cfg).map
      fun r => ((ring.append cfg owner t offset gap sp data).records r).span) =
      ((ring.live cfg).map fun r => (ring.records r).span) ++
        [⟨offset, data.length, data.length + gap⟩] := by
    rw [h.live_append, List.map_append, List.map_singleton, hself]
    refine congrArg (· ++ _) (List.map_congr_left fun r hr => ?_)
    rw [hother hr]
  have hlaid := h.laid.concat hfollows
  have htotal : totalCharge (((ring.live cfg).map fun r => (ring.records r).span) ++
      [⟨offset, data.length, data.length + gap⟩]) = ring.pool_used + (data.length + gap) := by
    rw [Lib.totalCharge_concat, ← h.pool_used_eq]
  have hpair := hlaid.pairwise_apart h.pool_head_lt (by rw [htotal]; exact hroom)
  constructor
  · exact h.record_head_lt
  · show (ring.record_tail + 1) % _ = (ring.record_head + (ring.record_count + 1)) % _
    rw [h.record_tail_eq, Nat.mod_add_mod, Nat.add_assoc]
  · exact hcount
  · exact h.pool_head_lt
  · rw [hspans]
    exact hlaid
  · rw [hspans]
    exact htotal.symm
  · exact hroom
  · intro r hr hconsumed
    rw [h.live_append] at hr
    rcases List.mem_append.mp hr with hr | hr
    · have hne : r ≠ ring.record_tail := fun heq => htail (heq ▸ hr)
      have hcaptured : (ring.append cfg owner t offset gap sp data).captured r = ring.captured r :=
        Function.update_of_ne hne _ _
      rw [hother hr] at hconsumed
      obtain ⟨hwords, horigin', hguard', hframe'⟩ := h.intact r hr hconsumed
      have hapart : (ring.records r).span.Apart ⟨offset, data.length, data.length + gap⟩ := by
        rw [List.pairwise_append] at hpair
        exact hpair.2.2 _ (List.mem_map_of_mem hr) _ (List.mem_singleton_self _)
      constructor
      · rw [hother hr, hcaptured, ← hwords]
        exact Memory.slice_write_disjoint _ _ hapart
      · rw [hother hr, hcaptured]
        exact horigin'
      · rw [hcaptured]
        exact hguard'
      · rw [hcaptured]
        exact hframe'
    · obtain rfl := List.mem_singleton.mp hr
      have hcaptured : (ring.append cfg owner t offset gap sp data).captured ring.record_tail =
          (sp, data) := Function.update_self _ _ _
      constructor
      · rw [hself, hcaptured]
        exact Memory.slice_write_self _ _ _
      · rw [hself, hcaptured]
        exact horigin
      · rw [hcaptured]
        exact hguard
      · rw [hcaptured]
        exact hframe

end append

/-! ## Consumed records -/

/-- Consuming keeps the spans. -/
theorem Valid.consume (h : ring.Valid cfg) (r : ℕ) : (ring.consume r).Valid cfg := by
  refine h.of_eq rfl rfl rfl rfl rfl rfl (fun u _ => ?_) fun u hu hconsumed => ?_
  · by_cases hur : u = r
    · subst hur
      show (Function.update ring.records u _ u).span = _
      rw [Function.update_self]
      rfl
    · show (Function.update ring.records r _ u).span = _
      rw [Function.update_of_ne hur]
  · have hur : u ≠ r := by
      rintro rfl
      have hself : (ring.consume u).records u = { ring.records u with consumed := true } :=
        Function.update_self _ _ _
      rw [hself] at hconsumed
      exact nomatch hconsumed
    have hsame : (ring.consume r).records u = ring.records u := Function.update_of_ne hur _ _
    rw [hsame] at hconsumed
    exact (h.intact u hu hconsumed).of_eq hsame rfl rfl

/-- The ring behind a restore: the record is consumed, and what can be reclaimed is. -/
def restored (cfg : Config) (ring : Ring) (r : ℕ) : Ring :=
  (reap cfg { ring.consume r with restores := ring.restores + 1 }).1

/-- What restoring does: one record is consumed, and nothing else is. -/
structure Restored (cfg : Config) (r : ℕ) (ring ring' : Ring) : Prop where
  valid : ring'.Valid cfg
  swept : ring'.Swept cfg
  live : ∀ u ∈ ring'.live cfg, u ∈ ring.live cfg ∧ (ring'.records u).owner = (ring.records u).owner
  saved : ∀ u ∈ ring'.live cfg, (ring'.records u).consumed = false →
    u ≠ r ∧ ring'.records u = ring.records u
  stay : ∀ u ∈ ring.live cfg, u ≠ r → (ring.records u).consumed = false →
    u ∈ ring'.live cfg ∧ ring'.records u = ring.records u

theorem Valid.consume_restores (h : ring.Valid cfg) (r : ℕ) :
    Ring.Valid cfg { ring.consume r with restores := ring.restores + 1 } :=
  (h.consume r).of_eq rfl rfl rfl rfl rfl rfl (fun _ _ => rfl)
    fun u hu hconsumed => ((h.consume r).intact u hu hconsumed).of_eq rfl rfl rfl

/-- **Restoring** finds the accounts in order. -/
theorem Valid.restored (h : ring.Valid cfg) (r : ℕ) :
    Restored cfg r ring (ring.restored cfg r) := by
  obtain ⟨-, hreap⟩ := (h.consume_restores r).reap
  have hself : (ring.consume r).records r = { ring.records r with consumed := true } :=
    Function.update_self _ _ _
  have hother {u : ℕ} (hu : u ≠ r) : (ring.consume r).records u = ring.records u :=
    Function.update_of_ne hu _ _
  refine ⟨hreap.valid, hreap.swept, fun u hu => ?_, fun u hu hconsumed => ?_,
    fun u hu hur hconsumed => ?_⟩
  · obtain ⟨hlive, hsame⟩ := hreap.keeps.live u hu
    refine ⟨hlive, (congrArg Record.owner hsame).trans ?_⟩
    show ((ring.consume r).records u).owner = _
    by_cases hur : u = r
    · rw [hur, hself]
    · rw [hother hur]
  · have hsame : (ring.restored cfg r).records u = (ring.consume r).records u :=
      (hreap.keeps.live u hu).2
    rw [hsame] at hconsumed ⊢
    have hur : u ≠ r := by
      rintro rfl
      rw [hself] at hconsumed
      exact nomatch hconsumed
    exact ⟨hur, hother hur⟩
  · have hlive := hreap.keeps.saved u hu ((congrArg Record.consumed (hother hur)).trans hconsumed)
    exact ⟨hlive, (hreap.keeps.live u hlive).2.trans (hother hur)⟩

/-- A record after its group is cancelled. -/
def cancelled (handle : Handle) (record : Record) : Record :=
  if record.owner = handle then { record with consumed := true } else record

/-- What cancelling a group does: its records are consumed, and nothing else is. -/
structure Discarded (cfg : Config) (handle : Handle) (rs : List ℕ) (ring ring' : Ring) : Prop where
  valid : ring'.Valid cfg
  live : ring'.live cfg = ring.live cfg
  records : ∀ r, ring'.records r =
    if r ∈ rs then cancelled handle (ring.records r) else ring.records r
  pool : ring'.pool = ring.pool
  captured : ring'.captured = ring.captured
  record_tail : ring'.record_tail = ring.record_tail

/-- One round of the loop of `group_cancel`. -/
theorem Valid.discard_step (h : ring.Valid cfg) (handle : Handle) (r : ℕ) :
    Discarded cfg handle [r] ring
      (if (ring.records r).owner = handle ∧ (ring.records r).consumed = false then
        { ring.consume r with discarded := ring.discarded + 1 }
      else ring) := by
  split
  · next hown =>
    have hconsume := h.consume r
    have hvalid : Ring.Valid cfg { ring.consume r with discarded := ring.discarded + 1 } :=
      hconsume.of_eq rfl rfl rfl rfl rfl rfl (fun _ _ => rfl)
        fun u hu hconsumed => (hconsume.intact u hu hconsumed).of_eq rfl rfl rfl
    refine ⟨hvalid, rfl, fun u => ?_, rfl, rfl, rfl⟩
    by_cases hu : u = r
    · subst hu
      rw [if_pos List.mem_cons_self, cancelled, if_pos hown.1]
      exact Function.update_self _ _ _
    · rw [if_neg (by simpa using hu)]
      exact Function.update_of_ne hu _ _
  · next hown =>
    refine ⟨h, rfl, fun u => ?_, rfl, rfl, rfl⟩
    by_cases hu : u = r
    · subst hu
      rw [if_pos List.mem_cons_self, cancelled]
      split
      · next howner =>
        have hconsumed : (ring.records u).consumed = true := by
          by_contra hnot
          exact hown ⟨howner, Bool.eq_false_iff.mpr hnot⟩
        rw [← hconsumed]
      · rfl
    · rw [if_neg (by simpa using hu)]

@[simp] theorem owner_cancelled (handle : Handle) (record : Record) :
    (cancelled handle record).owner = record.owner := by
  unfold cancelled
  split <;> rfl

/-- A record that is not consumed was not cancelled. -/
theorem cancelled_of_saved {handle : Handle} {record : Record}
    (h : (cancelled handle record).consumed = false) :
    record.owner ≠ handle ∧ cancelled handle record = record := by
  unfold cancelled at h ⊢
  split at h
  · exact nomatch h
  · next howner => exact ⟨howner, if_neg howner⟩

theorem cancelled_cancelled (handle : Handle) (record : Record) :
    cancelled handle (cancelled handle record) = cancelled handle record := by
  unfold cancelled
  by_cases howner : record.owner = handle
  · simp [howner]
  · simp [howner]

theorem Discarded.trans {ring'' : Ring} {handle : Handle} {rs rs' : List ℕ}
    (h : Discarded cfg handle rs ring ring') (h' : Discarded cfg handle rs' ring' ring'') :
    Discarded cfg handle (rs ++ rs') ring ring'' := by
  refine ⟨h'.valid, h'.live.trans h.live, fun r => ?_, h'.pool.trans h.pool,
    h'.captured.trans h.captured, h'.record_tail.trans h.record_tail⟩
  rw [h'.records, h.records]
  by_cases hr : r ∈ rs <;> by_cases hr' : r ∈ rs' <;> simp [hr, hr', cancelled_cancelled]

/-- **Cancelling** consumes the records of the group. -/
theorem Valid.discard (h : ring.Valid cfg) (handle : Handle) :
    Discarded cfg handle (ring.live cfg) ring (ring.discard cfg handle) := by
  unfold Ring.discard
  generalize ring.live cfg = rs
  induction rs generalizing ring with
  | nil => exact ⟨h, rfl, fun r => (if_neg List.not_mem_nil).symm, rfl, rfl, rfl⟩
  | cons r rs ih =>
    have hstep := h.discard_step handle r
    exact hstep.trans (ih hstep.valid)

end Ring
end Atoman.SectionStl
