import Atoman.Lib.Memory
import Atoman.RealtimeScope.Bank
import Mathlib.Data.UInt

/-!
# The sampler

`realtime_scope_t` with its two banks and its queue. Positions in the queue and the sum of
a frame stay far below `2 ^ 32` (`realtime_scope_init` bounds the capacity, a type the size
of a frame), and are natural numbers; the statistics wrap.

What a sample reads is given by a function of the number of the read and of the address,
since a variable may change from one read to the next.
-/

namespace Atoman.RealtimeScope
open Lib (Memory)

/-- `realtime_scope_frame_t` -/
structure Frame where
  data : List UInt8
  size : ℕ

/-- The bytes that the reads of one sample return. -/
abbrev Bus := ℕ → ℕ → UInt8

/-- `realtime_scope_t` -/
structure Scope where
  p_active : Bank
  p_config : Bank
  p_queue : Memory UInt8
  queue_capacity : ℕ
  frame_size : ℕ
  queue_frames : ℕ
  queue_limit : ℕ
  head : ℕ
  tail : ℕ
  count : ℕ
  samples : UInt32
  overflows : UInt32
  queue_high_water : ℕ
  dequeued : UInt32
  index : UInt8
  running : Bool

namespace Scope

/-- `realtime_scope_init` -/
def init (p_scope : Option Scope) (p_queue : Option (Memory UInt8)) (capacity : ℕ) : Option Scope :=
  match p_scope, p_queue with
  | some _, some queue =>
    if capacity < frameMax ∨ 0xFFFFFFFF / 2 < capacity then none
    else some ⟨.zero, .zero, queue, capacity, 0, 0, 0, 0, 0, 0, 0, 0, 0, 0, 0, false⟩
  | _, _ => none

/-- `realtime_scope_clear` -/
def clear (s : Scope) : Scope := { s with p_config := .zero }

/-- `realtime_scope_set` -/
def set (s : Scope) (channel : UInt8) (p_address : Option ℕ) (type : UInt32) : Scope × Bool :=
  match s.p_config.set channel p_address type with
  | none => (s, false)
  | some bank => ({ s with p_config := bank }, true)

/-- `realtime_scope_swap` -/
def swap (s : Scope) : Scope × Bool :=
  if s.running = true ∨ s.count ≠ 0 ∨ s.p_config.enabled = 0 then (s, false)
  else ({ s with p_active := s.p_config, p_config := s.p_active }, true)

/-- `realtime_scope_start` -/
def start (s : Scope) : Scope × Bool :=
  if s.running = true ∨ s.count ≠ 0 ∨ s.p_active.enabled = 0 then (s, false)
  else
    let frame_size := s.p_active.payload_size + 5
    let queue_frames := s.queue_capacity / frame_size
    ({ s with
      index := 0
      samples := 0
      overflows := 0
      queue_high_water := 0
      dequeued := 0
      frame_size := frame_size
      queue_frames := queue_frames
      queue_limit := queue_frames * frame_size
      head := 0
      tail := 0
      running := true }, true)

/-- `realtime_scope_stop` -/
def stop (s : Scope) : Scope := { s with running := false }

/-! ### Samples -/

/-- The local variables of `realtime_scope_sample`, with the number of reads so far. -/
structure Output where
  queue : Memory UInt8
  p_output : ℕ
  sum : ℕ
  reads : ℕ

/-- One round of the loop of `realtime_scope_sample`: the bytes of a value are read in the
order of their addresses. -/
def sampleNode (bus : Bus) (bank : Bank) (output : Output) (i : ℕ) : Output :=
  let size := typeSize (bank.nodes i).type
  let count := if size = 1 ∨ size = 2 ∨ size = 4 ∨ size = 8 then size else 0
  let bytes := (List.range count).map fun j =>
    bus (output.reads + j) ((bank.nodes i).p_address.getD 0 + j)
  { queue := output.queue.write output.p_output bytes
    p_output := output.p_output + size
    sum := output.sum + (bytes.map UInt8.toNat).sum
    reads := output.reads + count }

/-- The part of `realtime_scope_sample` that writes the frame at `p_frame`. -/
def writeFrame (s : Scope) (bus : Bus) (p_frame : ℕ) : Memory UInt8 :=
  let payload_size := s.p_active.payload_size
  let output : Output :=
    { queue := (s.p_queue.write p_frame [0xEA]).write (p_frame + 1) [s.index]
      p_output := p_frame + 2
      sum := 0xEA + s.index.toNat + payload_size % 256 + payload_size / 256 % 256
      reads := 0 }
  -- the walk ends with `NULL` before the bound
  let output := (s.p_active.walk (channels + 1) none).foldl (sampleNode bus s.p_active) output
  ((output.queue.write output.p_output [UInt8.ofNat payload_size]).write (output.p_output + 1)
    [UInt8.ofNat (payload_size / 256)]).write (output.p_output + 2) [UInt8.ofNat output.sum]

/-- `realtime_scope_sample` -/
def sample (s : Scope) (bus : Bus) : Scope :=
  if s.running = false then s
  else if s.queue_frames ≤ s.count then { s with overflows := s.overflows + 1, running := false }
  else
    let tail := s.tail + s.frame_size
    { s with
      p_queue := s.writeFrame bus s.tail
      index := s.index + 1
      tail := if tail = s.queue_limit then 0 else tail
      count := s.count + 1
      queue_high_water :=
        if s.queue_high_water < s.count + 1 then s.count + 1 else s.queue_high_water
      samples := s.samples + 1 }

/-- `realtime_scope_pop`, with what it stores in `*p_frame` -/
def pop (s : Scope) : Scope × Option Frame :=
  if s.count = 0 then (s, none)
  else
    let head := s.head + s.frame_size
    ({ s with
      head := if head = s.queue_limit then 0 else head
      count := s.count - 1
      dequeued := s.dequeued + 1 },
      some ⟨s.p_queue.slice s.head s.frame_size, s.frame_size % 2 ^ 16⟩)

end Scope

/-! ## Frames -/

namespace Bank

/-- The addresses of the bytes of some channels. -/
def addresses (bank : Bank) (is : List ℕ) : List ℕ :=
  is.flatMap fun i => (List.range (bank.width i)).map fun j => (bank.nodes i).p_address.getD 0 + j

/-- What a sample of the bank is: the mark, the index, the values of the enabled channels in
ascending order, their length, and the sum of all that. -/
def frame (bank : Bank) (index : UInt8) (bus : Bus) : List UInt8 :=
  let body := [0xEA, index] ++ (bank.addresses bank.enabledChannels).mapIdx bus ++
    [UInt8.ofNat bank.payload_size, UInt8.ofNat (bank.payload_size / 256)]
  body ++ [body.sum]

theorem length_addresses (bank : Bank) (is : List ℕ) :
    (bank.addresses is).length = (is.map bank.width).sum := by
  unfold addresses
  rw [List.length_flatMap]
  congr 1
  exact List.map_congr_left fun i _ => by rw [List.length_map, List.length_range]

theorem Ready.length_frame {bank : Bank} (h : bank.Ready) (index : UInt8) (bus : Bus) :
    (bank.frame index bus).length = bank.payload_size + 5 := by
  unfold frame
  simp only [List.length_append, List.length_mapIdx, length_addresses, List.length_cons,
    List.length_nil]
  rw [← h.payload_size]
  omega

end Bank

namespace Scope
variable {s : Scope} {bus : Bus}

/-- Bytes read one after the other from consecutive addresses. -/
theorem map_range_eq_mapIdx (bus : Bus) (reads address count : ℕ) :
    (List.range count).map (fun j => bus (reads + j) (address + j)) =
      ((List.range count).map fun j => address + j).mapIdx fun k => bus (reads + k) := by
  refine List.ext_getElem (by simp) fun k h h' => ?_
  simp

/-- The loop of `realtime_scope_sample` writes the values behind each other. -/
theorem foldl_sampleNode (bus : Bus) (bank : Bank) (is : List ℕ) (output : Output) :
    let bytes := (bank.addresses is).mapIdx fun k => bus (output.reads + k)
    is.foldl (sampleNode bus bank) output =
      { queue := output.queue.write output.p_output bytes
        p_output := output.p_output + bytes.length
        sum := output.sum + (bytes.map UInt8.toNat).sum
        reads := output.reads + bytes.length } := by
  induction is generalizing output with
  | nil => simp [Bank.addresses]
  | cons i is ih =>
    have hcount : (if typeSize (bank.nodes i).type = 1 ∨ typeSize (bank.nodes i).type = 2 ∨
        typeSize (bank.nodes i).type = 4 ∨ typeSize (bank.nodes i).type = 8
        then typeSize (bank.nodes i).type else 0) = bank.width i := by
      rcases typeSize_cases (bank.nodes i).type with h | h | h | h | h <;> simp [Bank.width, h]
    have haddresses : bank.addresses (i :: is) = ((List.range (bank.width i)).map fun j =>
        (bank.nodes i).p_address.getD 0 + j) ++ bank.addresses is := by
      simp [Bank.addresses]
    have hstep : sampleNode bus bank output i =
        { queue := output.queue.write output.p_output (((List.range (bank.width i)).map fun j =>
            (bank.nodes i).p_address.getD 0 + j).mapIdx fun k => bus (output.reads + k))
          p_output := output.p_output + bank.width i
          sum := output.sum + ((((List.range (bank.width i)).map fun j =>
            (bank.nodes i).p_address.getD 0 + j).mapIdx fun k =>
              bus (output.reads + k)).map UInt8.toNat).sum
          reads := output.reads + bank.width i } := by
      unfold sampleNode
      dsimp only
      rw [hcount, map_range_eq_mapIdx]
      rfl
    rw [List.foldl_cons, hstep, haddresses]
    dsimp only
    rw [ih]
    dsimp only
    rw [List.mapIdx_append, List.map_append, List.sum_append, List.length_append,
      Memory.write_append]
    simp only [List.length_mapIdx, List.length_map, List.length_range, Nat.add_assoc,
      Nat.add_comm (bank.width i)]

/-- A sum of bytes, kept in a byte. -/
theorem ofNat_sum (bytes : List UInt8) : UInt8.ofNat (bytes.map UInt8.toNat).sum = bytes.sum := by
  induction bytes with
  | nil => rfl
  | cons b bytes ih =>
    rw [List.map_cons, List.sum_cons, List.sum_cons, UInt8.ofNat_add, UInt8.ofNat_toNat, ih]

/-- **A frame** is written at its place. -/
theorem writeFrame_eq (h : s.p_active.Ready) (bus : Bus) (p_frame : ℕ) :
    s.writeFrame bus p_frame = s.p_queue.write p_frame (s.p_active.frame s.index bus) := by
  have hzero : (fun k => bus (0 + k)) = bus := by
    funext k
    rw [Nat.zero_add]
  unfold writeFrame Bank.frame
  dsimp only
  rw [h.walk, foldl_sampleNode]
  dsimp only
  rw [hzero]
  set bytes := (s.p_active.addresses s.p_active.enabledChannels).mapIdx bus
  set payload_size := s.p_active.payload_size
  have hsum : UInt8.ofNat (0xEA + s.index.toNat + payload_size % 256 + payload_size / 256 % 256 +
      (bytes.map UInt8.toNat).sum) = ([0xEA, s.index] ++ bytes ++
        [UInt8.ofNat payload_size, UInt8.ofNat (payload_size / 256)]).sum := by
    rw [← ofNat_sum]
    congr 1
    simp only [List.map_append, List.map_cons, List.map_nil, List.sum_append, List.sum_cons,
      List.sum_nil, UInt8.toNat_ofNat']
    have hmark : (0xEA : UInt8).toNat = 0xEA := rfl
    omega
  rw [hsum, Memory.write_append, Memory.write_append, Memory.write_append,
    Memory.write_cons _ _ _ [s.index], Memory.write_cons _ _ _ [UInt8.ofNat (payload_size / 256)]]
  have hvalues : p_frame + ([0xEA, s.index] ++ bytes).length = p_frame + 2 + bytes.length := by
    simp only [List.length_append, List.length_cons, List.length_nil]
    omega
  have hbody : p_frame + ([0xEA, s.index] ++ bytes ++
      [UInt8.ofNat payload_size, UInt8.ofNat (payload_size / 256)]).length =
        p_frame + 2 + bytes.length + 2 := by
    simp only [List.length_append, List.length_cons, List.length_nil]
    omega
  rw [hvalues, hbody]
  rfl

end Scope
end Atoman.RealtimeScope
