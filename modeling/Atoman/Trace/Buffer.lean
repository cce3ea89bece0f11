import Atoman.Lib.DropQueue
import Atoman.Lib.Transition
import Mathlib.Data.Nat.Bitwise

/-!
# The trace buffer

`trace_core.c` keeps source-line marks with a time stamp in a buffer of 64 slots. Two
free-running 32-bit counters say how many records were written and how many were
consumed; the slot of a record is its number modulo the size of the buffer.
-/

namespace Atoman.Trace
open Lib (DropQueue)

/-- `DBG_TRACE_BUFFER_SIZE` -/
abbrev bufferSize : UInt32 := 64

/-- `dbg_trace_item_t`, with a ghost number that tells equal marks apart: the records
are numbered from one, and a blank slot has number zero. -/
structure Item where
  line : UInt32
  time : UInt32
  serial : ℕ
deriving DecidableEq

/-- `dbg_trace_ctx_t` and the buffer; for the two time sources, whether they are
bound. -/
structure Core where
  p_system_time : Bool
  p_time_get : Bool
  write_count : UInt32
  read_count : UInt32
  buffer : ℕ → Item

namespace Core

/-- The state at program start. -/
def reset : Core := ⟨false, false, 0, 0, fun _ => ⟨0, 0, 0⟩⟩

/-- `dbg_trace_core_bind_time` -/
def bindTime (c : Core) (pointer : Bool) : Core :=
  { c with p_system_time := pointer, p_time_get := false }

/-- `dbg_trace_core_bind_time_getter` -/
def bindTimeGetter (c : Core) (pointer : Bool) : Core :=
  { c with p_time_get := pointer, p_system_time := false }

/-- The overflow test of the source: a plain comparison of wrapping counters. -/
def overflown (c : Core) : Bool := c.write_count > c.read_count + bufferSize

/-- Where the test says so, move the read position to the oldest slot. -/
def dropOldest (c : Core) : Core :=
  if c.overflown then { c with read_count := c.write_count - bufferSize } else c

/-- A time source is bound. -/
def bound (c : Core) : Bool := c.p_time_get || c.p_system_time

/-- The record that a call makes, from what the time sources say. -/
def item (c : Core) (line getterTime systemTime : UInt32) (serial : ℕ) : Item :=
  ⟨line, if c.p_time_get then getterTime else systemTime, serial⟩

/-- Store a record in the next slot. -/
def store (c : Core) (x : Item) : Core where
  p_system_time := c.p_system_time
  p_time_get := c.p_time_get
  write_count := c.write_count + 1
  read_count := c.read_count
  buffer := Function.update c.buffer (c.write_count &&& (bufferSize - 1)).toNat x

/-- `dbg_trace_core_record` -/
def record (c : Core) (line getterTime systemTime : UInt32) (serial : ℕ) : Core :=
  if c.bound then (c.store (c.item line getterTime systemTime serial)).dropOldest else c

/-- `dbg_trace_core_record_count_get` -/
def recordCountGet (c : Core) : UInt32 := c.write_count - c.read_count

/-- `dbg_trace_core_item_get` -/
def itemGet (c : Core) (index : UInt32) : Option Item :=
  if c.recordCountGet ≤ index then none
  else some (c.buffer ((c.read_count + index) % bufferSize).toNat)

/-- `dbg_trace_core_read`; `pointers` says that neither pointer is `NULL`. -/
def read (c : Core) (pointers : Bool) : Core × Option Item :=
  if pointers = false then (c, none)
  else if c.read_count = c.write_count then (c, none)
  else
    let c := c.dropOldest
    let x := c.buffer (c.read_count &&& (bufferSize - 1)).toNat
    ({ c with read_count := c.read_count + 1 }, some x)

/-- The records that `dbg_trace_core_item_get` lists. -/
def listed (c : Core) : List Item :=
  (List.range c.recordCountGet.toNat).filterMap fun i => c.itemGet (UInt32.ofNat i)

end Core

/-! ## Runs -/

/-- The calls, with what the environment supplies. -/
inductive Call
  | bindTime (pointer : Bool)
  | bindTimeGetter (pointer : Bool)
  | record (line getterTime systemTime : UInt32)
  | read (pointers : Bool)
  | countGet
  | itemGet (index : UInt32)

/-- The trace buffer with its past: the records written and those returned. -/
structure State where
  core : Core
  written : List Item
  returned : List Item

/-- One call. -/
def State.exec (s : State) : Call → State
  | .bindTime pointer => { s with core := s.core.bindTime pointer }
  | .bindTimeGetter pointer => { s with core := s.core.bindTimeGetter pointer }
  | .record line getterTime systemTime =>
    let serial := s.written.length + 1
    { s with
      core := s.core.record line getterTime systemTime serial
      written := if s.core.bound then
          s.written ++ [s.core.item line getterTime systemTime serial]
        else s.written }
  | .read pointers =>
    let r := s.core.read pointers
    { s with core := r.1, returned := s.returned ++ r.2.toList }
  | .countGet => s
  | .itemGet _ => s

/-- All sequences of calls that meet a condition, from program start. -/
def runs (allowed : Core → Call → Prop) : Lib.Transition State where
  init s := s = ⟨.reset, [], []⟩
  next s t := ∃ call, allowed s.core call ∧ t = s.exec call

/-- The account of a state: what is listed is unread. -/
def State.dropped (s : State) : List Item :=
  s.written.filter fun x => x ∉ s.returned ∧ x ∉ s.core.listed

/-- Every record is returned, dropped or unread, once and in order. -/
structure State.ExactlyOnce (s : State) : Prop where
  /-- the count reported is what was written less what was returned or dropped -/
  count : s.core.recordCountGet.toNat + s.returned.length + s.dropped.length = s.written.length
  bound : s.core.recordCountGet.toNat ≤ bufferSize.toNat
  /-- no two records written are the same one -/
  nodup : s.written.Nodup
  /-- what was returned, and behind it what is still listed, follows the order of
  writing -/
  ordered : (s.returned ++ s.core.listed).Sublist s.written
  /-- a record is dropped behind 64 newer ones -/
  behind : ∀ i (h : i < s.written.length), s.written[i] ∈ s.dropped →
    i + bufferSize.toNat < s.written.length

end Atoman.Trace
