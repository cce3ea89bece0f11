import Mathlib.Data.Nat.Notation
import Mathlib.Logic.Function.Basic

/-!
# Run times of tasks and interrupts

A record keeps the counts that its task or interrupt took. The counts of an interrupt that ends
while a task runs are taken off the task when it ends.
-/

namespace Atoman.Perf

/-- `perf_core_record_type_t` -/
inductive RecordType
  | code | task | interrupt
deriving DecidableEq

/-- `perf_core_record_t`; loads are single precision, and `p_cnt` leads to the counter or nowhere -/
structure Record (F : Type) where
  p_name : Option (List UInt8)
  start : UInt32
  end_ : UInt32
  time : UInt32
  max_time : UInt32
  run_time : UInt32
  start_to_start_time : UInt32
  end_to_start_time : UInt32
  period_us : UInt32
  load : F
  load_max : F
  record_id : UInt16
  record_type : RecordType
  start_valid : Bool
  end_valid : Bool
  p_cnt : Bool
deriving DecidableEq

/-- The records, by their addresses, the hardware counter if one is registered,
`s_running_task_perf_record` and `s_running_task_interrupt_time` -/
structure Core (F : Type) where
  records : ℕ → Record F
  counter : Option UInt32
  running : Option ℕ
  interrupt_time : UInt32

namespace Core
variable {F : Type} (s : Core F)

/-- `perf_cnt_read` of the `p_cnt` of a record -/
def cntRead (record : ℕ) : UInt32 := if (s.records record).p_cnt then s.counter.getD 0 else 0

def setRecord (record : ℕ) (r : Record F) : Core F :=
  { s with records := Function.update s.records record r }

/-- `perf_core_task_begin` -/
def taskBegin (record : Option ℕ) : Core F × UInt32 :=
  match record with
  | none => (s, 0)
  | some i =>
    let now := s.cntRead i
    let r := s.records i
    let r := if r.start_valid then { r with start_to_start_time := now - r.start } else r
    let r := if r.end_valid then { r with end_to_start_time := now - r.end_ } else r
    let r := { r with start := now, start_valid := true }
    ({ s.setRecord i r with interrupt_time := 0, running := some i }, now)

/-- The time that a task or an interrupt took, added to its record -/
def charge (r : Record F) (delta : UInt32) : Record F :=
  { r with
    time := delta
    max_time := if delta > r.max_time then delta else r.max_time
    run_time := r.run_time + delta }

/-- `perf_core_task_end` -/
def taskEnd (record : Option ℕ) (start_cnt : UInt32) : Core F :=
  match record with
  | none => s
  | some i =>
    let end_cnt := s.cntRead i
    let delta := end_cnt - start_cnt
    let interrupt_time := s.interrupt_time
    let delta := if delta > interrupt_time then delta - interrupt_time else 0
    { s.setRecord i { charge (s.records i) delta with end_ := end_cnt, end_valid := true } with
      running := none, interrupt_time := 0 }

/-- `perf_core_interrupt_begin` -/
def interruptBegin (record : Option ℕ) : UInt32 :=
  match record with
  | none => 0
  | some i => s.cntRead i

/-- `perf_core_interrupt_end` -/
def interruptEnd (record : Option ℕ) (start_cnt : UInt32) : Core F :=
  match record with
  | none => s
  | some i =>
    let delta := s.cntRead i - start_cnt
    let s := s.setRecord i (charge (s.records i) delta)
    if s.running.isSome then { s with interrupt_time := s.interrupt_time + delta } else s

end Core
end Atoman.Perf
