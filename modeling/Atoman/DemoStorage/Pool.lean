import Atoman.DemoStorage.Service
import Atoman.Lib.Sync
import Mathlib.Data.List.Induction

/-!
# The data pool

`demo_storage_pool.c`: the shared parameters, one command slot and the published result. Each
call works behind a lock that it may find taken. What the slot is for is a protocol: a
request is waiting, is taken, and is finished, or the start of the service occupies the slot
without a request.
-/

namespace Atoman.DemoStorage
open Lib (TryLock)

/-- `demo_storage_snapshot_t`; the device views are copied as a whole -/
structure Snapshot (D : Type) where
  params : Params
  devices : D
  requestId : UInt32
  completedId : UInt32
  result : Int
  busy : Bool

/-- The variables of the module, without the lock. -/
structure Pool (D : Type) where
  pool : Snapshot D
  request : Request
  taken : Bool

/-- What a call returns, and what it stores behind its pointers. -/
structure Reply (D : Type) where
  accepted : Bool
  snapshot : Option (Snapshot D)
  request : Option Request

/-- `return 0` -/
def Reply.refused {D : Type} : Reply D := ⟨false, none, none⟩

/-- `return 1` -/
def Reply.done {D : Type} : Reply D := ⟨true, none, none⟩

/-- The device of an index. -/
def deviceOf (device : UInt8) : Option Device :=
  if device = 0 then some .nor else if device = 1 then some .nand else none

/-- The command of a number, from `DEMO_STORAGE_SCAN` on. -/
def commandOf (command : Int) : Option Command :=
  match command with
  | 1 => some .scan
  | 2 => some .save
  | 3 => some .load
  | 4 => some .test
  | 5 => some .log
  | 6 => some .defaults
  | _ => none

namespace Pool
variable {D : Type} (s : Pool D)

/-- `demo_storage_business_configure` behind the lock -/
def businessConfigure (params : Params) : Pool D × Reply D :=
  if s.pool.busy = true then (s, .refused)
  else ({ s with pool := { s.pool with params := params } }, .done)

/-- The number of the next request; zero is left out. -/
def nextId : UInt32 := if s.pool.requestId + 1 = 0 then 1 else s.pool.requestId + 1

/-- `demo_storage_business_request` behind the lock -/
def businessRequest (device : Device) (command : Command) : Pool D × Reply D :=
  if s.pool.busy = true then (s, .refused)
  else
    ({ pool := { s.pool with requestId := s.nextId, busy := true }
       request := ⟨s.pool.params, command, s.nextId, device⟩
       taken := false }, .done)

/-- `demo_storage_business_read` behind the lock -/
def businessRead : Pool D × Reply D := (s, ⟨true, some s.pool, none⟩)

/-- `demo_storage_exchange_take` behind the lock -/
def exchangeTake : Pool D × Reply D :=
  if s.pool.busy = false ∨ s.taken = true then (s, .refused)
  else ({ s with taken := true }, ⟨true, none, some s.request⟩)

/-- `demo_storage_exchange_finish` behind the lock -/
def exchangeFinish (id : UInt32) (result : Int) (restored : Option Params) (devices : D) :
    Pool D × Reply D :=
  if s.pool.busy = false ∨ s.taken = false ∨ s.request.id ≠ id then (s, .refused)
  else
    ({ s with
      pool :=
        { s.pool with
          params := restored.getD s.pool.params
          devices := devices
          result := result
          completedId := id
          busy := false }
      taken := false }, .done)

/-- `demo_storage_exchange_probe` behind the lock -/
def exchangeProbe (devices : D) : Pool D × Reply D :=
  ({ s with pool := { s.pool with devices := devices } }, .done)

/-- `demo_storage_exchange_boot_begin` behind the lock -/
def exchangeBootBegin (defaults : Params) : Pool D × Reply D :=
  if s.pool.busy = true then (s, .refused)
  else
    ({ pool := { s.pool with params := defaults, busy := true }
       request := { s.request with id := 0 }
       taken := true }, .done)

end Pool

/-- A call with its arguments; a pointer may be null. -/
inductive Call (D : Type)
  | configure (params : Option Params)
  | request (device : UInt8) (command : Int)
  | read (pointer : Bool)
  | take (pointer : Bool)
  | finish (id : UInt32) (result : Int) (restored : Option Params) (devices : Option D)
  | probe (devices : Option D)
  | bootBegin (defaults : Option Params)

/-- A call that goes to the lock. -/
inductive Checked (D : Type)
  | configure (params : Params)
  | request (device : Device) (command : Command)
  | read
  | take
  | finish (id : UInt32) (result : Int) (restored : Option Params) (devices : D)
  | probe (devices : D)
  | bootBegin (defaults : Params)

section
variable {D : Type}

/-- The checks in front of the lock. -/
def Call.check : Call D → Option (Checked D)
  | .configure params => params.map .configure
  | .request device command =>
    (deviceOf device).bind fun device =>
      (commandOf command).map fun command => .request device command
  | .read pointer => if pointer = true then some .read else none
  | .take pointer => if pointer = true then some .take else none
  | .finish id result restored devices =>
    devices.map fun devices => .finish id result restored devices
  | .probe devices => devices.map .probe
  | .bootBegin defaults => defaults.map .bootBegin

/-- The work behind the lock. -/
def Checked.run (s : Pool D) : Checked D → Pool D × Reply D
  | .configure params => s.businessConfigure params
  | .request device command => s.businessRequest device command
  | .read => s.businessRead
  | .take => s.exchangeTake
  | .finish id result restored devices => s.exchangeFinish id result restored devices
  | .probe devices => s.exchangeProbe devices
  | .bootBegin defaults => s.exchangeBootBegin defaults

end

/-! ## The protocol -/

/-- What a call that succeeded has done to the slot. -/
inductive Done
  | accepted (r : Request)
  | taken (r : Request)
  | finished (id : UInt32) (restored : Option Params)
  | booted
  deriving DecidableEq

/-- What occupies the slot. -/
inductive Slot
  | free
  | waiting (r : Request)
  | taken (r : Request)
  | boot
  deriving DecidableEq

/-- **The protocol** of the slot: a request is accepted into the free slot, taken as it was
accepted, and finished under its own number; a start is finished under the number zero. -/
def Slot.next : Slot → Done → Option Slot
  | .free, .accepted r => if r.id = 0 then none else some (.waiting r)
  | .free, .booted => some .boot
  | .waiting r, .taken r' => if r' = r then some (.taken r) else none
  | .taken r, .finished id _ => if id = r.id then some .free else none
  | .boot, .finished id _ => if id = 0 then some .free else none
  | _, _ => none

/-- What occupies the slot after some calls, if they keep to the protocol. -/
def Slot.after (history : List Done) : Option Slot := history.foldlM Slot.next .free

theorem Slot.after_concat (history : List Done) (d : Done) :
    Slot.after (history ++ [d]) = (Slot.after history).bind fun slot => slot.next d := by
  unfold Slot.after
  rw [List.foldlM_append]
  simp [Option.bind_eq_bind]

/-- The requests that were accepted. -/
def acceptedRequests (history : List Done) : List Request :=
  history.filterMap fun d => match d with | .accepted r => some r | _ => none

/-- The requests that were taken. -/
def takenRequests (history : List Done) : List Request :=
  history.filterMap fun d => match d with | .taken r => some r | _ => none

/-- The numbers of the requests that were finished. -/
def finishedIds (history : List Done) : List UInt32 :=
  history.filterMap fun d =>
    match d with
    | .finished id _ => if id = 0 then none else some id
    | _ => none

/-- The request that is waiting. -/
def Slot.untaken : Slot → List Request
  | .waiting r => [r]
  | _ => []

/-- The request that is waiting or taken. -/
def Slot.outstanding : Slot → List Request
  | .waiting r | .taken r => [r]
  | _ => []

/-- **Each once**: what keeps to the protocol takes every request once, as it was accepted, and
finishes it once, in the order of acceptance. -/
theorem Slot.accounts {history : List Done} {slot : Slot} (h : Slot.after history = some slot) :
    acceptedRequests history = takenRequests history ++ slot.untaken ∧
    (acceptedRequests history).map Request.id =
      finishedIds history ++ slot.outstanding.map Request.id ∧
    ∀ r ∈ slot.outstanding, r.id ≠ 0 := by
  induction history using List.reverseRecOn generalizing slot with
  | nil =>
    obtain rfl := Option.some.inj h
    exact ⟨rfl, rfl, fun _ hin => absurd hin List.not_mem_nil⟩
  | append_singleton history d ih =>
    rw [Slot.after_concat] at h
    obtain ⟨before, hbefore, hnext⟩ := Option.bind_eq_some_iff.mp h
    obtain ⟨htaken, hfinished, hid⟩ := ih hbefore
    have happend :
        acceptedRequests (history ++ [d]) = acceptedRequests history ++ acceptedRequests [d] ∧
        takenRequests (history ++ [d]) = takenRequests history ++ takenRequests [d] ∧
        finishedIds (history ++ [d]) = finishedIds history ++ finishedIds [d] :=
      ⟨List.filterMap_append, List.filterMap_append, List.filterMap_append⟩
    rw [happend.1, happend.2.1, happend.2.2, List.map_append, hfinished, htaken]
    cases before with
    | free =>
      cases d with
      | accepted r =>
        simp only [Slot.next] at hnext
        split at hnext
        · exact nomatch hnext
        next hr =>
        obtain rfl := Option.some.inj hnext
        simp [acceptedRequests, takenRequests, finishedIds, untaken, outstanding, hr]
      | booted =>
        obtain rfl := Option.some.inj hnext
        simp [acceptedRequests, takenRequests, finishedIds, untaken, outstanding]
      | taken r => exact nomatch hnext
      | finished id restored => exact nomatch hnext
    | waiting r =>
      cases d with
      | taken r' =>
        simp only [Slot.next] at hnext
        split at hnext
        case isFalse => exact nomatch hnext
        next hr =>
        obtain rfl := Option.some.inj hnext
        have hne := hid r List.mem_cons_self
        simp [acceptedRequests, takenRequests, finishedIds, untaken, outstanding, hr, hne]
      | accepted r' => exact nomatch hnext
      | booted => exact nomatch hnext
      | finished id restored => exact nomatch hnext
    | taken r =>
      cases d with
      | finished id restored =>
        simp only [Slot.next] at hnext
        split at hnext
        case isFalse => exact nomatch hnext
        next hr =>
        obtain rfl := Option.some.inj hnext
        have hne := hid r List.mem_cons_self
        simp [acceptedRequests, takenRequests, finishedIds, untaken, outstanding, hr, hne]
      | accepted r' => exact nomatch hnext
      | booted => exact nomatch hnext
      | taken r' => exact nomatch hnext
    | boot =>
      cases d with
      | finished id restored =>
        simp only [Slot.next] at hnext
        split at hnext
        case isFalse => exact nomatch hnext
        next hr =>
        obtain rfl := Option.some.inj hnext
        simp [acceptedRequests, takenRequests, finishedIds, untaken, outstanding, hr]
      | accepted r' => exact nomatch hnext
      | booted => exact nomatch hnext
      | taken r' => exact nomatch hnext

end Atoman.DemoStorage
