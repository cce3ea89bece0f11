import Atoman.Lib.LinkedQueue
import Atoman.SectionStl.Records

/-!
# The resident core

The state of `section.c` with its internal functions. The list of groups and the task
list of a group are lists of slots; the ready queue is linked as in the code. A walk of
the ready queue visits no more nodes than there are task slots.
-/

namespace Atoman.SectionStl
open Lib (LinkedQueue Memory)

/-- `resident_task_t`, without its links and the flag of the ready queue. -/
structure Task where
  owner : Handle
  quantum_left : UInt32
  period : UInt32
  last : UInt32
  p_func : Option UInt32
  p_step_func : Option UInt32
  p_ctx : UInt32
  /-- `STL_NONE` is `none` -/
  record : Option ℕ
  state : TaskState

/-- A cleared task slot. -/
def Task.zero : Task := ⟨.zero, 0, 0, 0, none, none, 0, some 0, .free⟩

/-- `resident_group_t` -/
structure Group where
  handle : Handle
  /-- the slots from `p_tasks` on -/
  tasks : List ℕ
  state : GroupState
  task_count : ℕ
  references : UInt32
  init_busy : Bool
  initialized : Bool
  quiescent : Bool

/-- A cleared group slot. -/
def Group.zero : Group := ⟨.zero, [], .disabled, 0, 0, false, false, false⟩

/-- `reg_init_t` -/
structure RegInit where
  priority : Int8
  p_func : Option UInt32
deriving DecidableEq

/-- Where a running `section_stl_group_initialize` stands. -/
inductive InitPoint
  /-- the lock is taken next: to look at the group, or for the end -/
  | check
  /-- the lock has been left again, and a callback is called next -/
  | call
  /-- the group is revoked, and the lock is taken for the end next -/
  | leave
deriving DecidableEq

/-- The local variables of `section_stl_group_initialize` while its callbacks run. -/
structure InitRun where
  /-- the slot of `p_group` -/
  group : ℕ
  index : ℕ
  callback_count : ℕ
  point : InitPoint

/-- A snapshot that was restored: the stack pointer and the words that the restore wrote,
and those that the save took. -/
structure Restoration where
  owner : Handle
  written : ℕ × List UInt32
  captured : ℕ × List UInt32

/-- What has happened, which the code does not keep: the owners of the callbacks started,
and the snapshots restored. -/
structure History where
  started : List Handle
  restored : List Restoration

/-- The static variables of `section.c`. -/
structure State where
  groups : ℕ → Group
  /-- the slots from `p_group_first` on -/
  group_list : List ℕ
  group_count : ℕ
  generation : UInt32
  tasks : ℕ → Task
  /-- `p_ready_first`, `p_ready_tail`, and `p_ready_next` and `queued` of the tasks -/
  ready : LinkedQueue ℕ
  ready_count : ℕ
  ring : Ring
  current : Option ℕ
  initialized : Bool
  native_pending : Bool
  tick_now : UInt32
  slice_start : UInt32
  /-- `runtime_stack` -/
  stack : Memory UInt32
  fault : Status
  /-- the callbacks of the initialization that runs -/
  init_callbacks : List RegInit
  initRun : Option InitRun
  history : History

namespace State

/-- Change one task. -/
def modify (s : State) (t : ℕ) (f : Task → Task) : State :=
  { s with tasks := Function.update s.tasks t (f (s.tasks t)) }

/-- Change one group. -/
def modifyGroup (s : State) (g : ℕ) (f : Group → Group) : State :=
  { s with groups := Function.update s.groups g (f (s.groups g)) }

/-- `stats.fault = SECTION_STL_CORRUPT` -/
def corrupt (s : State) : State := { s with fault := .corrupt }

/-- `group_find` -/
def groupFind (s : State) (handle : Handle) : Option ℕ :=
  s.group_list.find? fun g => (s.groups g).handle = handle

/-- `group_executing` -/
def groupExecuting (s : State) (g : ℕ) : Bool :=
  (s.groups g).init_busy ||
    match s.current with
    | some t => decide ((s.tasks t).owner = (s.groups g).handle)
    | none => false

/-- `records_reap` -/
def recordsReap (cfg : Config) (s : State) : State :=
  let (ring, corrupt) := s.ring.reap cfg
  { s with ring := ring, fault := if corrupt then .corrupt else s.fault }

/-! ### The ready queue -/

/-- `ready_push` -/
def readyPush (s : State) (t : ℕ) : State :=
  if s.ready.linked t then s
  else { s with ready := s.ready.enqueue t, ready_count := s.ready_count + 1 }

/-- `ready_push_front` -/
def readyPushFront (s : State) (t : ℕ) : State :=
  if s.ready.linked t then s
  else { s with ready := s.ready.pushFront t, ready_count := s.ready_count + 1 }

/-- `ready_pop` -/
def readyPop (s : State) : Option ℕ × State :=
  match s.ready.pop with
  | (none, _) => (none, s)
  | (some t, ready) => (some t, { s with ready := ready, ready_count := s.ready_count - 1 })

/-- `ready_remove` -/
def readyRemove (cfg : Config) (s : State) (handle : Handle) (old_too : Bool) : State :=
  let removed := s.ready.remove
    (fun t => (s.tasks t).owner = handle ∧ (old_too = true ∨ (s.tasks t).state = .new))
      cfg.max_tasks
  { s with
    ready := removed.1
    ready_count := s.ready_count - removed.2.length
    tasks := fun t =>
      if t ∈ removed.2 then { s.tasks t with state := .sleeping } else s.tasks t }

/-- `group_cancel` -/
def groupCancel (cfg : Config) (s : State) (g : ℕ) : State :=
  let handle := (s.groups g).handle
  let s := s.readyRemove cfg handle true
  let s := { s with ring := s.ring.discard cfg handle }
  let s := { s with
    tasks := fun t =>
      if t ∈ (s.groups g).tasks then { s.tasks t with record := none } else s.tasks t }
  let s := s.recordsReap cfg
  if s.groupExecuting g then s
  else s.modifyGroup g fun group => { group with state := .revoked }

/-! ### Snapshots -/

/-- `frame_words` -/
def frameWords (cfg : Config) (s : State) (p_sp : Option ℕ) : State × ℕ :=
  match p_sp with
  | none => (s.corrupt, 0)
  | some sp =>
    if s.stack 0 ≠ stlGuard ∨ s.stack 1 ≠ ~~~stlGuard ∨ sp < stlGuardWords ∨
        cfg.stack_words ≤ sp then (s.corrupt, 0)
    else if cfg.frame_valid (s.stack.slice sp (cfg.stack_words - sp)) = false then (s.corrupt, 0)
    else (s, cfg.stack_words - sp)

/-- `snapshot_save` -/
def snapshotSave (cfg : Config) (s : State) (t sp words : ℕ) : State × Bool :=
  let s := s.recordsReap cfg
  if s.fault ≠ .ok then (s, false)
  else
    match s.ring.place cfg words with
    | none => ({ s with ring := { s.ring with pool_full := s.ring.pool_full + 1 } }, false)
    | some (offset, gap) =>
      let ring := s.ring.append cfg (s.tasks t).owner t offset gap sp (s.stack.slice sp words)
      ({ s with ring := ring }.modify t fun task =>
        { task with record := some s.ring.record_tail }, true)

/-- `snapshot_restore` -/
def snapshotRestore (cfg : Config) (s : State) (t : ℕ) : State × Option ℕ :=
  match (s.tasks t).record with
  | none => (s.corrupt, none)
  | some r =>
    let record := s.ring.records r
    if cfg.max_records ≤ r then (s.corrupt, none)
    else if record.consumed = true ∨ record.owner ≠ (s.tasks t).owner ∨ record.task_index ≠ t ∨
        cfg.stack_words - stlGuardWords < record.words ∨ cfg.pool_words < record.words ∨
        cfg.pool_words - record.words < record.offset then (s.corrupt, none)
    else if cfg.frame_valid (s.ring.pool.slice record.offset record.words) = false then
      (s.corrupt, none)
    else
      let p_sp := cfg.stack_words - record.words
      let ring := s.ring.consume r
      let s := { s with
        stack := s.stack.write p_sp (s.ring.pool.slice record.offset record.words)
        ring := { ring with restores := ring.restores + 1 }
        history := { s.history with restored := s.history.restored ++
          [Restoration.mk record.owner (p_sp, s.ring.pool.slice record.offset record.words)
            (s.ring.captured r)] } }
      let s := (s.modify t fun task => { task with record := none }).recordsReap cfg
      (s, if s.fault ≠ .ok then none else some p_sp)

/-- `section_stl_port_prepare`, for the stack of the core -/
def portPrepare (cfg : Config) (s : State) : State × Option ℕ :=
  match cfg.initial_frame with
  | none => (s, none)
  | some frame =>
    ({ s with stack := s.stack.write (cfg.stack_words - frame.length) frame },
      some (cfg.stack_words - frame.length))

/-! ### Releases -/

/-- The body of `activate_due`. -/
def activateTask (s : State) (t : ℕ) : State :=
  let task := s.tasks t
  let elapsed := s.tick_now - task.last
  if task.state = .sleeping ∧ task.period ≤ elapsed then
    (s.modify t fun task =>
      { task with
        last := task.last + elapsed / task.period * task.period
        state := .new }).readyPush t
  else s

/-- `activate_due` -/
def activateDue (s : State) : State :=
  s.group_list.foldl
    (fun s g =>
      if (s.groups g).state ≠ .enabled then s else (s.groups g).tasks.foldl activateTask s) s

/-! ### Ownership -/

/-- `host_commit` -/
def hostCommit (port : Port) (s : State) (owner : Handle) : State × Bool :=
  if port.host_owner_commit owner = false then (s.corrupt, false) else (s, true)

/-- `return_native` -/
def returnNative (port : Port) (s : State) : State × Option ℕ :=
  match s.hostCommit port .zero with
  | (s, true) => ({ s with native_pending := false }, none)
  | (s, false) => (s, none)

/-- `group_retired` -/
def groupRetired (cfg : Config) (s : State) (g : ℕ) : Bool :=
  decide ((s.groups g).state = .revoked) && !s.groupExecuting g &&
    decide ((s.groups g).references = 0) &&
    decide (s.ring.groupRecords cfg (s.groups g).handle = 0)

end State
end Atoman.SectionStl
