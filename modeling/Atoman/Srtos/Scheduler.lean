import Atoman.Lib.LinkedQueue
import Atoman.Lib.Transition
import Atoman.Srtos.Pool

/-!
# The shared-stack schedulers

`srtos_m` and `srtos_riscv` run all tasks on one stack. A task that is switched away is
copied from the stack to the context pool and put at the end of the ready queue; a task
that runs to its end leaves nothing behind. The two programs are one text with a few
differences, which the variant selects; the debug counters are left out.

A stack pointer is the index of a word of the runtime stack. A pointer that is not a
word's takes the branch of one outside the stack.
-/

namespace Atoman.Srtos
open Lib (LinkedQueue Memory)
universe u

inductive Variant
  | m | riscv
deriving DecidableEq

/-- `SECTION_TASK_CONTEXT_POOL_FULL_POLICY` -/
inductive FullPolicy
  | fault | keepRunning
deriving DecidableEq

/-- `task_stack_state_t` -/
inductive TaskState
  | sleeping | readyNew | readyOld | running
deriving DecidableEq

/-- The reasons that `task_fault_set` is called for. -/
inductive Fault
  | contextPoolFull | pspOverflow | contextRestoreOverflow | contextReleaseOrder
  | runtimeStackTooSmall | contextPoolCorrupt
deriving DecidableEq

/-- What the build and the registration of the tasks fix. -/
structure Config (ι : Type u) where
  variant : Variant
  /-- `SECTION_TASK_CONTEXT_POOL_WORDS` -/
  context_pool_words : ℕ
  /-- an array has a word -/
  context_pool_pos : 0 < context_pool_words
  /-- `SECTION_TASK_RUNTIME_STACK_WORDS` -/
  runtime_stack_words : ℕ
  policy : FullPolicy
  /-- `SECTION_TASK_SLICE_TICKS` -/
  slice_ticks : UInt32
  /-- the address of `section_task_entry` -/
  entry : UInt32
  /-- `SECTION_RISCV_INITIAL_CAUSE` -/
  initial_cause : UInt32
  runtime_tp : UInt32
  /-- the registered tasks -/
  tasks : List ι
  t_period : ι → UInt32
  /-- the task has a callback -/
  callable : ι → Bool

namespace Config
variable {ι : Type u} (cfg : Config ι)

/-- `task_runtime_stack_low_get`: `srtos_riscv` keeps guard words below. -/
def stackLow : ℕ :=
  match cfg.variant with
  | .m => 0
  | .riscv => 4

/-- `task_runtime_stack_top_get`: the stack is aligned to eight bytes, and so is its top in
`srtos_m`. -/
def stackTop : ℕ :=
  match cfg.variant with
  | .m => cfg.runtime_stack_words - cfg.runtime_stack_words % 2
  | .riscv => cfg.runtime_stack_words

/-- The words that `task_stack_prepare_initial` needs. -/
def initialWords : ℕ :=
  match cfg.variant with
  | .m => 33
  | .riscv => 36

/-- The context that `task_stack_prepare_initial` puts at the top of the stack. -/
def initialImage : List UInt32 :=
  match cfg.variant with
  | .m =>
    List.replicate 8 0 ++ [0xFFFFFFFD] ++ List.replicate 5 0 ++
      [0xFFFFFFFD, cfg.entry ||| 1, 0x01000000]
  | .riscv =>
    [0x00001880, cfg.initial_cause, 0, 0, cfg.entry, 0, 0, 0, cfg.runtime_tp] ++
      List.replicate 27 0

end Config

/-- The fields of `reg_task_t` that change, without the link and the flag of the ready
queue. -/
structure Task where
  p_sp : Option ℕ
  /-- the first word of the snapshot in the context pool -/
  p_snapshot : Option ℕ
  snapshot_words : ℕ
  snapshot_capacity_words : ℕ
  state : TaskState
  time_last : UInt32

/-- What has happened, which the code does not keep. -/
structure History (ι : Type u) where
  /-- the calls of `task_fault_set` -/
  faults : List Fault
  /-- the words of the last save of a task -/
  saved : ι → List UInt32
  /-- the tasks put into the ready queue -/
  queued : List ι
  /-- the tasks made to run -/
  dispatched : List ι

/-- The static variables of `section.c` and the tasks. -/
structure Sched (ι : Type u) where
  tasks : ι → Task
  ready : LinkedQueue ι
  current : Option ι
  started : Bool
  fault_active : Bool
  pool : Pool
  context_pool : Memory UInt32
  stack : Memory UInt32
  last_switch_tick : UInt32
  history : History ι

namespace Sched
variable {ι : Type u} [DecidableEq ι]

/-- Change one task. -/
def modify (s : Sched ι) (t : ι) (f : Task → Task) : Sched ι :=
  { s with tasks := Function.update s.tasks t (f (s.tasks t)) }

/-- `srtos_task_insert_init` for every task, and `srtos_task_runtime_reset` -/
def reset (time_last : ι → UInt32) (context_pool stack : Memory UInt32) : Sched ι where
  tasks := fun t => ⟨none, none, 0, 0, .sleeping, time_last t⟩
  ready := .empty
  current := none
  started := false
  fault_active := false
  pool := .empty
  context_pool := context_pool
  stack := stack
  last_switch_tick := 0
  history := ⟨[], fun _ => [], [], []⟩

/-- `task_fault_set` -/
def faultSet (s : Sched ι) (reason : Fault) : Sched ι :=
  { s with
    fault_active := true
    started := false
    history := { s.history with faults := s.history.faults ++ [reason] } }

/-! ### Snapshots -/

/-- `task_context_alloc` -/
def taskContextAlloc (cfg : Config ι) (s : Sched ι) (t : ι) (required_words : ℕ) : Sched ι × Bool :=
  if required_words = 0 then (s, true)
  else if cfg.runtime_stack_words < required_words then (s, false)
  else
    match (s.tasks t).p_snapshot with
    | some _ => (s, decide (required_words ≤ (s.tasks t).snapshot_capacity_words))
    | none =>
      match s.pool.alloc cfg.context_pool_words required_words with
      | none => (s, false)
      | some (pool, offset) =>
        let s := { s with pool := pool }.modify t fun task =>
          { task with p_snapshot := some offset, snapshot_capacity_words := required_words }
        if cfg.variant = .riscv ∧ pool.invariantValid cfg.context_pool_words = false then
          (s.faultSet .contextPoolCorrupt, false)
        else (s, true)

/-- `task_context_release_gap_if_head` -/
def taskContextReleaseGapIfHead (cfg : Config ι) (s : Sched ι) : Sched ι :=
  if cfg.variant = .riscv ∧ s.pool.gap_words ≠ 0 ∧ s.pool.head = s.pool.gap_start ∧
      s.pool.used < s.pool.gap_words then
    s.faultSet .contextPoolCorrupt
  else { s with pool := s.pool.releaseGapIfHead }

/-- `task_context_release` -/
def taskContextRelease (cfg : Config ι) (s : Sched ι) (t : ι) : Sched ι :=
  let capacity_words := (s.tasks t).snapshot_capacity_words
  match (s.tasks t).p_snapshot with
  | none => s
  | some offset =>
    if capacity_words = 0 then s
    else if cfg.variant = .riscv ∧ (cfg.context_pool_words ≤ offset ∨
        cfg.context_pool_words < capacity_words ∨
        cfg.context_pool_words - capacity_words < offset) then
      s.faultSet .contextPoolCorrupt
    else
      let s := s.taskContextReleaseGapIfHead cfg
      if offset ≠ s.pool.head then s.faultSet .contextReleaseOrder
      else if cfg.variant = .riscv ∧ s.pool.used < capacity_words then
        s.faultSet .contextPoolCorrupt
      else
        let s := { s with pool := s.pool.advance cfg.context_pool_words capacity_words }
        let s := s.taskContextReleaseGapIfHead cfg
        let s := s.modify t fun task =>
          { task with p_snapshot := none, snapshot_words := 0, snapshot_capacity_words := 0 }
        if cfg.variant = .riscv ∧ s.pool.invariantValid cfg.context_pool_words = false then
          s.faultSet .contextPoolCorrupt
        else s

/-- `task_stack_prepare_initial` -/
def taskStackPrepareInitial (cfg : Config ι) (s : Sched ι) (t : ι) : Sched ι :=
  if cfg.runtime_stack_words < cfg.initialWords then s.faultSet .runtimeStackTooSmall
  else
    let sp := cfg.stackTop - cfg.initialImage.length
    let stack :=
      match cfg.variant with
      | .m => s.stack.write 0 (List.replicate cfg.runtime_stack_words 0xA5A5A5A5)
      | .riscv => s.stack
    { s with stack := stack.write sp cfg.initialImage }.modify t fun task =>
      { task with p_sp := some sp }

/-- `task_stack_save` -/
def taskStackSave (cfg : Config ι) (s : Sched ι) (t : ι) (sp : ℕ) : Sched ι × Bool :=
  if sp < cfg.stackLow ∨ cfg.stackTop < sp then (s.faultSet .pspOverflow, false)
  else
    let used_words := cfg.stackTop - sp
    let alloc := if used_words = 0 then (s, false) else s.taskContextAlloc cfg t used_words
    let s := alloc.1
    if alloc.2 then
      let words := s.stack.slice sp used_words
      let s := { s with
        context_pool :=
          match (s.tasks t).p_snapshot with
          | some offset => s.context_pool.write offset words
          | none => s.context_pool
        history := { s.history with saved := Function.update s.history.saved t words } }
      (s.modify t fun task =>
        { task with snapshot_words := used_words, p_sp := some (cfg.stackTop - used_words) }, true)
    else
      match cfg.policy with
      | .fault => (s.faultSet .contextPoolFull, false)
      | .keepRunning => (s, false)

/-- `task_stack_restore` -/
def taskStackRestore (cfg : Config ι) (s : Sched ι) (t : ι) : Sched ι × Option ℕ :=
  let task := s.tasks t
  if task.state = .readyNew then
    let s := s.taskStackPrepareInitial cfg t
    (s, (s.tasks t).p_sp)
  else
    match task.p_snapshot with
    | none => (s.faultSet .contextRestoreOverflow, none)
    | some offset =>
      if task.snapshot_words = 0 ∨ cfg.runtime_stack_words < task.snapshot_words then
        (s.faultSet .contextRestoreOverflow, none)
      else if cfg.stackTop < cfg.stackLow + task.snapshot_words then
        (s.faultSet .contextRestoreOverflow, none)
      else
        let sp := cfg.stackTop - task.snapshot_words
        let s := { s with
          stack := s.stack.write sp (s.context_pool.slice offset task.snapshot_words) }
        let s := s.modify t fun task => { task with p_sp := some sp }
        (s.taskContextRelease cfg t, some sp)

/-! ### The ready queue -/

/-- `srtos_task_ready_enqueue_unlocked` -/
def readyEnqueue (s : Sched ι) (t : ι) : Sched ι :=
  { s with
    ready := s.ready.push t
    history := { s.history with
      queued := if s.ready.linked t then s.history.queued else s.history.queued ++ [t] } }

/-- `task_stack_pick_next` -/
def taskStackPickNext (s : Sched ι) : Option ι × Sched ι :=
  (s.ready.pop.1, { s with ready := s.ready.pop.2 })

/-- `srtos_task_schedule_next` -/
def scheduleNext (period elapsed : UInt32) (task : Task) : Task :=
  { task with time_last := task.time_last + if elapsed - period < period then period else elapsed }

/-- `task_activate_if_due` with `srtos_task_activate_if_due` -/
def taskActivateIfDue (cfg : Config ι) (s : Sched ι) (t : ι) (now : UInt32) : Sched ι :=
  if cfg.callable t = false ∨ cfg.t_period t = 0 then s
  else
    let elapsed := now - (s.tasks t).time_last
    if elapsed < cfg.t_period t then s
    else if (s.tasks t).state ≠ .sleeping then s
    else
      let s := s.modify t fun task =>
        { scheduleNext (cfg.t_period t) elapsed task with state := .readyNew }
      s.readyEnqueue t

/-- `section_task_tick` -/
def sectionTaskTick (cfg : Config ι) (s : Sched ι) (now : UInt32) : Sched ι :=
  cfg.tasks.foldl (fun s t => s.taskActivateIfDue cfg t now) s

/-- `section_task_slice_elapsed` -/
def sectionTaskSliceElapsed (cfg : Config ι) (s : Sched ι) (now : UInt32) : Bool :=
  cfg.slice_ticks ≤ now - s.last_switch_tick

/-- `task_slice_advance` -/
def taskSliceAdvance (cfg : Config ι) (s : Sched ι) (now : UInt32) : Sched ι :=
  { s with last_switch_tick := s.last_switch_tick +
      (now - s.last_switch_tick) / cfg.slice_ticks * cfg.slice_ticks }

/-- The task becomes the running one. -/
def makeRunning (s : Sched ι) (t : ι) : Sched ι :=
  { s.modify t (fun task => { task with state := .running }) with
    current := some t
    history := { s.history with dispatched := s.history.dispatched ++ [t] } }

/-! ### What the port calls -/

/-- `section_task_start_request`, which does nothing in `srtos_riscv` -/
def sectionTaskStartRequest (cfg : Config ι) (s : Sched ι) (now : UInt32) : Sched ι :=
  if cfg.variant = .riscv ∨ s.fault_active then s
  else { s with last_switch_tick := now, started := true }

/-- `section_task_start_sp_get` -/
def sectionTaskStartSpGet (cfg : Config ι) (s : Sched ι) (now : UInt32) : Sched ι × Option ℕ :=
  if s.fault_active then (s, none)
  else
    match (s.sectionTaskTick cfg now).taskStackPickNext with
    | (none, s) => (s, none)
    | (some next, s) =>
      match s.taskStackRestore cfg next with
      | (s, none) => (s, none)
      | (s, some next_sp) =>
        ({ s.makeRunning next with started := true, last_switch_tick := now }, some next_sp)

/-- `section_task_switch_sp` from the tick on -/
def switchToNext (cfg : Config ι) (s : Sched ι) (sp : Option ℕ) (now : UInt32) :
    Sched ι × Option ℕ :=
  match (s.sectionTaskTick cfg now).taskStackPickNext with
  | (some next, s) =>
    match s.taskStackRestore cfg next with
    | (s, none) => (s, sp)
    | (s, some next_sp) => (s.makeRunning next, some next_sp)
  | (none, s) =>
    match cfg.variant with
    | .m =>
      match sp, s.current with
      | some _, some t => (s, (s.tasks t).p_sp)
      | _, _ => (s, sp)
    | .riscv => ({ s with current := none }, none)

/-- `section_task_switch_sp` -/
def sectionTaskSwitchSp (cfg : Config ι) (s : Sched ι) (sp : Option ℕ) (now : UInt32) :
    Sched ι × Option ℕ :=
  if s.started = false then (s, sp)
  else if s.fault_active then (s, sp)
  else
    let s := s.taskSliceAdvance cfg now
    match sp, s.current with
    | some p, some t =>
      if (s.tasks t).state = .running then
        match s.taskStackSave cfg t p with
        | (s, false) => (s, sp)
        | (s, true) =>
          let s := s.modify t fun task => { task with state := .readyOld }
          (s.readyEnqueue t).switchToNext cfg sp now
      else
        let s := s.modify t fun task => { task with p_sp := some p }
        s.switchToNext cfg sp now
    | _, _ => s.switchToNext cfg sp now

/-! ### What a task does when its callback returns -/

/-- `section_task_complete_current` -/
def sectionTaskCompleteCurrent (s : Sched ι) : Sched ι :=
  match s.current with
  | none => s
  | some t => s.modify t fun task => { task with state := .sleeping }

/-- `section_task_continue_current` -/
def sectionTaskContinueCurrent (s : Sched ι) : Sched ι :=
  match s.current with
  | none => s
  | some t => (s.modify t fun task => { task with state := .readyNew }).readyEnqueue t

/-- `section_task_start_ready_new_inline` -/
def sectionTaskStartReadyNewInline (s : Sched ι) : Sched ι :=
  match s.ready.first with
  | none => s
  | some t =>
    if (s.tasks t).state ≠ .readyNew then s
    else
      match s.taskStackPickNext with
      | (none, s) => s
      | (some next, s) => s.makeRunning next

/-- `section_task_entry` when the callback returns `SECTION_TASK_DONE`: in `srtos_m` the
next task may start at once, on the same stack. -/
def sectionTaskDone (cfg : Config ι) (s : Sched ι) (now : UInt32) : Sched ι :=
  match cfg.variant with
  | .m =>
    let s := s.sectionTaskCompleteCurrent.sectionTaskTick cfg now
    if s.sectionTaskSliceElapsed cfg now then s else s.sectionTaskStartReadyNewInline
  | .riscv => s.sectionTaskCompleteCurrent

end Sched

/-! ## Runs -/

/-- The steps that exclude each other: critical regions, the context switch, and what the
running code does to the stack between them. -/
inductive Event (ι : Type u)
  /-- code that runs -/
  | work (stack : Memory UInt32)
  /-- a tick comes to a task, from a task or an interrupt -/
  | activate (t : ι) (now : UInt32)
  | startRequest (now : UInt32)
  | start (now : UInt32)
  | switch (sp : Option ℕ) (now : UInt32)
  /-- the callback of the running task returns `SECTION_TASK_DONE` -/
  | done (now : UInt32)
  /-- the callback of the running task returns `SECTION_TASK_RUNNING` -/
  | again
  /-- an interrupt of `srtos_riscv` finds the guard words of the stack overwritten -/
  | guardOverwritten

namespace Sched
variable {ι : Type u} [DecidableEq ι]

def exec (cfg : Config ι) (s : Sched ι) : Event ι → Sched ι
  | .work stack => { s with stack := stack }
  | .activate t now => s.taskActivateIfDue cfg t now
  | .startRequest now => s.sectionTaskStartRequest cfg now
  | .start now => (s.sectionTaskStartSpGet cfg now).1
  | .switch sp now => (s.sectionTaskSwitchSp cfg sp now).1
  | .done now => s.sectionTaskDone cfg now
  | .again => s.sectionTaskContinueCurrent
  | .guardOverwritten => s.faultSet .pspOverflow

/-- The running task. -/
def Runs (s : Sched ι) (t : ι) : Prop := s.current = some t ∧ (s.tasks t).state = .running

/-- When a step can come: the scheduler is started once, a context that is interrupted
while a task runs is passed to the switch, and only the running task has a callback that
returns. -/
def Enabled (cfg : Config ι) (s : Sched ι) : Event ι → Prop
  | .start _ => s.started = false
  | .switch sp _ => sp = none → ∀ t, ¬ s.Runs t
  | .done _ => ∃ t, s.Runs t
  | .again => ∃ t, s.Runs t
  | .guardOverwritten => cfg.variant = .riscv
  | _ => True

end Sched

/-- All runs from the initialisation on. -/
def runs {ι : Type u} [DecidableEq ι] (cfg : Config ι) : Lib.Transition (Sched ι) where
  init s := ∃ time_last context_pool stack, s = .reset time_last context_pool stack
  next s t := ∃ e, s.Enabled cfg e ∧ t = s.exec cfg e

end Atoman.Srtos
