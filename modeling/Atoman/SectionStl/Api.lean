import Atoman.SectionStl.State
import Mathlib.Data.List.DropRight

/-!
# The public functions

Each call is one transaction under the kernel lock. `section_stl_group_initialize` is
several: the admission, one for each callback, and the end, with anything in between.
`section_stl_run` and `section_stl_yield` change no state of the core by themselves; the
switches they lead to are calls of `section_stl_switch`.
-/

namespace Atoman.SectionStl

/-- `reg_task_t` -/
structure RegTask where
  t_period : UInt32
  p_func : Option UInt32
  p_step_func : Option UInt32
  p_ctx : UInt32

/-- `reg_section_t` -/
structure RegSection where
  section_type : UInt32
  p_str : Option UInt32

/-- What the wrappers of a table lead to: the descriptor at `p_obj`, if neither pointer is
`NULL`. -/
structure Image where
  task : UInt32 → Option RegTask
  init : UInt32 → Option RegInit

/-- `SECTION_INIT` -/
def sectionInit : UInt32 := 0

/-- `SECTION_TASK` -/
def sectionTask : UInt32 := 1

namespace State

/-- `section_stl_init` -/
def sectionStlInit (port : Port) (s : State) (now : UInt32) : State × Status :=
  if port.api_allowed = false then (s, .badContext)
  else if port.nativeContext = false then (s, .badContext)
  else if s.initialized then (s, .badState)
  else
    ({ s with
      tick_now := now
      slice_start := now
      stack := Function.update (Function.update s.stack 0 stlGuard) 1 (~~~stlGuard)
      initialized := true }, .ok)

/-! ### Registration -/

/-- The check of the table in `section_stl_group_register`: the result and the number of
tasks. -/
def checkTasks (image : Image) : List RegSection → List RegSection → Status → ℕ → Status × ℕ
  | _, [], result, needed => (result, needed)
  | prior, entry :: rest, result, needed =>
    if entry.section_type = sectionTask then
      match entry.p_str.bind image.task with
      | none => (.badArgument, needed)
      | some task =>
        if task.t_period = 0 ∨ stlHalf ≤ task.t_period ∨
            task.p_func.isNone = task.p_step_func.isNone then (.badArgument, needed)
        else
          let duplicate := prior.any fun other =>
            other.section_type = sectionTask ∧ other.p_str = entry.p_str
          checkTasks image (prior ++ [entry]) rest (if duplicate then .badArgument else result)
            (needed + 1)
    else checkTasks image (prior ++ [entry]) rest result needed

/-- Insert behind the tasks of no longer period. -/
def insertByPeriod (period : ℕ → UInt32) (t : ℕ) : List ℕ → List ℕ
  | [] => [t]
  | u :: us =>
    if period t < period u then t :: u :: us else u :: insertByPeriod period t us

/-- The first free task slot. -/
def freeTask (cfg : Config) (s : State) : Option ℕ :=
  (List.range cfg.max_tasks).find? fun t => (s.tasks t).state = .free

/-- Copy one task of the table. -/
def claimTask (cfg : Config) (s : State) (g : ℕ) (source : RegTask) : State :=
  match s.freeTask cfg with
  | none => s
  | some t =>
    let s := { s with ready := s.ready.clear t }.modify t fun _ =>
      { owner := (s.groups g).handle
        quantum_left := 0
        period := source.t_period
        last := s.tick_now
        p_func := source.p_func
        p_step_func := source.p_step_func
        p_ctx := source.p_ctx
        record := none
        state := .sleeping }
    s.modifyGroup g fun group =>
      { group with
        tasks := insertByPeriod (fun u => (s.tasks u).period) t group.tasks
        task_count := group.task_count + 1 }

/-- Copy an entry of the table that is a task. -/
def claimEntry (cfg : Config) (image : Image) (g : ℕ) (s : State) (entry : RegSection) : State :=
  if entry.section_type = sectionTask then
    match entry.p_str.bind image.task with
    | none => s
    | some source => s.claimTask cfg g source
  else s

/-- The last free group slot. -/
def freeGroup (cfg : Config) (s : State) : Option ℕ :=
  (List.range cfg.max_groups).reverse.find? fun g => (s.groups g).handle.group_id = 0

/-- The result of the checks of `section_stl_group_register` under the lock. -/
def registerCheck (cfg : Config) (s : State) (image : Image) (group_id : UInt32)
    (table : List RegSection) : Status :=
  let result := if s.initialized = false ∨ s.fault ≠ .ok then .badState else .ok
  let result :=
    if (List.range cfg.max_groups).any fun g => (s.groups g).handle.group_id = group_id then
      .badState
    else result
  let free_tasks := (List.range cfg.max_tasks).countP fun t => (s.tasks t).state = .free
  let (result, needed) := checkTasks image [] table result 0
  let result :=
    if result = .ok ∧ (s.freeGroup cfg = none ∨ free_tasks < needed) then .noCapacity else result
  if result = .ok ∧ s.generation = 0xFFFFFFFF then .generationExhausted else result

/-- The commit of `section_stl_group_register`. -/
def registerCommit (cfg : Config) (s : State) (image : Image) (group_id : UInt32)
    (table : List RegSection) (g : ℕ) : State × Handle :=
  let handle : Handle := ⟨group_id, s.generation + 1⟩
  let s := { s with generation := s.generation + 1 }.modifyGroup g fun _ =>
    { Group.zero with handle := handle }
  let s := table.foldl (claimEntry cfg image g) s
  ({ s with group_list := g :: s.group_list, group_count := s.group_count + 1 }, handle)

/-- `section_stl_group_register`, with what it stores in `*p_handle`. The table is the
function that an index of it is read by. -/
def sectionStlGroupRegister (cfg : Config) (port : Port) (s : State) (image : Image)
    (group_id : UInt32) (p_entries : Option (ℕ → RegSection)) (count : ℕ) (p_handle : Bool) :
    State × Status × Option Handle :=
  if port.api_allowed = false then (s, .badContext, none)
  else if port.nativeContext = false then (s, .badContext, none)
  else if group_id = 0 ∨ p_handle = false ∨ cfg.max_registrations < count ∨
      (0 < count ∧ p_entries.isNone) then (s, .badArgument, none)
  else
    let table := (List.range count).filterMap fun i => p_entries.map (· i)
    let result := s.registerCheck cfg image group_id table
    match result, s.freeGroup cfg with
    | .ok, some g =>
      let (s, handle) := s.registerCommit cfg image group_id table g
      (s, .ok, some handle)
    | result, _ => (s, result, none)

/-! ### Initialization -/

/-- Insert behind the last callback of no higher priority number. -/
def insertInit (init : RegInit) (callbacks : List RegInit) : List RegInit :=
  callbacks.rdropWhile (fun other => init.priority < other.priority) ++
    init :: callbacks.rtakeWhile (fun other => init.priority < other.priority)

/-- Collect the callbacks of a table, in the order of their priorities. -/
def collectInits (image : Image) : List RegSection → List RegInit → Option (List RegInit)
  | [], callbacks => some callbacks
  | entry :: rest, callbacks =>
    if entry.section_type = sectionInit then
      match entry.p_str.bind image.init with
      | none => none
      | some init =>
        if init.p_func.isNone then none else collectInits image rest (insertInit init callbacks)
    else collectInits image rest callbacks

/-- The result of the checks of `section_stl_group_initialize` under the lock. -/
def initializeCheck (s : State) (handle : Handle) : Status :=
  let result : Status :=
    match s.groupFind handle with
    | none => .stale
    | some g =>
      if (s.groups g).state ≠ .disabled ∨ (s.groups g).init_busy ∨ (s.groups g).initialized then
        .badState
      else .ok
  let result := if s.fault ≠ .ok then .badState else result
  if s.group_list.any fun g => (s.groups g).init_busy then .badState else result

/-- `section_stl_group_initialize` up to its first callback; with `.ok` the call goes on. -/
def sectionStlGroupInitialize (cfg : Config) (port : Port) (s : State) (image : Image)
    (handle : Handle) (p_entries : Option (ℕ → RegSection)) (count : ℕ) : State × Status :=
  if port.api_allowed = false then (s, .badContext)
  else if port.nativeContext = false then (s, .badContext)
  else if cfg.max_registrations < count ∨ (0 < count ∧ p_entries.isNone) then (s, .badArgument)
  else
    let table := (List.range count).filterMap fun i => p_entries.map (· i)
    match s.initializeCheck handle, s.groupFind handle with
    | .ok, some g =>
      match collectInits image table [] with
      | none => ({ s with init_callbacks := [] }, .badArgument)
      | some callbacks =>
        ({ s with
          init_callbacks := callbacks
          initRun := some ⟨g, 0, callbacks.length, .check⟩ }.modifyGroup g
          fun group => { group with init_busy := true }, .ok)
    | result, _ => (s, result)

/-- The end of `section_stl_group_initialize`. -/
def initializeEnd (s : State) (run : InitRun) : State × Status :=
  let s := { s with init_callbacks := [], initRun := none }
  if GroupState.revoking ≤ (s.groups run.group).state then
    (s.modifyGroup run.group fun group =>
      { group with init_busy := false, state := .revoked }, .badState)
  else
    (s.modifyGroup run.group fun group =>
      { group with init_busy := false, initialized := true }, .ok)

/-- The next step of `section_stl_group_initialize`: it looks under the lock at the state of the
group, or calls without the lock the callback that this has admitted, or returns. -/
def initializeNext (s : State) : State × Option Status :=
  match s.initRun with
  | none => (s, none)
  | some run =>
    if run.point = .call then
      ({ s with
        initRun := some { run with index := run.index + 1, point := .check }
        history := { s.history with
          started := s.history.started ++ [(s.groups run.group).handle] } }, none)
    else if run.point = .check ∧ run.index < run.callback_count then
      ({ s with
        initRun := some { run with
          point := if .revoking ≤ (s.groups run.group).state then .leave else .call } }, none)
    else
      let (s, result) := s.initializeEnd run
      (s, some result)

/-! ### The life of a group -/

/-- A call on a resident group. -/
def onGroup (port : Port) (s : State) (handle : Handle) (body : ℕ → State × Status) :
    State × Status :=
  if port.api_allowed = false then (s, .badContext)
  else
    match s.groupFind handle with
    | none => (s, .stale)
    | some g => body g

/-- `section_stl_group_enable` -/
def sectionStlGroupEnable (port : Port) (s : State) (handle : Handle) : State × Status :=
  s.onGroup port handle fun g =>
    if (s.groups g).initialized = true ∧ ¬ .revoking ≤ (s.groups g).state ∧ s.fault = .ok then
      let rebased :=
        if (s.groups g).state ≠ .enabled then
          { s with tasks := fun t =>
              if t ∈ (s.groups g).tasks then { s.tasks t with last := s.tick_now } else s.tasks t }
        else s
      (rebased.modifyGroup g fun group => { group with state := .enabled }, .ok)
    else (s, .badState)

/-- `section_stl_group_disable` -/
def sectionStlGroupDisable (cfg : Config) (port : Port) (s : State) (handle : Handle) :
    State × Status :=
  s.onGroup port handle fun g =>
    if ¬ .revoking ≤ (s.groups g).state then
      ((s.modifyGroup g fun group => { group with state := .disabled }).readyRemove cfg
        handle false, .ok)
    else (s, .badState)

/-- `section_stl_group_pause` -/
def sectionStlGroupPause (cfg : Config) (port : Port) (s : State) (handle : Handle) :
    State × Status :=
  s.onGroup port handle fun g =>
    if ¬ .revoking ≤ (s.groups g).state then
      if s.groupExecuting g = false ∧ s.ring.groupRecords cfg handle = 0 ∧
          (s.groups g).references = 0 then
        ((s.modifyGroup g fun group => { group with state := .paused }).readyRemove cfg
          handle false, .ok)
      else (s, .busy)
    else (s, .badState)

/-- `section_stl_group_revoke` -/
def sectionStlGroupRevoke (cfg : Config) (port : Port) (s : State) (handle : Handle) :
    State × Status :=
  s.onGroup port handle fun g =>
    let s := (s.modifyGroup g fun group => { group with state := .revoking }).groupCancel cfg g
    (s, if s.groupExecuting g then .busy else .ok)

/-- `section_stl_group_acquire` -/
def sectionStlGroupAcquire (port : Port) (s : State) (handle : Handle) : State × Status :=
  s.onGroup port handle fun g =>
    if ¬ .paused ≤ (s.groups g).state ∧ (s.groups g).references < 0xFFFFFFFF then
      (s.modifyGroup g fun group => { group with references := group.references + 1 }, .ok)
    else (s, .badState)

/-- `section_stl_group_release` -/
def sectionStlGroupRelease (port : Port) (s : State) (handle : Handle) : State × Status :=
  s.onGroup port handle fun g =>
    if 0 < (s.groups g).references then
      (s.modifyGroup g fun group => { group with references := group.references - 1 }, .ok)
    else (s, .badState)

/-- `section_stl_group_quiescent` -/
def sectionStlGroupQuiescent (cfg : Config) (port : Port) (s : State) (handle : Handle) :
    State × Status :=
  if port.api_allowed = false then (s, .badContext)
  else if port.nativeContext = false then (s, .badContext)
  else
    let s := s.recordsReap cfg
    match s.groupFind handle with
    | none => (s, .stale)
    | some g =>
      if s.groupRetired cfg g = true ∧ s.fault = .ok then
        (s.modifyGroup g fun group => { group with quiescent := true }, .ok)
      else (s, .busy)

/-- Clear the slots of some tasks. -/
def clearTasks (s : State) (ts : List ℕ) : State :=
  ts.foldl (fun s t => { s with ready := s.ready.clear t }.modify t fun _ => .zero) s

/-- `section_stl_group_forget` -/
def sectionStlGroupForget (cfg : Config) (port : Port) (s : State) (handle : Handle) :
    State × Status :=
  if port.api_allowed = false then (s, .badContext)
  else if port.nativeContext = false then (s, .badContext)
  else
    match s.groupFind handle with
    | none => (s, .stale)
    | some g =>
      if s.groupRetired cfg g = true ∧ (s.groups g).quiescent = true ∧ s.fault = .ok then
        let s := s.clearTasks (s.groups g).tasks
        ({ s with
          group_list := s.group_list.erase g
          group_count := s.group_count - 1 }.modifyGroup g fun _ => .zero, .ok)
      else (s, .busy)

/-- `section_stl_group_info_t` -/
structure GroupInfo where
  state : GroupState
  task_count : ℕ
  records : ℕ
  references : UInt32
  executing : Bool
  initialized : Bool
  quiescent : Bool

/-- `section_stl_group_query`, with what it stores in `*p_info` -/
def sectionStlGroupQuery (cfg : Config) (port : Port) (s : State) (handle : Handle)
    (p_info : Bool) : Status × Option GroupInfo :=
  if port.api_allowed = false then (.badContext, none)
  else if p_info = false then (.badArgument, none)
  else
    match s.groupFind handle with
    | none => (.stale, none)
    | some g =>
      let group := s.groups g
      (.ok, some ⟨group.state, group.task_count, s.ring.groupRecords cfg handle, group.references,
        s.groupExecuting g, group.initialized, group.quiescent⟩)

/-! ### Time and switches -/

/-- `section_stl_tick` -/
def sectionStlTick (port : Port) (s : State) (now : UInt32) : State × Status :=
  if port.api_allowed = false then (s, .badContext)
  else if s.initialized = true ∧ s.fault = .ok then
    if now - s.tick_now < stlHalf then
      let s := { s with tick_now := now }
      (if s.current = none then s.activateDue else s, .ok)
    else (s, .badArgument)
  else (s, .badState)

/-- `section_stl_request_native` -/
def sectionStlRequestNative (port : Port) (s : State) : State × Status :=
  if port.api_allowed = false then (s, .badContext)
  else if s.initialized = false then (s, .badState)
  else if s.fault ≠ .ok then (s, s.fault)
  else if port.active then ({ s with native_pending := true }, .ok)
  else (s, .badContext)

/-- The part of `section_stl_switch` for the task that runs: the function returns, or the
task has left the processor. -/
def switchOut (cfg : Config) (port : Port) (s : State) (p_saved_sp : Option ℕ) :
    Except (State × Option ℕ) State :=
  let elapsed := s.tick_now - s.slice_start
  match s.current with
  | none => .ok s
  | some t =>
    match s.groupFind (s.tasks t).owner with
    | none =>
      .ok { s.modify t fun task => { task with state := .sleeping } with current := none }
    | some g =>
      if .revoking ≤ (s.groups g).state then
        let s := { s.modify t fun task => { task with state := .sleeping } with current := none }
        .ok (s.groupCancel cfg g)
      else if (s.tasks t).state = .running then
        match s.frameWords cfg p_saved_sp, p_saved_sp with
        | (s, 0), _ => .error ({ s with current := none }.returnNative port)
        | (s, _), none => .error ({ s with current := none }.returnNative port)
        | (s, words), some sp =>
          match s.snapshotSave cfg t sp words with
          | (s, false) =>
            if s.fault ≠ .ok then .error ({ s with current := none }.returnNative port)
            else .error (s, p_saved_sp)
          | (s, true) =>
            let s := s.modify t fun task => { task with state := .old }
            let charged := if elapsed ≠ 0 then elapsed else 1
            let s :=
              if s.native_pending = true ∧ charged < (s.tasks t).quantum_left then
                (s.modify t fun task =>
                  { task with quantum_left := task.quantum_left - charged }).readyPushFront t
              else
                (s.modify t fun task => { task with quantum_left := cfg.slice_ticks }).readyPush t
            .ok { s with current := none }
      else .ok { s with current := none }

/-- The part of `section_stl_switch` for the task that was selected. -/
def switchTo (cfg : Config) (port : Port) (s : State) (t : ℕ) : State × Option ℕ :=
  let (s, p_next_sp) :=
    if (s.tasks t).state = .old then s.snapshotRestore cfg t
    else (s.modify t fun task => { task with quantum_left := cfg.slice_ticks }).portPrepare cfg
  if s.fault ≠ .ok ∨ p_next_sp = none then s.corrupt.returnNative port
  else
    match s.frameWords cfg p_next_sp with
    | (s, 0) => s.corrupt.returnNative port
    | (s, _) =>
      match s.hostCommit port (s.tasks t).owner with
      | (s, false) => { s with current := none }.returnNative port
      | (s, true) =>
        let s := { s with slice_start := s.tick_now, current := some t }
        (s.modify t fun task => { task with state := .running }, p_next_sp)

/-- The check of `section_stl_switch` that passes over a task. -/
def passedOver (s : State) (t g : ℕ) : Prop :=
  .paused ≤ (s.groups g).state ∨ (s.groups g).state = .disabled ∧ (s.tasks t).state ≠ .old

instance (s : State) (t g : ℕ) : Decidable (s.passedOver t g) :=
  inferInstanceAs (Decidable (_ ∨ _))

/-- The loop of `section_stl_switch`, for at most `n` tasks. -/
def switchLoop (cfg : Config) (port : Port) : ℕ → State → State × Option ℕ
  | 0, s => s.returnNative port
  | n + 1, s =>
    match s.readyPop with
    | (none, s) => s.returnNative port
    | (some t, s) =>
      match s.groupFind (s.tasks t).owner with
      | none => switchLoop cfg port n s
      | some g =>
        if s.passedOver t g then
          if .revoking ≤ (s.groups g).state then
            let s := s.groupCancel cfg g
            if s.fault ≠ .ok then s.returnNative port else switchLoop cfg port n s
          else switchLoop cfg port n s
        else s.switchTo cfg port t

/-- The part of `section_stl_switch` behind the task that ran. -/
def switchIn (cfg : Config) (port : Port) (s : State) : State × Option ℕ :=
  if s.initialized = false ∨ s.fault ≠ .ok then s.returnNative port
  else if s.native_pending then s.returnNative port
  else
    let s := s.activateDue.recordsReap cfg
    if s.fault ≠ .ok then s.returnNative port
    else s.switchLoop cfg port (cfg.max_tasks + 1)

/-- `section_stl_switch`, with the frame to restore -/
def sectionStlSwitch (cfg : Config) (port : Port) (s : State) (p_saved_sp : Option ℕ) :
    State × Option ℕ :=
  if s.fault ≠ .ok then { s with current := none }.returnNative port
  else if port.host_switch_allowed = false then (s, p_saved_sp)
  else
    match s.switchOut cfg port p_saved_sp with
    | .error result => result
    | .ok s => s.switchIn cfg port

/-! ### The task trampoline -/

/-- The current task while its code runs. -/
def runningTask (s : State) : Option ℕ :=
  s.current.bind fun t => if (s.tasks t).state = .running then some t else none

/-- `section_stl_entry` calls the callback of the current task. -/
def entryCall (s : State) : State :=
  match s.runningTask with
  | none => s
  | some t =>
    { s with
      history := { s.history with started := s.history.started ++ [(s.tasks t).owner] } }

/-- The head of the ready queue as `section_stl_entry` starts it in place of a completed
task: the test, up to the group of the head. -/
def inlineHead (port : Port) (s : State) (t : ℕ) : Option ℕ :=
  if port.inline_allowed = true ∧ s.native_pending = false ∧ port.host_switch_allowed = true ∧
      s.tick_now - s.slice_start < (s.tasks t).quantum_left then
    match s.ready.first with
    | none => none
    | some f =>
      if (s.tasks f).state = .new then
        match s.groupFind (s.tasks f).owner with
        | none => none
        | some g => if (s.groups g).state = .enabled then some f else none
      else none
  else none

/-- `section_stl_entry` behind a callback: the transaction that completes the current task.
A plain callback is always done. -/
def entryComplete (cfg : Config) (port : Port) (s : State) (outcome_running : Bool) : State :=
  match s.runningTask with
  | none => s
  | some t =>
    let outcome_running :=
      outcome_running && (s.tasks t).p_func.isNone && (s.tasks t).p_step_func.isSome
    let p_group := s.groupFind (s.tasks t).owner
    let s := s.modify t fun task => { task with state := .sleeping }
    let s :=
      match p_group with
      | none => s
      | some g =>
        if (s.groups g).state = GroupState.enabled ∧ outcome_running = true then
          (s.modify t fun task => { task with state := .new }).readyPush t
        else s
    let s := s.activateDue
    match s.inlineHead port t with
    | none => s
    | some f =>
      match s.hostCommit port (s.tasks f).owner with
      | (s, false) => s
      | (s, true) =>
        let (_, s) := s.readyPop
        let s := { s with current := some f, slice_start := s.tick_now }.modify f fun task =>
          { task with quantum_left := cfg.slice_ticks, state := .running }
        match p_group with
        | none => s
        | some g => if (s.groups g).state = GroupState.revoking then s.groupCancel cfg g else s

end State
end Atoman.SectionStl
