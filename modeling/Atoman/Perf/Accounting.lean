import Atoman.Lib.ModularTime
import Atoman.Lib.Transition
import Atoman.Perf.Service

/-!
# What tasks and interrupts are charged

Tasks and interrupts begin and end; the hardware counter gives the time without its carries.
Where no interrupt interrupts another one, a task is charged the time that it took but for
the time in which an interrupt was active, and all charges add up to the time that has gone by.
An interrupt within an interrupt is charged twice.
-/

namespace Atoman.Perf
open Lib (Transition)
variable {F : Type}

/-- What happens to the task and the interrupts, or that time goes by. The records of those that
begin are given. -/
inductive Act
  | taskBegin (record : ℕ) | taskEnd | interruptBegin (record : ℕ) | interruptEnd | wait
deriving DecidableEq

/-- Something that happens at a time. -/
structure Event where
  time : ℕ
  act : Act
deriving DecidableEq

/-- The core, and what the callers keep of the task and the interrupts that have begun: the record
and the counter at the begin. The rest is what really goes by: the time, when the task and each
interrupt began, for how long an interrupt was active in the task, and the sum of the charges. -/
structure Machine (F : Type) where
  core : Core F
  task : Option (ℕ × UInt32)
  interrupts : List (ℕ × UInt32)
  now : ℕ
  began : ℕ
  active : List ℕ
  busy : ℕ
  charged : ℕ

namespace Machine

/-- The time goes on; where an interrupt is active, the task waits for it. -/
def pass (m : Machine F) (time : ℕ) : Machine F :=
  { m with
    core := { m.core with counter := some (UInt32.ofNat time) }
    now := time
    busy := if m.interrupts = [] then m.busy else m.busy + (time - m.now) }

/-- What is added to the run time of a record -/
def added (core core' : Core F) (record : ℕ) : ℕ :=
  ((core'.records record).run_time - (core.records record).run_time).toNat

/-- What happens now -/
def perform (m : Machine F) : Act → Machine F
  | .taskBegin record =>
    let (core, start_cnt) := m.core.taskBegin (some record)
    { m with core := core, task := some (record, start_cnt), began := m.now, busy := 0 }
  | .taskEnd =>
    match m.task with
    | none => m
    | some (record, start_cnt) =>
      let core := m.core.taskEnd (some record) start_cnt
      { m with core := core, task := none, charged := m.charged + added m.core core record }
  | .interruptBegin record =>
    { m with
      interrupts := (record, m.core.interruptBegin (some record)) :: m.interrupts
      active := m.now :: m.active }
  | .interruptEnd =>
    match m.interrupts with
    | [] => m
    | (record, start_cnt) :: interrupts =>
      let core := m.core.interruptEnd (some record) start_cnt
      { m with
        core := core, interrupts := interrupts, active := m.active.tail
        charged := m.charged + added m.core core record }
  | .wait => m

/-- One event -/
def step (m : Machine F) (e : Event) : Machine F := (m.pass e.time).perform e.act

/-- Nothing runs, and the records lead to the counter. -/
structure Idle (m : Machine F) : Prop where
  task : m.task = none
  interrupts : m.interrupts = []
  active : m.active = []
  running : m.core.running = none
  p_cnt : ∀ i, (m.core.records i).p_cnt = true

/-- Events that are well nested, and what ends took less than a turn of the counter. -/
def WellNested (m : Machine F) (e : Event) : Prop :=
  m.now ≤ e.time ∧
    match e.act with
    | .taskBegin _ => m.task = none ∧ m.interrupts = []
    | .taskEnd => m.task.isSome ∧ m.interrupts = [] ∧ e.time - m.began < 2 ^ 32
    | .interruptBegin _ => True
    | .interruptEnd => ∃ begin ∈ m.active.head?, e.time - begin < 2 ^ 32
    | .wait => True

/-- In addition, no interrupt interrupts another one. -/
def Flat (m : Machine F) (e : Event) : Prop :=
  WellNested m e ∧
    match e.act with
    | .interruptBegin _ => m.interrupts = []
    | _ => True

/-- Runs of events of a kind -/
def runs (P : Machine F → Event → Prop) : Transition (Machine F) := Transition.driven Idle step P

/-- A task that ends is charged its time but for that in which an interrupt was active. -/
def Charges (P : Machine F → Event → Prop) : Prop :=
  ∀ m : Machine F, (runs P).Reachable m → ∀ time record start_cnt, P m ⟨time, .taskEnd⟩ →
    m.task = some (record, start_cnt) →
      ((m.step ⟨time, .taskEnd⟩).core.records record).time.toNat + (m.pass time).busy =
        time - m.began

/-- The charges of a period, with those of `before` it, add up to the time that goes by. -/
def AddsUp (P : Machine F → Event → Prop) (before : Machine F → ℕ) : Prop :=
  ∀ m m' : Machine F, (runs P).Reachable m → (runs P).Steps m m' →
    m'.charged - m.charged ≤ (m'.now - m.now) + before m

/-- What the task and the interrupt that are active have run so far -/
def run (m : Machine F) : ℕ :=
  (if m.task.isSome then m.now - m.began - m.busy else 0) + (m.active.map (m.now - ·)).sum

/-! ## What the functions do -/

/-- A charge is what is added to the run time. -/
theorem added_eq {core core' : Core F} {record : ℕ} {delta : UInt32}
    (h : (core'.records record).run_time = (core.records record).run_time + delta) :
    added core core' record = delta.toNat := by
  rw [added, h, UInt32.add_comm, UInt32.add_sub_cancel]

/-- A record that is charged keeps its way to the counter. -/
theorem p_cnt_setRecord {core : Core F} {record : ℕ} {r : Record F}
    (h : r.p_cnt = (core.records record).p_cnt) (i : ℕ) :
    ((core.setRecord record r).records i).p_cnt = (core.records i).p_cnt := by
  by_cases hi : i = record
  · subst hi
    rw [← h]
    exact congrArg Record.p_cnt (Function.update_self _ _ _)
  · exact congrArg Record.p_cnt (Function.update_of_ne hi _ _)

theorem records_setRecord (core : Core F) (record : ℕ) (r : Record F) :
    (core.setRecord record r).records record = r := Function.update_self _ _ _

theorem interruptEnd_running (core : Core F) (record : ℕ) (start_cnt : UInt32) :
    (core.interruptEnd (some record) start_cnt).running = core.running := by
  simp only [Core.interruptEnd]
  split <;> rfl

theorem interruptEnd_records (core : Core F) (record : ℕ) (start_cnt : UInt32) :
    (core.interruptEnd (some record) start_cnt).records =
      (core.setRecord record
        (Core.charge (core.records record) (core.cntRead record - start_cnt))).records := by
  simp only [Core.interruptEnd]
  split <;> rfl

theorem interruptEnd_time {core : Core F} (h : core.running.isSome) (record : ℕ)
    (start_cnt : UInt32) : (core.interruptEnd (some record) start_cnt).interrupt_time =
      core.interrupt_time + (core.cntRead record - start_cnt) := by
  simp only [Core.interruptEnd]
  exact congrArg Core.interrupt_time (if_pos h)

theorem interruptEnd_added (core : Core F) (record : ℕ) (start_cnt : UInt32) :
    added core (core.interruptEnd (some record) start_cnt) record =
      (core.cntRead record - start_cnt).toNat := by
  refine added_eq ?_
  rw [interruptEnd_records, records_setRecord]
  rfl

/-- What a task is charged that ends -/
def taskDelta (core : Core F) (record : ℕ) (start_cnt : UInt32) : UInt32 :=
  if core.cntRead record - start_cnt > core.interrupt_time then
    core.cntRead record - start_cnt - core.interrupt_time
  else 0

theorem taskEnd_records (core : Core F) (record : ℕ) (start_cnt : UInt32) :
    (core.taskEnd (some record) start_cnt).records =
      (core.setRecord record
        { Core.charge (core.records record) (taskDelta core record start_cnt) with
          end_ := core.cntRead record, end_valid := true }).records := rfl

theorem taskEnd_added (core : Core F) (record : ℕ) (start_cnt : UInt32) :
    added core (core.taskEnd (some record) start_cnt) record =
      (taskDelta core record start_cnt).toNat := by
  refine added_eq ?_
  rw [taskEnd_records, records_setRecord]
  rfl

theorem taskEnd_time (core : Core F) (record : ℕ) (start_cnt : UInt32) :
    ((core.taskEnd (some record) start_cnt).records record).time =
      taskDelta core record start_cnt := by
  rw [taskEnd_records, records_setRecord]
  rfl

theorem taskBegin_p_cnt (core : Core F) (record i : ℕ) :
    (((core.taskBegin (some record)).1.records i)).p_cnt = (core.records i).p_cnt := by
  refine p_cnt_setRecord ?_ i
  simp only
  split <;> split <;> rfl

/-! ## What holds between the events -/

/-- The counts of the interrupt that is active, if there is one -/
def part (m : Machine F) : ℕ := (m.active.map (m.now - ·)).sum

/-- The task that has begun, by what the core and the caller keep of it -/
structure TaskRuns (m : Machine F) (start_cnt : UInt32) : Prop where
  start : start_cnt = UInt32.ofNat m.began
  running : m.core.running.isSome
  /-- the interrupts that have ended, and the one that is active -/
  interrupts : ∃ done, m.busy = done + m.part ∧ m.core.interrupt_time = UInt32.ofNat done
  busy : m.began + m.busy ≤ m.now

/-- The state between two events where interrupts do not interrupt each other. -/
structure Inv (m : Machine F) : Prop where
  p_cnt : ∀ i, (m.core.records i).p_cnt = true
  task : ∀ record start_cnt, m.task = some (record, start_cnt) → TaskRuns m start_cnt
  idle : m.task = none → m.core.running = none
  interrupts : m.interrupts = [] ∧ m.active = [] ∨
    ∃ record begin, m.interrupts = [(record, UInt32.ofNat begin)] ∧ m.active = [begin] ∧
      begin ≤ m.now

theorem Idle.inv {m : Machine F} (h : Idle m) : Inv m where
  p_cnt := h.p_cnt
  task := by
    intro record start_cnt htask
    rw [h.task] at htask
    contradiction
  idle := fun _ => h.running
  interrupts := .inl ⟨h.interrupts, h.active⟩

theorem Inv.active_eq_nil {m : Machine F} (h : Inv m) (hinterrupts : m.interrupts = []) :
    m.active = [] := by
  rcases h.interrupts with ⟨-, hactive⟩ | ⟨record, begin, hone, -, -⟩
  · exact hactive
  · rw [hinterrupts] at hone
    contradiction

/-- The counts of the interrupt go on as the time does. -/
theorem part_pass {m : Machine F} (h : Inv m) {time : ℕ} (ht : m.now ≤ time) :
    (m.pass time).part = m.part + if m.interrupts = [] then 0 else time - m.now := by
  rcases h.interrupts with ⟨hnone, hactive⟩ | ⟨record, begin, hone, hactive, hle⟩
  · simp [part, pass, hnone, hactive]
  · simp [part, pass, hone, hactive]
    omega

theorem busy_pass (m : Machine F) (time : ℕ) :
    (m.pass time).busy = m.busy + if m.interrupts = [] then 0 else time - m.now := by
  simp only [pass]
  split <;> rfl

/-- The time goes on. -/
theorem Inv.pass {m : Machine F} (h : Inv m) {time : ℕ} (ht : m.now ≤ time) :
    Inv (m.pass time) where
  p_cnt := h.p_cnt
  task := by
    intro record start_cnt htask
    obtain ⟨hstart, hrunning, ⟨done, hbusy, hdone⟩, hle⟩ := h.task record start_cnt htask
    refine ⟨hstart, hrunning, ⟨done, ?_, hdone⟩, ?_⟩
    · rw [busy_pass, part_pass h ht, hbusy, Nat.add_assoc]
    · rw [busy_pass]
      show m.began + _ ≤ time
      split <;> omega
  idle := h.idle
  interrupts := by
    refine h.interrupts.imp_right ?_
    rintro ⟨record, begin, hone, hactive, hle⟩
    exact ⟨record, begin, hone, hactive, hle.trans ht⟩

/-- What is active runs as long as the time goes on. -/
theorem run_pass {m : Machine F} (h : Inv m) {time : ℕ} (ht : m.now ≤ time) :
    (m.pass time).run ≤ m.run + (time - m.now) := by
  have hpart := part_pass h ht
  have hbusy := busy_pass m time
  simp only [run, part] at hpart ⊢
  rw [hpart]
  cases htask : m.task with
  | none =>
    have hnone : (m.pass time).task = none := htask
    rw [hnone]
    simp only [Option.isSome_none, Bool.false_eq_true, if_false, Nat.zero_add]
    split <;> omega
  | some p =>
    obtain ⟨record, start_cnt⟩ := p
    have hsome : (m.pass time).task = some (record, start_cnt) := htask
    have hle := (h.task record start_cnt htask).busy
    rw [hsome]
    simp only [Option.isSome_some, if_true]
    have hnow : (m.pass time).now = time := rfl
    have hbegan : (m.pass time).began = m.began := rfl
    rw [hnow, hbegan, hbusy]
    split <;> omega

/-! ## The events -/

/-- Something happened now, and what was charged is what had run. -/
structure Settles (m m' : Machine F) : Prop where
  inv : Inv m'
  now : m'.now = m.now
  charged : m'.charged + m'.run = m.charged + m.run

section Perform
variable {m : Machine F} (h : Inv m) (hcounter : m.core.counter = some (UInt32.ofNat m.now))
include h hcounter

theorem cntRead_eq (record : ℕ) : m.core.cntRead record = UInt32.ofNat m.now := by
  rw [Core.cntRead, if_pos (h.p_cnt record), hcounter]
  rfl

theorem settles_taskBegin (record : ℕ) (htask : m.task = none) (hinterrupts : m.interrupts = []) :
    Settles m (m.perform (.taskBegin record)) := by
  have hactive := h.active_eq_nil hinterrupts
  refine ⟨⟨?_, ?_, nofun, .inl ⟨hinterrupts, hactive⟩⟩, rfl, ?_⟩
  · intro i
    exact (taskBegin_p_cnt m.core record i).trans (h.p_cnt i)
  · rintro r start_cnt ⟨⟩
    refine ⟨cntRead_eq h hcounter record, rfl, ⟨0, ?_, rfl⟩, le_rfl⟩
    simp [perform, part, hactive]
  · simp [perform, run, htask, hactive]

/-- What a task is charged -/
theorem taskDelta_eq {record : ℕ} {start_cnt : UInt32} (htask : m.task = some (record, start_cnt))
    (hinterrupts : m.interrupts = []) (hshort : m.now - m.began < 2 ^ 32) :
    (taskDelta m.core record start_cnt).toNat + m.busy = m.now - m.began := by
  obtain ⟨hstart, -, ⟨done, hbusy, hdone⟩, hle⟩ := h.task record start_cnt htask
  have hpart : m.part = 0 := by simp [part, h.active_eq_nil hinterrupts]
  have hdelta : (m.core.cntRead record - start_cnt).toNat = m.now - m.began := by
    rw [cntRead_eq h hcounter, hstart]
    exact Lib.ModularTime.toNat_sub (by omega) (by omega)
  have hinterrupt : m.core.interrupt_time.toNat = m.busy := by
    rw [hdone, UInt32.toNat_ofNat_of_lt' (show done < UInt32.size by simp [UInt32.size]; omega)]
    omega
  rw [taskDelta]
  by_cases hgt : m.core.cntRead record - start_cnt > m.core.interrupt_time
  · rw [if_pos hgt, UInt32.toNat_sub_of_le _ _ (UInt32.le_of_lt hgt), hdelta, hinterrupt]
    omega
  · rw [gt_iff_lt, UInt32.lt_iff_toNat_lt, hdelta, hinterrupt] at hgt
    rw [if_neg (by rwa [gt_iff_lt, UInt32.lt_iff_toNat_lt, hdelta, hinterrupt])]
    show 0 + _ = _
    omega

theorem settles_taskEnd {record : ℕ} {start_cnt : UInt32}
    (htask : m.task = some (record, start_cnt)) (hinterrupts : m.interrupts = [])
    (hshort : m.now - m.began < 2 ^ 32) : Settles m (m.perform .taskEnd) := by
  have hdelta := taskDelta_eq h hcounter htask hinterrupts hshort
  have hactive := h.active_eq_nil hinterrupts
  have hperform : m.perform .taskEnd =
      { m with
        core := m.core.taskEnd (some record) start_cnt, task := none
        charged := m.charged + added m.core (m.core.taskEnd (some record) start_cnt) record } := by
    simp only [perform, htask]
  rw [hperform]
  refine ⟨⟨?_, nofun, fun _ => rfl, .inl ⟨hinterrupts, hactive⟩⟩, rfl, ?_⟩
  · intro i
    rw [← h.p_cnt i]
    simp only [taskEnd_records]
    refine p_cnt_setRecord ?_ i
    rfl
  · simp only [taskEnd_added, run, htask, hactive]
    simp
    omega

theorem settles_interruptBegin (record : ℕ) (hinterrupts : m.interrupts = []) :
    Settles m (m.perform (.interruptBegin record)) := by
  have hactive := h.active_eq_nil hinterrupts
  refine ⟨⟨h.p_cnt, ?_, h.idle, .inr ⟨record, m.now, ?_, ?_, le_rfl⟩⟩, rfl, ?_⟩
  · intro r start_cnt htask
    obtain ⟨hstart, hrunning, ⟨done, hbusy, hdone⟩, hle⟩ := h.task r start_cnt htask
    refine ⟨hstart, hrunning, ⟨done, ?_, hdone⟩, hle⟩
    simp only [part, hactive] at hbusy
    simpa [perform, part, hactive] using hbusy
  · simp only [perform, hinterrupts, Core.interruptBegin, cntRead_eq h hcounter]
  · simp only [perform, hactive]
  · simp [perform, run, hactive]

theorem settles_interruptEnd {begin : ℕ} (hbegin : begin ∈ m.active.head?)
    (hshort : m.now - begin < 2 ^ 32) : Settles m (m.perform .interruptEnd) := by
  rcases h.interrupts with ⟨-, hactive⟩ | ⟨record, begin', hone, hactive, hle⟩
  · rw [hactive] at hbegin
    contradiction
  obtain rfl : begin' = begin := by
    rw [hactive] at hbegin
    exact Option.some.inj hbegin
  have hnat : (m.core.cntRead record - UInt32.ofNat begin').toNat = m.now - begin' := by
    rw [cntRead_eq h hcounter]
    exact Lib.ModularTime.toNat_sub hle (by omega)
  have hdelta : m.core.cntRead record - UInt32.ofNat begin' = UInt32.ofNat (m.now - begin') := by
    rw [← UInt32.toNat_inj, hnat,
      UInt32.toNat_ofNat_of_lt' (show _ < UInt32.size by simp only [UInt32.size]; omega)]
  have hperform : m.perform .interruptEnd =
      { m with
        core := m.core.interruptEnd (some record) (UInt32.ofNat begin'), interrupts := []
        active := []
        charged := m.charged +
          added m.core (m.core.interruptEnd (some record) (UInt32.ofNat begin')) record } := by
    simp only [perform, hone, hactive, List.tail_cons]
  rw [hperform]
  refine ⟨⟨?_, ?_, ?_, .inl ⟨rfl, rfl⟩⟩, rfl, ?_⟩
  · intro i
    rw [← h.p_cnt i]
    simp only [interruptEnd_records]
    refine p_cnt_setRecord ?_ i
    rfl
  · intro r start_cnt htask
    obtain ⟨hstart, hrunning, ⟨done, hbusy, hdone⟩, hend⟩ := h.task r start_cnt htask
    refine ⟨hstart, ?_, ⟨done + (m.now - begin'), ?_, ?_⟩, hend⟩
    · simp only [interruptEnd_running]
      exact hrunning
    · simp only [part, hactive] at hbusy ⊢
      simpa using hbusy
    · simp only [interruptEnd_time hrunning, hdone, hdelta, UInt32.ofNat_add]
  · intro htask
    simp only [interruptEnd_running]
    exact h.idle htask
  · simp only [interruptEnd_added, hnat, run, hactive]
    simp
    omega

end Perform

/-- An event where no interrupt interrupts another one. -/
theorem settles_step {m : Machine F} {e : Event} (h : Inv m) (hflat : Flat m e) :
    Settles (m.pass e.time) (m.step e) := by
  obtain ⟨time, act⟩ := e
  obtain ⟨⟨hle, hact⟩, hnested⟩ := hflat
  have hpass := h.pass hle
  cases act with
  | taskBegin record => exact settles_taskBegin hpass rfl record hact.1 hact.2
  | taskEnd =>
    obtain ⟨⟨record, start_cnt⟩, htask⟩ := Option.isSome_iff_exists.mp hact.1
    exact settles_taskEnd hpass rfl htask hact.2.1 hact.2.2
  | interruptBegin record => exact settles_interruptBegin hpass rfl record hnested
  | interruptEnd =>
    obtain ⟨begin, hbegin, hshort⟩ := hact
    exact settles_interruptEnd hpass rfl hbegin hshort
  | wait => exact ⟨hpass, rfl, rfl⟩

theorem inv_of_reachable {m : Machine F} (h : (runs Flat).Reachable m) : Inv m :=
  h.driven_invariant (fun _ hm => hm.inv) fun _ _ hm hflat => (settles_step hm hflat).inv

/-- Where no interrupt interrupts another one, a task is charged its time but for that in which an
interrupt was active; and the charges of a period add up to no more than the time that goes by
and what the task and the interrupt that are active at its begin have run until then. -/
theorem accounting : Charges (F := F) Flat ∧ AddsUp (F := F) Flat run := by
  refine ⟨?_, ?_⟩
  · intro m hm time record start_cnt hflat htask
    have hpass := (inv_of_reachable hm).pass hflat.1.1
    have htask' : (m.pass time).task = some (record, start_cnt) := htask
    have hperform : (m.step ⟨time, .taskEnd⟩).core =
        (m.pass time).core.taskEnd (some record) start_cnt := by
      simp only [step, perform, htask']
    rw [hperform, taskEnd_time]
    exact taskDelta_eq hpass rfl htask hflat.1.2.2.1 hflat.1.2.2.2
  · intro m m' hm hsteps
    have hend : Inv m' ∧ m.now ≤ m'.now ∧
        m'.charged + m'.run ≤ m.charged + m.run + (m'.now - m.now) := by
      refine hsteps.invariant (P := fun t => Inv t ∧ m.now ≤ t.now ∧
        t.charged + t.run ≤ m.charged + m.run + (t.now - m.now))
        ⟨inv_of_reachable hm, le_rfl, by omega⟩ ?_
      rintro t _ ⟨hinv, hle, hsum⟩ ⟨e, hflat, rfl⟩
      have hsettles := settles_step hinv hflat
      have htime := hflat.1.1
      have hrun := run_pass hinv htime
      have hnow : (t.step e).now = e.time := hsettles.now
      have hcharged : (t.step e).charged + (t.step e).run = t.charged + (t.pass e.time).run :=
        hsettles.charged
      exact ⟨hsettles.inv, by omega, by omega⟩
    omega

/-! ## Runs -/

def demoRecord : Record Unit :=
  { p_name := none, start := 0, end_ := 0, time := 0, max_time := 0, run_time := 0
    start_to_start_time := 0, end_to_start_time := 0, period_us := 0, load := (), load_max := ()
    record_id := 0, record_type := .task, start_valid := false, end_valid := false, p_cnt := true }

/-- Nothing has run yet. -/
def demo : Machine Unit where
  core := ⟨fun _ => demoRecord, none, none, 0⟩
  task := none
  interrupts := []
  now := 0
  began := 0
  active := []
  busy := 0
  charged := 0

theorem demo_idle : Idle demo := ⟨rfl, rfl, rfl, rfl, fun _ => rfl⟩

instance (m : Machine Unit) (e : Event) : Decidable (WellNested m e) := by
  obtain ⟨time, act⟩ := e
  cases act <;> unfold WellNested <;> infer_instance

instance (m : Machine Unit) (e : Event) : Decidable (Flat m e) := by
  obtain ⟨time, act⟩ := e
  cases act <;> unfold Flat <;> infer_instance

/-- A task with an interrupt from 10 to 50 in it -/
def single : List Event := [⟨0, .taskBegin 0⟩, ⟨10, .interruptBegin 1⟩, ⟨50, .interruptEnd⟩]

/-- The task is charged 60 and the interrupt 40. -/
theorem accounting_single :
    (((single.foldl step demo).step ⟨100, .taskEnd⟩).core.records 0).time = 60 ∧
    ((single.foldl step demo).step ⟨100, .taskEnd⟩).charged = 100 ∧
    (((single.foldl step demo).step ⟨100, .taskEnd⟩).core.records 0).time.toNat +
        ((single.foldl step demo).pass 100).busy = 100 - (single.foldl step demo).began ∧
    ((single.foldl step demo).step ⟨100, .taskEnd⟩).charged - demo.charged ≤
      ((single.foldl step demo).step ⟨100, .taskEnd⟩).now - demo.now + run demo := by
  have hadmits : Transition.Admits step Flat demo (single ++ [⟨100, .taskEnd⟩]) := by decide
  have hsteps : (Transition.driven Idle step Flat).Steps demo _ := hadmits.steps .refl
  rw [List.foldl_append] at hsteps
  exact ⟨by decide, by decide,
    accounting.1 _ (hadmits.left.reachable (.start demo_idle)) 100 0 0 (by decide) (by decide),
    accounting.2 _ _ (.start demo_idle) hsteps⟩

/-! ## An interrupt within an interrupt -/

/-- An interrupt from 10 to 50, with another one in it from 20 to 40 -/
def nested : List Event :=
  [⟨10, .interruptBegin 1⟩, ⟨20, .interruptBegin 2⟩, ⟨40, .interruptEnd⟩, ⟨50, .interruptEnd⟩]

/-- The inner interrupt is taken off the task twice and charged twice; and the charges of a period
that begins within a task contain what the task had run before. -/
theorem not_accounting : ¬ Charges (F := Unit) WellNested ∧
    ¬ AddsUp (F := Unit) WellNested (fun _ => 0) ∧ ¬ AddsUp (F := Unit) Flat (fun _ => 0) := by
  have hstart : ∀ P, (runs P).Reachable demo := fun P => .start demo_idle
  refine ⟨?_, ?_, ?_⟩
  · intro h
    have hadmits : Transition.Admits step WellNested demo (⟨0, .taskBegin 0⟩ :: nested) := by
      decide
    have hcharge := h _ (hadmits.reachable (hstart _)) 100 0 0 (by decide) (by decide)
    exact absurd hcharge (by decide)
  · intro h
    have hadmits : Transition.Admits step WellNested demo nested := by decide
    have hsum := h demo _ (hstart _) (hadmits.steps .refl)
    exact absurd hsum (by decide)
  · intro h
    have hadmits : Transition.Admits step Flat demo [⟨0, .taskBegin 0⟩, ⟨90, .wait⟩] := by decide
    have hsum := h _ _ (hadmits.reachable (hstart _))
      (.tail .refl ⟨⟨100, .taskEnd⟩, by decide, rfl⟩)
    exact absurd hsum (by decide)

end Machine
end Atoman.Perf
